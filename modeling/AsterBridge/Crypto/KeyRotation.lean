import AsterBridge.Crypto.Bootstrap
import AsterBridge.Crypto.EnvelopeReaders

/-!
# Content outlives its key

Over ideal cryptography, what was sealed under a key opens for every account that has the key: as
its current key, among the keys before it, or among its keys for inbound mail. Drafts are the
exception: the readers try the legacy derivation with the previous keys only.
-/

set_option autoImplicit false

namespace AsterBridge.Crypto.Readers

open AsterBridge.Lib AsterBridge.Lib.Text AsterBridge.Crypto.Ratchet

/-! ## Ideal cryptography -/

/-- Ideal cryptography; `Sealed key nonce message text` says what was sealed. A text opens only as
it was sealed, and so does no end of it; derived keys do not collide; and an OpenPGP message has
one content, which each of its keys opens. -/
structure IdealContent {Scalar Point Key Public : Type} (x : Primitives Scalar Point)
    (y : ContentCrates Key Public) (Sealed : Bytes → Bytes → Bytes → Bytes → Prop) : Prop where
  decrypt_iff : ∀ {key nonce msg ct},
    x.decrypt key nonce ct [] = some msg ↔ Sealed key nonce msg ct
  only : ∀ {key nonce msg ct key' nonce' msg' ct'}, Sealed key nonce msg ct →
    Sealed key' nonce' msg' ct' → ct' <:+ ct → key' = key ∧ nonce' = nonce ∧ msg' = msg ∧ ct' = ct
  tag : ∀ {key nonce msg ct}, Sealed key nonce msg ct → 16 ≤ ct.length
  sha256_injective : Function.Injective y.sha256
  expands : ∀ ikm salt info, ∃ okm, x.expand ikm salt info 32 = .ok okm
  expand_ne_sha256 : ∀ {ikm salt info okm bytes},
    x.expand ikm salt info 32 = .ok okm → okm ≠ y.sha256 bytes
  decode_nil : y.base64Decode "" = .ok []
  opens_some : ∀ {armored keys passphrase plain},
    y.decryptMessage armored keys passphrase = some plain →
      ∃ key ∈ keys, (y.decryptMessage armored [key] passphrase).isSome
  opens_of_mem : ∀ {armored key keys passphrase}, key ∈ keys →
    (y.decryptMessage armored [key] passphrase).isSome →
      (y.decryptMessage armored keys passphrase).isSome
  one_content : ∀ {armored keys passphrase plain keys' passphrase' plain'},
    y.decryptMessage armored keys passphrase = some plain →
      y.decryptMessage armored keys' passphrase' = some plain' → plain' = plain
  verified : ∀ {armored keys publics passphrase plain},
    y.decryptAndVerify armored keys publics passphrase = some plain →
      y.decryptMessage armored keys passphrase = some plain

section Lists

variable {α β ε : Type}

theorem toOption_eq_some {e : Except ε α} {a : α} : e.toOption = some a ↔ e = .ok a := by
  cases e with
  | error err => exact iff_of_false (fun h => (nomatch h)) (fun h => (nomatch h))
  | ok b =>
      constructor
      · rintro h
        exact congrArg Except.ok (Option.some.inj h)
      · intro h
        exact congrArg Option.some (Except.ok.inj h)

theorem mapError_eq_ok {δ : Type} {e : Except ε α} {f : ε → δ} {a : α} :
    e.mapError f = .ok a ↔ e = .ok a := by
  cases e with
  | error err => exact iff_of_false (fun h => (nomatch h)) (fun h => (nomatch h))
  | ok b =>
      constructor
      · intro h
        exact congrArg Except.ok (Except.ok.inj h)
      · intro h
        exact congrArg Except.ok (Except.ok.inj h)

/-- The first value is `b`, when no other value is found. -/
theorem findSome?_of_only {l : List α} {f : α → Option β} {b : β}
    (honly : ∀ a ∈ l, ∀ b', f a = some b' → b' = b) {a : α} (ha : a ∈ l) (hfa : f a = some b) :
    l.findSome? f = some b := by
  cases hfind : l.findSome? f with
  | none =>
      have hnone := List.findSome?_eq_none_iff.1 hfind a ha
      exact absurd (hnone.symm.trans hfa) (by simp)
  | some b' =>
      obtain ⟨a', ha', hfa'⟩ := List.exists_of_findSome?_eq_some hfind
      rw [honly a' ha' b' hfa']

end Lists

section Ideal

variable {Scalar Point Key Public : Type} {x : Primitives Scalar Point}
  {y : ContentCrates Key Public} {Sealed : Bytes → Bytes → Bytes → Bytes → Prop}

/-! ## Texts -/

theorem textOf_encode (label text : String) : textOf y label (Utf8.encode text) = .ok text := by
  rw [textOf, Utf8.fromUtf8_encode]
  exact congrArg Except.ok String.ofList_toList

theorem decoded_eq_ok {label text : String} {bytes : Bytes} :
    decoded y label text = .ok bytes ↔ y.base64Decode text = .ok bytes := mapError_eq_ok

/-- The nonce of an envelope, when there is one. -/
theorem envelopeNonce_some (h : IdealContent x y Sealed) {nonceB64 : String} {nonce : Bytes}
    (hnonce : y.base64Decode nonceB64 = .ok nonce) :
    envelopeNonce y (some nonceB64) = .ok nonce := by
  rw [envelopeNonce]
  split
  next => exact decoded_eq_ok.2 hnonce
  next hempty =>
    rw [not_not] at hempty
    rw [hempty, h.decode_nil] at hnonce
    exact congrArg Except.ok (Except.ok.inj hnonce)

/-! ## Own envelopes -/

variable (x y) in
/-- A key that is tried for the identity key `k`, with one of the versions. -/
def EnvelopeKey (k : String) (versions : List String) (key : Bytes) : Prop :=
  ∃ version ∈ versions, key = deriveEnvelopeKey y (Utf8.encode k) (Utf8.encode version) ∨
    deriveLegacyEnvelopeKey x (Utf8.encode k) (Utf8.encode version) = .ok key

section Versions

variable {ct nonce msg key : Bytes} {k text : String} {versions : List String}

theorem legacy_ok (h : IdealContent x y Sealed) (k version : Bytes) :
    ∃ legacy, deriveLegacyEnvelopeKey x k version = .ok legacy := by
  obtain ⟨okm, hokm⟩ := h.expands (lengthBytes k ++ k ++ lengthBytes version ++ version)
    (Utf8.encode "aster-envelope-kdf-v1") (Utf8.encode "aes-256-gcm-key")
  exact ⟨okm, mapError_eq_ok.2 hokm⟩

/-- What the loop opens was sealed under a key that it tries. -/
theorem sealed_of_tryVersions (h : IdealContent x y Sealed)
    (hopen : tryVersions x y ct nonce k versions = .ok text) :
    ∃ key msg, EnvelopeKey x y k versions key ∧ Sealed key nonce msg ct ∧
      textOf y "utf8 decode: " msg = .ok text := by
  induction versions with
  | nil => exact nomatch hopen
  | cons version versions ih =>
      obtain ⟨legacy, hlegacy⟩ := legacy_ok h (Utf8.encode k) (Utf8.encode version)
      rw [tryVersions, bind_of_ok hlegacy] at hopen
      split at hopen
      next plaintext hsome =>
        rcases Option.or_eq_some_iff.1 hsome with hkey | ⟨_, hkey⟩
        · exact ⟨_, plaintext, ⟨version, List.mem_cons_self, Or.inl rfl⟩, h.decrypt_iff.1 hkey,
            hopen⟩
        · exact ⟨_, plaintext, ⟨version, List.mem_cons_self, Or.inr hlegacy⟩, h.decrypt_iff.1 hkey,
            hopen⟩
      next =>
        obtain ⟨key, msg, ⟨v, hv, hkey⟩, hsealed, htext⟩ := ih hopen
        exact ⟨key, msg, ⟨v, List.mem_cons_of_mem _ hv, hkey⟩, hsealed, htext⟩

/-- The loop opens what was sealed under a key that it tries. -/
theorem tryVersions_of_sealed (h : IdealContent x y Sealed)
    (hkey : EnvelopeKey x y k versions key) (hsealed : Sealed key nonce msg ct)
    (htext : textOf y "utf8 decode: " msg = .ok text) :
    tryVersions x y ct nonce k versions = .ok text := by
  induction versions with
  | nil =>
      obtain ⟨_, hmem, _⟩ := hkey
      exact absurd hmem List.not_mem_nil
  | cons version versions ih =>
      obtain ⟨legacy, hlegacy⟩ := legacy_ok h (Utf8.encode k) (Utf8.encode version)
      rw [tryVersions, bind_of_ok hlegacy]
      split
      next plaintext hsome =>
        -- another key opens the text as well only when it is the same key
        have hother : ∃ key', Sealed key' nonce plaintext ct := by
          rcases Option.or_eq_some_iff.1 hsome with hfirst | ⟨_, hsecond⟩
          · exact ⟨_, h.decrypt_iff.1 hfirst⟩
          · exact ⟨_, h.decrypt_iff.1 hsecond⟩
        obtain ⟨key', hother⟩ := hother
        rw [(h.only hsealed hother List.suffix_rfl).2.2.1, htext]
      next hnone =>
        obtain ⟨hfirst, hsecond⟩ := Option.or_eq_none_iff.1 hnone
        have hopens := h.decrypt_iff.2 hsealed
        obtain ⟨v, hv, hderived⟩ := hkey
        rcases List.mem_cons.1 hv with rfl | hv
        · rcases hderived with rfl | hderived
          · exact absurd (hfirst.symm.trans hopens) (by simp)
          · obtain rfl := Except.ok.inj (hlegacy.symm.trans hderived)
            exact absurd (hsecond.symm.trans hopens) (by simp)
        · exact ih ⟨v, hv, hderived⟩

end Versions

section Own

variable {ct nonce msg key : Bytes} {k text dataB64 : String} {keys : List String}

theorem sealed_of_identityKey (h : IdealContent x y Sealed)
    (hdata : y.base64Decode dataB64 = .ok ct)
    (hopen : decryptIdentityKeyEnvelope x y dataB64 nonce k = .ok text) :
    ∃ key msg, EnvelopeKey x y k envelopeVersions key ∧ Sealed key nonce msg ct ∧
      textOf y "utf8 decode: " msg = .ok text := by
  rw [decryptIdentityKeyEnvelope, bind_of_ok (decoded_eq_ok.2 hdata)] at hopen
  split at hopen
  next => exact nomatch hopen
  next => exact sealed_of_tryVersions h hopen

/-- An own envelope opens with a list of keys that has its own. -/
theorem openedOwn_of_sealed (h : IdealContent x y Sealed)
    (hdata : y.base64Decode dataB64 = .ok ct) (hlength : nonce.length = 12)
    (hkey : EnvelopeKey x y k envelopeVersions key) (hsealed : Sealed key nonce msg ct)
    (htext : textOf y "utf8 decode: " msg = .ok text) (hmem : k ∈ keys) :
    openedOwn x y dataB64 nonce keys = some text := by
  refine findSome?_of_only ?_ hmem ?_
  · intro other _ text' hother
    obtain ⟨key', msg', _, hsealed', htext'⟩ :=
      sealed_of_identityKey h hdata (toOption_eq_some.1 hother)
    rw [(h.only hsealed hsealed' List.suffix_rfl).2.2.1, htext] at htext'
    exact (Except.ok.inj htext').symm
  · rw [toOption_eq_some, decryptIdentityKeyEnvelope, bind_of_ok (decoded_eq_ok.2 hdata),
      if_neg (not_not.2 hlength)]
    exact tryVersions_of_sealed h hkey hsealed htext

/-- What a passphrase opens is sealed behind the salt and the nonce. -/
theorem sealed_of_pbkdf2 (h : IdealContent x y Sealed) {data passphrase : Bytes}
    (hdata : y.base64Decode dataB64 = .ok data)
    (hopen : decryptPbkdf2Envelope x y dataB64 passphrase = .ok text) :
    44 ≤ data.length ∧ ∃ key nonce msg, Sealed key nonce msg (data.drop 28) := by
  rw [decryptPbkdf2Envelope, bind_of_ok (decoded_eq_ok.2 hdata)] at hopen
  split at hopen
  next => exact nomatch hopen
  next hlong =>
    dsimp only at hopen
    split at hopen
    next plaintext hsome => exact ⟨by omega, _, _, _, h.decrypt_iff.1 hsome⟩
    next => exact nomatch hopen

/-- A text that was sealed as a whole has no sealed end. -/
theorem not_sealed_drop (h : IdealContent x y Sealed) (hsealed : Sealed key nonce msg ct) {n : Nat}
    (hn : 0 < n) (key' nonce' msg' : Bytes) : ¬ Sealed key' nonce' msg' (ct.drop n) := by
  intro hdrop
  have heq := (h.only hsealed hdrop (List.drop_suffix n ct)).2.2.2
  have hlength := congrArg List.length heq
  have htag := h.tag hsealed
  rw [List.length_drop] at hlength
  omega

end Own

/-! ## Inbound envelopes -/

section Inbound

variable {nonce z key : Bytes} {text : String}

theorem decryptAndInflate_eq_some (h : IdealContent x y Sealed) {ct : Bytes} :
    decryptAndInflate x y key nonce ct = some text ↔ ∃ z bytes, Sealed key nonce z ct ∧
      y.decompress z (64 * 1024 * 1024) = some bytes ∧ textOf y "" bytes = .ok text := by
  unfold decryptAndInflate textOf
  constructor
  · intro hopen
    obtain ⟨z, hz, hopen⟩ := Option.bind_eq_some_iff.1 hopen
    obtain ⟨bytes, hbytes, hopen⟩ := Option.bind_eq_some_iff.1 hopen
    obtain ⟨cs, hcs, hopen⟩ := Option.bind_eq_some_iff.1 hopen
    refine ⟨z, bytes, h.decrypt_iff.1 hz, hbytes, ?_⟩
    rw [hcs]
    exact congrArg Except.ok (Option.some.inj hopen)
  · rintro ⟨z, bytes, hz, hbytes, htext⟩
    split at htext
    next cs hcs =>
      rw [h.decrypt_iff.2 hz, Option.bind_eq_bind, Option.bind_some, hbytes, Option.bind_eq_bind,
        Option.bind_some, hcs]
      exact congrArg some (Except.ok.inj htext)
    next => exact nomatch htext

variable (x) in
/-- The key that a candidate derives for an envelope without a lattice part. -/
def EcdhKey (c : InboundKeyCandidate) (point key : Bytes) : Prop :=
  ∃ shared, ecdhP256 x c.ecdhSecretD point = .ok shared ∧
    hkdfAesKey x shared (Utf8.encode "aster-inbound-v1") = .ok key

variable (x) in
/-- The key that a candidate derives for a hybrid envelope. -/
def HybridKey (c : InboundKeyCandidate) (point kemCiphertext key : Bytes) : Prop :=
  ∃ pqKey shared kemSs, c.pqDecapKey = some pqKey ∧
    ecdhP256 x c.ecdhSecretD point = .ok shared ∧ x.decapsulate kemCiphertext pqKey = .ok kemSs ∧
    hkdfAesKey x (shared ++ kemSs.take 32) (Utf8.encode "aster-inbound-pq-v1") = .ok key

theorem tryEcdhCandidate_eq_some {point ct : Bytes} {c : InboundKeyCandidate} :
    tryEcdhCandidate x y point nonce ct c = some text ↔
      ∃ key, EcdhKey x c point key ∧ decryptAndInflate x y key nonce ct = some text := by
  unfold tryEcdhCandidate
  constructor
  · intro hopen
    obtain ⟨shared, hshared, hopen⟩ := Option.bind_eq_some_iff.1 hopen
    obtain ⟨key, hkey, hopen⟩ := Option.bind_eq_some_iff.1 hopen
    exact ⟨key, ⟨shared, toOption_eq_some.1 hshared, toOption_eq_some.1 hkey⟩, hopen⟩
  · rintro ⟨key, ⟨shared, hshared, hkey⟩, hopen⟩
    exact Option.bind_eq_some_iff.2 ⟨shared, toOption_eq_some.2 hshared,
      Option.bind_eq_some_iff.2 ⟨key, toOption_eq_some.2 hkey, hopen⟩⟩

theorem tryPqCandidate_eq_some {point kemCiphertext ct : Bytes} {c : InboundKeyCandidate} :
    tryPqCandidate x y point kemCiphertext nonce ct c = some text ↔
      ∃ key, HybridKey x c point kemCiphertext key ∧
        decryptAndInflate x y key nonce ct = some text := by
  unfold tryPqCandidate
  constructor
  · intro hopen
    obtain ⟨pqKey, hpq, hopen⟩ := Option.bind_eq_some_iff.1 hopen
    obtain ⟨shared, hshared, hopen⟩ := Option.bind_eq_some_iff.1 hopen
    obtain ⟨kemSs, hkem, hopen⟩ := Option.bind_eq_some_iff.1 hopen
    obtain ⟨key, hkey, hopen⟩ := Option.bind_eq_some_iff.1 hopen
    exact ⟨key, ⟨pqKey, shared, kemSs, hpq, toOption_eq_some.1 hshared, toOption_eq_some.1 hkem,
      toOption_eq_some.1 hkey⟩, hopen⟩
  · rintro ⟨key, ⟨pqKey, shared, kemSs, hpq, hshared, hkem, hkey⟩, hopen⟩
    exact Option.bind_eq_some_iff.2 ⟨pqKey, hpq,
      Option.bind_eq_some_iff.2 ⟨shared, toOption_eq_some.2 hshared,
        Option.bind_eq_some_iff.2 ⟨kemSs, toOption_eq_some.2 hkem,
          Option.bind_eq_some_iff.2 ⟨key, toOption_eq_some.2 hkey, hopen⟩⟩⟩⟩

/-- What is opened as inbound is sealed behind a header. -/
theorem sealed_of_inbound (h : IdealContent x y Sealed) {payload : Bytes}
    {candidates : List InboundKeyCandidate}
    (hopen : decryptInboundEnvelope x y payload nonce candidates = .ok text) :
    ∃ n key nonce z, 0 < n ∧ Sealed key nonce z (payload.drop n) := by
  unfold decryptInboundEnvelope at hopen
  split at hopen
  next => exact nomatch hopen
  split at hopen
  next => exact nomatch hopen
  split at hopen
  next =>
    split at hopen
    next => exact nomatch hopen
    next =>
      dsimp only at hopen
      split at hopen
      next s hfind =>
        obtain ⟨c, _, hc⟩ := List.exists_of_findSome?_eq_some hfind
        obtain ⟨key, _, hc⟩ := tryEcdhCandidate_eq_some.1 hc
        obtain ⟨z, _, hsealed, _⟩ := (decryptAndInflate_eq_some h).1 hc
        exact ⟨66, key, nonce, z, by decide, hsealed⟩
      next => exact nomatch hopen
  next =>
    split at hopen
    next =>
      split at hopen
      next => exact nomatch hopen
      next =>
        dsimp only at hopen
        split at hopen
        next s hfind =>
          obtain ⟨c, _, hc⟩ := List.exists_of_findSome?_eq_some hfind
          obtain ⟨key, _, hc⟩ := tryPqCandidate_eq_some.1 hc
          obtain ⟨z, _, hsealed, _⟩ := (decryptAndInflate_eq_some h).1 hc
          exact ⟨1154, key, nonce, z, by decide, hsealed⟩
        next => exact nomatch hopen
    next => exact nomatch hopen

/-- An own envelope is not taken for an inbound one, whatever its first byte is. -/
theorem openedInbound_of_sealed (h : IdealContent x y Sealed) {ct msg : Bytes} {dataB64 : String}
    (hdata : y.base64Decode dataB64 = .ok ct) (hsealed : Sealed key nonce msg ct)
    (nonce' : Bytes) (inboundKeys : List InboundKeyCandidate) :
    openedInbound x y dataB64 nonce' inboundKeys = none := by
  rw [openedInbound, hdata]
  split
  next =>
    dsimp only
    split
    next =>
      refine Option.eq_none_iff_forall_ne_some.2 fun text hopen => ?_
      obtain ⟨n, key', nonce', z, hn, hz⟩ := sealed_of_inbound h (toOption_eq_some.1 hopen)
      exact not_sealed_drop h hsealed hn key' nonce' z hz
    next => rfl
  next => rfl

end Inbound

/-! ## Mail -/

/-- What an account needs to open an envelope. -/
inductive Holder where
  | identity (key : String)
  | passphrase (passphrase : Bytes)
  | inbound (candidate : InboundKeyCandidate)

/-- The origin of an envelope. -/
def Holder.origin : Holder → EnvelopeOrigin
  | .inbound _ => .inbound
  | _ => .selfAuthored

/-- The account has it. -/
def Holder.Held (passphrase : Bytes) (identityKey : Option String) (previousKeys : List String)
    (inboundKeys : List InboundKeyCandidate) : Holder → Prop
  | .identity key => key ∈ identityKey.toList ++ previousKeys
  | .passphrase p => p = passphrase
  | .inbound candidate => candidate ∈ inboundKeys

variable (x y Sealed) in
/-- The forms of sealed mail: who can open it, its plaintext, its data and its nonce. -/
inductive SealedMail : Holder → String → Bytes → Bytes → Prop where
  | identity {k plaintext : String} {key nonce ct : Bytes}
      (hkey : EnvelopeKey x y k envelopeVersions key) (hlength : nonce.length = 12)
      (hsealed : Sealed key nonce (Utf8.encode plaintext) ct) :
      SealedMail (.identity k) plaintext ct nonce
  | pbkdf2 {plaintext : String} {passphrase salt nonce ct : Bytes} (hsalt : salt.length = 16)
      (hlength : nonce.length = 12)
      (hsealed : Sealed (y.pbkdf2 passphrase salt 310000) nonce (Utf8.encode plaintext) ct) :
      SealedMail (.passphrase passphrase) plaintext (salt ++ (nonce ++ ct)) [0x01]
  | ecdh {c : InboundKeyCandidate} {plaintext : String} {point key nonce z ct : Bytes}
      (hpoint : point.length = 65) (hkey : EcdhKey x c point key) (hlength : nonce.length = 12)
      (hsealed : Sealed key nonce z ct)
      (hz : y.decompress z (64 * 1024 * 1024) = some (Utf8.encode plaintext)) :
      SealedMail (.inbound c) plaintext (inboundEcdhMarker :: (point ++ ct)) nonce
  | hybrid {c : InboundKeyCandidate} {plaintext : String} {point kem key nonce z ct : Bytes}
      (hpoint : point.length = 65) (hkem : kem.length = 1088) (hkey : HybridKey x c point kem key)
      (hlength : nonce.length = 12) (hsealed : Sealed key nonce z ct)
      (hz : y.decompress z (64 * 1024 * 1024) = some (Utf8.encode plaintext)) :
      SealedMail (.inbound c) plaintext (inboundPqHybridMarker :: (point ++ (kem ++ ct))) nonce

section Mail

variable {plaintext dataB64 nonceB64 : String} {data nonce passphrase : Bytes}
  {identityKey : Option String} {previousKeys : List String}
  {inboundKeys : List InboundKeyCandidate}

/-- A nonce of twelve bytes leads to the inbound keys first and to the own keys after them. -/
theorem decryptEnvelope_of_length (h : IdealContent x y Sealed)
    (hnonce : y.base64Decode nonceB64 = .ok nonce) (hlength : nonce.length = 12) :
    decryptEnvelopeNotingOrigin x y dataB64 (some nonceB64) passphrase identityKey previousKeys
        inboundKeys =
      match openedInbound x y dataB64 nonce inboundKeys with
      | some text => .ok (text, .inbound)
      | none =>
          match openedOwn x y dataB64 nonce (identityKey.toList ++ previousKeys) with
          | some text => .ok (text, .selfAuthored)
          | none => (decryptPbkdf2Envelope x y dataB64 passphrase).map fun text =>
              (text, .selfAuthored) := by
  have hne : nonce ≠ [] := by
    rintro rfl
    exact absurd hlength (by decide)
  have hmarker : nonce ≠ [0x01] := by
    rintro rfl
    exact absurd hlength (by decide)
  unfold decryptEnvelopeNotingOrigin
  refine (bind_of_ok (envelopeNonce_some h hnonce)).trans ?_
  exact (if_neg hne).trans (if_neg hmarker)

theorem candidates_ne_nil {c : InboundKeyCandidate} (hmem : c ∈ inboundKeys) :
    inboundKeys.isEmpty = false := by
  cases inboundKeys with
  | nil => exact absurd hmem List.not_mem_nil
  | cons c cs => rfl

theorem openedInbound_ecdh (h : IdealContent x y Sealed) {c : InboundKeyCandidate}
    {point key z ct : Bytes} (hpoint : point.length = 65) (hkey : EcdhKey x c point key)
    (hlength : nonce.length = 12) (hsealed : Sealed key nonce z ct)
    (hz : y.decompress z (64 * 1024 * 1024) = some (Utf8.encode plaintext))
    (hdata : y.base64Decode dataB64 = .ok (inboundEcdhMarker :: (point ++ ct)))
    (hmem : c ∈ inboundKeys) :
    openedInbound x y dataB64 nonce inboundKeys = some plaintext := by
  have htag := h.tag hsealed
  have hlong : ¬ (inboundEcdhMarker :: (point ++ ct)).length < 1 + 65 + 16 := by
    rw [List.length_cons, List.length_append]
    omega
  have htake : ((inboundEcdhMarker :: (point ++ ct)).drop 1).take 65 = point := by
    rw [List.drop_succ_cons, List.drop_zero, ← hpoint, List.take_left]
  have hdrop : (inboundEcdhMarker :: (point ++ ct)).drop 66 = ct := by
    rw [List.drop_succ_cons, ← hpoint, List.drop_left]
  have hfind : inboundKeys.findSome? (tryEcdhCandidate x y point nonce ct) = some plaintext := by
    refine findSome?_of_only ?_ hmem ?_
    · intro other _ text hother
      obtain ⟨key', _, hopen⟩ := tryEcdhCandidate_eq_some.1 hother
      obtain ⟨z', bytes, hsealed', hz', htext⟩ := (decryptAndInflate_eq_some h).1 hopen
      rw [(h.only hsealed hsealed' List.suffix_rfl).2.2.1, hz] at hz'
      rw [← Option.some.inj hz', textOf_encode] at htext
      exact (Except.ok.inj htext).symm
    · exact tryEcdhCandidate_eq_some.2 ⟨key, hkey, (decryptAndInflate_eq_some h).2
        ⟨z, _, hsealed, hz, textOf_encode "" plaintext⟩⟩
  have hhead : (inboundEcdhMarker :: (point ++ ct)).head? = some inboundEcdhMarker := rfl
  rw [openedInbound, hdata, if_pos ⟨hlength, candidates_ne_nil hmem⟩]
  dsimp only
  rw [if_pos (Or.inl hhead), toOption_eq_some, decryptInboundEnvelope,
    if_neg (not_not.2 hlength), candidates_ne_nil hmem, if_neg Bool.false_ne_true, if_pos hhead,
    if_neg hlong]
  dsimp only
  rw [htake, hdrop, hfind]

theorem openedInbound_hybrid (h : IdealContent x y Sealed) {c : InboundKeyCandidate}
    {point kem key z ct : Bytes} (hpoint : point.length = 65) (hkem : kem.length = 1088)
    (hkey : HybridKey x c point kem key) (hlength : nonce.length = 12)
    (hsealed : Sealed key nonce z ct)
    (hz : y.decompress z (64 * 1024 * 1024) = some (Utf8.encode plaintext))
    (hdata : y.base64Decode dataB64 = .ok (inboundPqHybridMarker :: (point ++ (kem ++ ct))))
    (hmem : c ∈ inboundKeys) :
    openedInbound x y dataB64 nonce inboundKeys = some plaintext := by
  have htag := h.tag hsealed
  have hlong : ¬ (inboundPqHybridMarker :: (point ++ (kem ++ ct))).length < 1 + 65 + 1088 + 16 := by
    rw [List.length_cons, List.length_append, List.length_append]
    omega
  have htake : ((inboundPqHybridMarker :: (point ++ (kem ++ ct))).drop 1).take 65 = point := by
    rw [List.drop_succ_cons, List.drop_zero, ← hpoint, List.take_left]
  have hbehind : (inboundPqHybridMarker :: (point ++ (kem ++ ct))).drop 66 = kem ++ ct := by
    rw [List.drop_succ_cons, ← hpoint, List.drop_left]
  have hkemTake : (kem ++ ct).take 1088 = kem := by
    rw [← hkem, List.take_left]
  have hdrop : (inboundPqHybridMarker :: (point ++ (kem ++ ct))).drop 1154 = ct := by
    rw [show 1154 = 66 + 1088 from rfl, ← List.drop_drop, hbehind, ← hkem, List.drop_left]
  have hfind : inboundKeys.findSome? (tryPqCandidate x y point kem nonce ct) = some plaintext := by
    refine findSome?_of_only ?_ hmem ?_
    · intro other _ text hother
      obtain ⟨key', _, hopen⟩ := tryPqCandidate_eq_some.1 hother
      obtain ⟨z', bytes, hsealed', hz', htext⟩ := (decryptAndInflate_eq_some h).1 hopen
      rw [(h.only hsealed hsealed' List.suffix_rfl).2.2.1, hz] at hz'
      rw [← Option.some.inj hz', textOf_encode] at htext
      exact (Except.ok.inj htext).symm
    · exact tryPqCandidate_eq_some.2 ⟨key, hkey, (decryptAndInflate_eq_some h).2
        ⟨z, _, hsealed, hz, textOf_encode "" plaintext⟩⟩
  have hhead : (inboundPqHybridMarker :: (point ++ (kem ++ ct))).head? =
      some inboundPqHybridMarker := rfl
  have hother : ¬ (inboundPqHybridMarker :: (point ++ (kem ++ ct))).head? =
      some inboundEcdhMarker := by
    rw [hhead]
    decide
  rw [openedInbound, hdata, if_pos ⟨hlength, candidates_ne_nil hmem⟩]
  dsimp only
  rw [if_pos (Or.inr hhead), toOption_eq_some, decryptInboundEnvelope,
    if_neg (not_not.2 hlength), candidates_ne_nil hmem, if_neg Bool.false_ne_true, if_neg hother,
    if_pos hhead, if_neg hlong]
  dsimp only
  rw [htake, hbehind, hkemTake, hdrop, hfind]

/-- Sealed mail opens for each account that has what opens it. -/
theorem sealedMail_opens (h : IdealContent x y Sealed) {holder : Holder}
    (hmail : SealedMail x y Sealed holder plaintext data nonce)
    (hdata : y.base64Decode dataB64 = .ok data) (hnonce : y.base64Decode nonceB64 = .ok nonce)
    (hheld : holder.Held passphrase identityKey previousKeys inboundKeys) :
    decryptEnvelopeNotingOrigin x y dataB64 (some nonceB64) passphrase identityKey previousKeys
      inboundKeys = .ok (plaintext, holder.origin) := by
  cases hmail with
  | identity hkey hlength hsealed =>
      rw [decryptEnvelope_of_length h hnonce hlength, openedInbound_of_sealed h hdata hsealed,
        openedOwn_of_sealed h hdata hlength hkey hsealed (textOf_encode _ _) hheld]
      rfl
  | @pbkdf2 _ p salt inner ct hsalt hlength hsealed =>
      have htag := h.tag hsealed
      have hlong : ¬ (salt ++ (inner ++ ct)).length < 16 + 12 + 16 := by
        rw [List.length_append, List.length_append]
        omega
      have hsaltTake : (salt ++ (inner ++ ct)).take 16 = salt := by
        rw [← hsalt, List.take_left]
      have hbehind : (salt ++ (inner ++ ct)).drop 16 = inner ++ ct := by
        rw [← hsalt, List.drop_left]
      have hinner : (inner ++ ct).take 12 = inner := by
        rw [← hlength, List.take_left]
      have hdrop : (salt ++ (inner ++ ct)).drop 28 = ct := by
        rw [show 28 = 16 + 12 from rfl, ← List.drop_drop, hbehind, ← hlength, List.drop_left]
      obtain rfl : p = passphrase := hheld
      rw [decryptEnvelopeNotingOrigin, bind_of_ok (envelopeNonce_some h hnonce),
        if_neg (List.cons_ne_nil _ _), if_pos rfl, decryptPbkdf2Envelope,
        bind_of_ok (decoded_eq_ok.2 hdata), if_neg hlong]
      dsimp only
      rw [hsaltTake, hbehind, hinner, hdrop, h.decrypt_iff.2 hsealed]
      dsimp only
      rw [textOf_encode]
      rfl
  | ecdh hpoint hkey hlength hsealed hz =>
      rw [decryptEnvelope_of_length h hnonce hlength,
        openedInbound_ecdh h hpoint hkey hlength hsealed hz hdata hheld]
      rfl
  | hybrid hpoint hkem hkey hlength hsealed hz =>
      rw [decryptEnvelope_of_length h hnonce hlength,
        openedInbound_hybrid h hpoint hkem hkey hlength hsealed hz hdata hheld]
      rfl

end Mail

/-! ## A previous key that becomes the current one -/

section Pgp

variable {armored plain passphrase : Bytes} {ik q : String} {previousKeys : List String} {key : Key}
  {keys : List Key} {origin : EnvelopeOrigin}

theorem mem_ownPgpKeys (hq : q ∈ ik :: previousKeys) (himport : y.importSecretKey q = some key) :
    ∃ keys, ownPgpKeys y (some ik) previousKeys = .ok keys ∧ key ∈ keys := by
  have hmem : key ∈ (ik :: previousKeys).filterMap y.importSecretKey :=
    List.mem_filterMap.2 ⟨q, hq, himport⟩
  refine ⟨_, ?_, hmem⟩
  rw [ownPgpKeys]
  split
  next hnil => exact absurd (hnil ▸ hmem) List.not_mem_nil
  next => rfl

theorem of_mem_ownPgpKeys {identityKey : Option String}
    (hkeys : ownPgpKeys y identityKey previousKeys = .ok keys) (hmem : key ∈ keys) :
    ∃ ik, identityKey = some ik ∧ ∃ q ∈ ik :: previousKeys, y.importSecretKey q = some key := by
  cases identityKey with
  | none => exact nomatch hkeys
  | some ik =>
      rw [ownPgpKeys] at hkeys
      split at hkeys
      next => exact nomatch hkeys
      next =>
        obtain rfl := Except.ok.inj hkeys
        exact ⟨ik, rfl, List.mem_filterMap.1 hmem⟩

theorem content_of_openOwnPgp (h : IdealContent x y Sealed) {identityKey : Option String}
    (hopen : openOwnPgp y armored identityKey previousKeys passphrase = .ok (plain, origin)) :
    ∃ keys, ownPgpKeys y identityKey previousKeys = .ok keys ∧
      ∃ c ∈ pgpPassphrases passphrase, y.decryptMessage armored keys c = some plain := by
  obtain ⟨keys, hkeys, hopen⟩ := of_bind_ok hopen
  refine ⟨keys, hkeys, ?_⟩
  dsimp only at hopen
  split at hopen
  next m hfind =>
    obtain ⟨c, hc, hverified⟩ := List.exists_of_findSome?_eq_some hfind
    obtain ⟨rfl, -⟩ := Prod.mk.inj (Except.ok.inj hopen)
    exact ⟨c, hc, h.verified hverified⟩
  next =>
    rw [decryptOwnPgp, bind_of_ok hkeys] at hopen
    split at hopen
    next m hfind =>
      obtain ⟨c, hc, hplain⟩ := List.exists_of_findSome?_eq_some hfind
      obtain ⟨rfl, -⟩ := Prod.mk.inj (Except.ok.inj hopen)
      exact ⟨c, hc, hplain⟩
    next => exact nomatch hopen

theorem openOwnPgp_of_content (h : IdealContent x y Sealed) {identityKey : Option String}
    {c : String} (hkeys : ownPgpKeys y identityKey previousKeys = .ok keys)
    (hc : c ∈ pgpPassphrases passphrase) (hplain : y.decryptMessage armored keys c = some plain) :
    ∃ origin, openOwnPgp y armored identityKey previousKeys passphrase = .ok (plain, origin) := by
  rw [openOwnPgp, bind_of_ok hkeys]
  dsimp only
  split
  next m hfind =>
    obtain ⟨_, _, hverified⟩ := List.exists_of_findSome?_eq_some hfind
    rw [h.one_content hplain (h.verified hverified)]
    exact ⟨_, rfl⟩
  next =>
    have hfind : (pgpPassphrases passphrase).findSome? (y.decryptMessage armored keys) =
        some plain :=
      findSome?_of_only (fun _ _ m hm => h.one_content hplain hm) hc hplain
    rw [decryptOwnPgp, bind_of_ok hkeys, hfind]
    exact ⟨_, rfl⟩

/-- A message opens with each set of keys that has the one that opened it. -/
theorem openOwnPgp_as_current (h : IdealContent x y Sealed) {identityKey : Option String}
    {before after : List String} {k : String}
    (hopen : openOwnPgp y armored identityKey (before ++ k :: after) passphrase =
      .ok (plain, origin))
    (hneeds : ∀ origin',
      openOwnPgp y armored identityKey (before ++ after) passphrase ≠ .ok (plain, origin'))
    (previous : List String) :
    ∃ origin', openOwnPgp y armored (some k) previous passphrase = .ok (plain, origin') := by
  obtain ⟨keys, hkeys, c, hc, hplain⟩ := content_of_openOwnPgp h hopen
  obtain ⟨key, hmem, hsingle⟩ := h.opens_some hplain
  obtain ⟨ik, rfl, q, hq, himport⟩ := of_mem_ownPgpKeys hkeys hmem
  have hwith : ∀ ik' previous', q ∈ ik' :: previous' →
      ∃ origin', openOwnPgp y armored (some ik') previous' passphrase = .ok (plain, origin') := by
    intro ik' previous' hq'
    obtain ⟨keys', hkeys', hmem'⟩ := mem_ownPgpKeys hq' himport
    obtain ⟨plain', hplain'⟩ := Option.isSome_iff_exists.1 (h.opens_of_mem hmem' hsingle)
    obtain rfl := h.one_content hplain hplain'
    exact openOwnPgp_of_content h hkeys' hc hplain'
  by_cases hothers : q ∈ ik :: (before ++ after)
  case pos =>
    obtain ⟨origin', hsame⟩ := hwith ik (before ++ after) hothers
    exact absurd hsame (hneeds origin')
  case neg =>
    have hqk : q = k := by
      simp only [List.mem_cons, List.mem_append, not_or] at hq hothers
      tauto
    exact hwith k previous (hqk ▸ List.mem_cons_self)

end Pgp

section Rotation

variable {dataB64 : String} {nonceB64 : Option String} {passphrase : Bytes}
  {identityKey : Option String} {before after : List String} {k plaintext : String}
  {inboundKeys : List InboundKeyCandidate} {origin : EnvelopeOrigin}

theorem decryptPgpEnvelope_as_current (h : IdealContent x y Sealed)
    (hopen : decryptPgpEnvelope y dataB64 identityKey (before ++ k :: after) passphrase =
      .ok (plaintext, origin))
    (hneeds : ∀ origin', decryptPgpEnvelope y dataB64 identityKey (before ++ after) passphrase ≠
      .ok (plaintext, origin'))
    (previous : List String) :
    ∃ origin', decryptPgpEnvelope y dataB64 (some k) previous passphrase =
      .ok (plaintext, origin') := by
  obtain ⟨data, hdata, hopen⟩ := of_bind_ok hopen
  split at hopen
  next harmored =>
    obtain ⟨⟨plain, origin'⟩, hplain, hopen⟩ := of_bind_ok hopen
    obtain ⟨text, htext, hopen⟩ := of_bind_ok hopen
    obtain ⟨rfl, -⟩ := Prod.mk.inj (Except.ok.inj hopen)
    have hread : ∀ identityKey' previous' origin',
        openOwnPgp y data identityKey' previous' passphrase = .ok (plain, origin') →
          decryptPgpEnvelope y dataB64 identityKey' previous' passphrase =
            .ok (text, origin') := by
      intro identityKey' previous' origin' hplain'
      rw [decryptPgpEnvelope, bind_of_ok hdata, if_pos harmored, bind_of_ok hplain',
        bind_of_ok htext]
      rfl
    obtain ⟨origin'', hcurrent⟩ := openOwnPgp_as_current h hplain
      (fun origin'' hothers => hneeds origin'' (hread _ _ _ hothers)) previous
    exact ⟨origin'', hread _ _ _ hcurrent⟩
  next => exact nomatch hopen

/-- **An envelope that a previous key opens, opens with that key as the current one.** -/
theorem decryptEnvelope_as_current (h : IdealContent x y Sealed)
    (hopen : decryptEnvelopeNotingOrigin x y dataB64 nonceB64 passphrase identityKey
      (before ++ k :: after) inboundKeys = .ok (plaintext, origin))
    (hneeds : ∀ origin', decryptEnvelopeNotingOrigin x y dataB64 nonceB64 passphrase identityKey
      (before ++ after) inboundKeys ≠ .ok (plaintext, origin'))
    (previous : List String) :
    ∃ origin', decryptEnvelopeNotingOrigin x y dataB64 nonceB64 passphrase (some k) previous
      inboundKeys = .ok (plaintext, origin') := by
  obtain ⟨nonce, hnonce, hopen⟩ := of_bind_ok hopen
  simp only [decryptEnvelopeNotingOrigin, bind_of_ok hnonce] at hneeds ⊢
  by_cases hpgp : nonce = []
  case pos =>
    simp only [if_pos hpgp] at hopen hneeds ⊢
    exact decryptPgpEnvelope_as_current h hopen hneeds previous
  case neg =>
    simp only [if_neg hpgp] at hopen hneeds ⊢
    by_cases hmarker : nonce = [0x01]
    case pos =>
      -- the passphrase opens it without the key
      simp only [if_pos hmarker] at hopen hneeds ⊢
      exact absurd hopen (hneeds origin)
    case neg =>
      simp only [if_neg hmarker] at hopen hneeds ⊢
      cases hinbound : openedInbound x y dataB64 nonce inboundKeys with
      | some text =>
          simp only [hinbound] at hopen hneeds
          exact absurd hopen (hneeds origin)
      | none =>
          simp only [hinbound] at hopen hneeds ⊢
          rw [← List.append_assoc] at hopen hneeds
          unfold openedOwn at hopen hneeds ⊢
          rw [List.findSome?_append, List.findSome?_cons] at hopen
          rw [List.findSome?_append] at hneeds
          rw [Option.toList_some, List.singleton_append, List.findSome?_cons]
          cases hfirst : (identityKey.toList ++ before).findSome? fun ik =>
              (decryptIdentityKeyEnvelope x y dataB64 nonce ik).toOption with
          | some text =>
              simp only [hfirst, Option.some_or] at hopen hneeds
              exact absurd hopen (hneeds origin)
          | none =>
              simp only [hfirst, Option.none_or] at hopen hneeds
              cases hk : (decryptIdentityKeyEnvelope x y dataB64 nonce k).toOption with
              | some text =>
                  simp only [hk] at hopen ⊢
                  obtain ⟨rfl, -⟩ := Prod.mk.inj (Except.ok.inj hopen)
                  exact ⟨_, rfl⟩
              | none =>
                  simp only [hk] at hopen
                  exact absurd hopen (hneeds origin)

end Rotation

/-! ## Drafts -/

/-- The versions of draft keys. -/
def draftVersions : List String := [draftKeyVersion, legacyDraftKeyVersion]

variable (y Sealed) in
/-- The draft `content` is sealed under `key`. -/
def SealedDraft (encryptedB64 nonceB64 : String) (key : Bytes) (content : DraftContent) : Prop :=
  ∃ ct nonce msg, y.base64Decode encryptedB64 = .ok ct ∧ y.base64Decode nonceB64 = .ok nonce ∧
    nonce.length = 12 ∧ Sealed key nonce msg ct ∧ y.draftFromSlice msg = .ok content

section Derived

variable {k k' version version' : String}

/-- Texts that end alike have the same last bytes. -/
theorem take_reverse_of_append {a b s t : Bytes} (h : a ++ s = b ++ t) {n : Nat}
    (hs : n ≤ s.length) (ht : n ≤ t.length) : s.reverse.take n = t.reverse.take n := by
  have hreverse : (a ++ s).reverse.take n = (b ++ t).reverse.take n := by rw [h]
  rw [List.reverse_append, List.reverse_append,
    List.take_append_of_le_length (by rw [List.length_reverse]; exact hs),
    List.take_append_of_le_length (by rw [List.length_reverse]; exact ht)] at hreverse
  exact hreverse

theorem draftKey_injective (h : IdealContent x y Sealed) (hversion : version ∈ draftVersions)
    (hversion' : version' ∈ draftVersions)
    (heq : deriveVersionedDraftKey y k version = deriveVersionedDraftKey y k' version') :
    k = k' ∧ version = version' := by
  have happend := h.sha256_injective heq
  have hlength : (Utf8.encode version).length = (Utf8.encode version').length := by
    rw [Utf8.encode_eq_flatMap, Utf8.encode_eq_flatMap]
    fin_cases hversion
    all_goals
      fin_cases hversion'
      all_goals decide
  obtain ⟨hk, hv⟩ := List.append_inj' happend hlength
  exact ⟨Utf8.encode_injective hk, Utf8.encode_injective hv⟩

/-- No key of an envelope is the key of a draft. -/
theorem envelopeKey_ne_draftKey (h : IdealContent x y Sealed) (hversion : version' ∈ draftVersions)
    {key : Bytes} (hkey : EnvelopeKey x y k envelopeVersions key) :
    key ≠ deriveVersionedDraftKey y k' version' := by
  rintro rfl
  obtain ⟨version, hmem, heq | hlegacy⟩ := hkey
  · have hends := @take_reverse_of_append _ _ _ _ (h.sha256_injective heq) 9
    rw [Utf8.encode_eq_flatMap version, Utf8.encode_eq_flatMap version'] at hends
    fin_cases hversion
    all_goals
      fin_cases hmem
      all_goals exact absurd (hends (by decide) (by decide)) (by decide)
  · exact h.expand_ne_sha256 (mapError_eq_ok.1 hlegacy) rfl

theorem contextKey_ne_draftKey (h : IdealContent x y Sealed) {accountKeys : List Bytes}
    {key : Bytes} (hkey : key ∈ contextKeys x accountKeys) :
    key ≠ deriveVersionedDraftKey y k version := by
  obtain ⟨accountKey, _, hderived⟩ := List.mem_filterMap.1 hkey
  exact h.expand_ne_sha256 (toOption_eq_some.1 hderived)

end Derived

section Drafts

variable {encryptedB64 nonceB64 k version : String} {key key' : Bytes}
  {content content' : DraftContent} {keys : DraftKeys} {previousKeys : List String}

theorem sealedDraft_unique (h : IdealContent x y Sealed)
    (hdraft : SealedDraft y Sealed encryptedB64 nonceB64 key content)
    (hdraft' : SealedDraft y Sealed encryptedB64 nonceB64 key' content') :
    key' = key ∧ content' = content := by
  obtain ⟨ct, nonce, msg, hct, hnonce, -, hsealed, hcontent⟩ := hdraft
  obtain ⟨ct', nonce', msg', hct', hnonce', -, hsealed', hcontent'⟩ := hdraft'
  obtain rfl := Except.ok.inj (hct'.symm.trans hct)
  obtain ⟨hkey, -, rfl, -⟩ := h.only hsealed hsealed' List.suffix_rfl
  exact ⟨hkey, Except.ok.inj (hcontent'.symm.trans hcontent)⟩

theorem decryptDraftContentWithKey_eq_ok (h : IdealContent x y Sealed) :
    decryptDraftContentWithKey x y encryptedB64 nonceB64 key = .ok content ↔
      SealedDraft y Sealed encryptedB64 nonceB64 key content := by
  constructor
  · intro hopen
    obtain ⟨ct, hct, hopen⟩ := of_bind_ok hopen
    obtain ⟨nonce, hnonce, hopen⟩ := of_bind_ok hopen
    split at hopen
    next => exact nomatch hopen
    next hlength =>
      split at hopen
      next msg hmsg =>
        exact ⟨ct, nonce, msg, decoded_eq_ok.1 hct, decoded_eq_ok.1 hnonce, not_not.1 hlength,
          h.decrypt_iff.1 hmsg, mapError_eq_ok.1 hopen⟩
      next => exact nomatch hopen
  · rintro ⟨ct, nonce, msg, hct, hnonce, hlength, hsealed, hcontent⟩
    rw [decryptDraftContentWithKey, bind_of_ok (decoded_eq_ok.2 hct),
      bind_of_ok (decoded_eq_ok.2 hnonce), if_neg (not_not.2 hlength), h.decrypt_iff.2 hsealed]
    exact mapError_eq_ok.2 hcontent

theorem openedPrevious_sound (h : IdealContent x y Sealed)
    (hopen : openedPrevious x y encryptedB64 nonceB64 previousKeys = some content) :
    ∃ p ∈ previousKeys, ∃ version ∈ draftVersions,
      SealedDraft y Sealed encryptedB64 nonceB64 (deriveVersionedDraftKey y p version) content := by
  obtain ⟨p, hp, hopen⟩ := List.exists_of_findSome?_eq_some hopen
  obtain ⟨version, hversion, hopen⟩ := List.exists_of_findSome?_eq_some hopen
  exact ⟨p, hp, version, hversion,
    (decryptDraftContentWithKey_eq_ok h).1 (toOption_eq_some.1 hopen)⟩

theorem openedPrevious_complete (h : IdealContent x y Sealed)
    (hdraft : SealedDraft y Sealed encryptedB64 nonceB64 (deriveVersionedDraftKey y k version)
      content)
    (hversion : version ∈ draftVersions) (hk : k ∈ previousKeys) :
    openedPrevious x y encryptedB64 nonceB64 previousKeys = some content := by
  have honly : ∀ key' content', (decryptDraftContentWithKey x y encryptedB64 nonceB64
      key').toOption = some content' → content' = content := fun key' content' hopen =>
    (sealedDraft_unique h hdraft
      ((decryptDraftContentWithKey_eq_ok h).1 (toOption_eq_some.1 hopen))).2
  refine findSome?_of_only ?_ hk ?_
  · intro p _ content' hopen
    obtain ⟨version', _, hopen⟩ := List.exists_of_findSome?_eq_some hopen
    exact honly _ _ hopen
  · exact findSome?_of_only (fun version' _ content' hopen => honly _ _ hopen) hversion
      (toOption_eq_some.2 ((decryptDraftContentWithKey_eq_ok h).2 hdraft))

theorem openedAccount_sound (h : IdealContent x y Sealed) {accountKeys : List Bytes}
    (hopen : openedAccount x y encryptedB64 nonceB64 accountKeys = some content) :
    ∃ key ∈ contextKeys x accountKeys, SealedDraft y Sealed encryptedB64 nonceB64 key content := by
  obtain ⟨key, hkey, hopen⟩ := List.exists_of_findSome?_eq_some hopen
  exact ⟨key, hkey, (decryptDraftContentWithKey_eq_ok h).1 (toOption_eq_some.1 hopen)⟩

/-- The envelope reader does not open a draft that is sealed under a draft key. -/
theorem decryptDraftEnvelope_of_sealedDraft (h : IdealContent x y Sealed)
    (hdraft : SealedDraft y Sealed encryptedB64 nonceB64 (deriveVersionedDraftKey y k version)
      content)
    (hversion : version ∈ draftVersions) (content' : DraftContent) :
    decryptDraftEnvelope x y encryptedB64 nonceB64 keys ≠ .ok content' := by
  obtain ⟨ct, nonce, msg, hct, hnonce, hlength, hsealed, _⟩ := hdraft
  intro hopen
  unfold decryptDraftEnvelope at hopen
  split at hopen
  next => exact nomatch hopen
  next =>
    obtain ⟨opened, hopened, _⟩ := of_bind_ok hopen
    rw [decryptEnvelope_of_length h hnonce hlength, openedInbound_of_sealed h hct hsealed]
      at hopened
    dsimp only at hopened
    split at hopened
    next text hown =>
      obtain ⟨p, _, hp⟩ := List.exists_of_findSome?_eq_some hown
      obtain ⟨key', msg', hkey', hsealed', _⟩ :=
        sealed_of_identityKey h hct (toOption_eq_some.1 hp)
      exact envelopeKey_ne_draftKey h hversion hkey'
        (h.only hsealed hsealed' List.suffix_rfl).1
    next =>
      cases hpass : decryptPbkdf2Envelope x y encryptedB64 keys.passphrase with
      | error e =>
          rw [hpass] at hopened
          exact nomatch hopened
      | ok text =>
          obtain ⟨_, key', nonce', msg', hend⟩ := sealed_of_pbkdf2 h hct hpass
          exact not_sealed_drop h hsealed (by decide) key' nonce' msg' hend

/-- The readers of a draft, in turn. -/
theorem decryptDraftContentWithKeys_eq_ok :
    decryptDraftContentWithKeys x y encryptedB64 nonceB64 keys = .ok content ↔
      ((((decryptDraftContent x y encryptedB64 nonceB64 keys.identityKey).toOption.or
        (openedPrevious x y encryptedB64 nonceB64 keys.previousKeys)).or
        (openedAccount x y encryptedB64 nonceB64 keys.accountKeys)).or
        (decryptDraftEnvelope x y encryptedB64 nonceB64 keys).toOption) = some content := by
  unfold decryptDraftContentWithKeys
  cases hfirst : decryptDraftContent x y encryptedB64 nonceB64 keys.identityKey with
  | ok c =>
      dsimp only [Except.toOption]
      rw [Option.some_or, Option.some_or, Option.some_or]
      constructor
      · intro h
        exact congrArg some (Except.ok.inj h)
      · intro h
        exact congrArg Except.ok (Option.some.inj h)
  | error e =>
      dsimp only [Except.toOption]
      rw [Option.none_or]
      split
      next c hc =>
        rw [hc]
        constructor
        · intro h
          exact congrArg some (Except.ok.inj h)
        · intro h
          exact congrArg Except.ok (Option.some.inj h)
      next hnone =>
        rw [hnone]
        exact iff_of_false (fun h => (nomatch h)) (fun h => (nomatch h))

/-- **When a sealed draft opens.** A draft key opens its draft as the current key in the current
version only, and as a previous key in both versions. -/
theorem sealedDraft_opens_iff (h : IdealContent x y Sealed) (hversion : version ∈ draftVersions)
    (hdraft : SealedDraft y Sealed encryptedB64 nonceB64 (deriveVersionedDraftKey y k version)
      content) :
    decryptDraftContentWithKeys x y encryptedB64 nonceB64 keys = .ok content ↔
      k = keys.identityKey ∧ version = draftKeyVersion ∨ k ∈ keys.previousKeys := by
  have hcurrent : draftKeyVersion ∈ draftVersions := List.mem_cons_self
  rw [decryptDraftContentWithKeys_eq_ok]
  constructor
  · intro hopen
    rcases Option.or_eq_some_iff.1 hopen with hopen | ⟨_, hopen⟩
    · rcases Option.or_eq_some_iff.1 hopen with hopen | ⟨_, hopen⟩
      · rcases Option.or_eq_some_iff.1 hopen with hopen | ⟨_, hopen⟩
        · have hfirst := (decryptDraftContentWithKey_eq_ok h).1 (toOption_eq_some.1 hopen)
          obtain ⟨hk, hv⟩ := draftKey_injective h hcurrent hversion
            (sealedDraft_unique h hdraft hfirst).1
          exact Or.inl ⟨hk.symm, hv.symm⟩
        · obtain ⟨p, hp, version', hversion', hdraft'⟩ := openedPrevious_sound h hopen
          obtain ⟨rfl, -⟩ := draftKey_injective h hversion' hversion
            (sealedDraft_unique h hdraft hdraft').1
          exact Or.inr hp
      · obtain ⟨key', hkey', hdraft'⟩ := openedAccount_sound h hopen
        exact absurd (sealedDraft_unique h hdraft hdraft').1 (contextKey_ne_draftKey h hkey')
    · exact absurd (toOption_eq_some.1 hopen)
        (decryptDraftEnvelope_of_sealedDraft h hdraft hversion content)
  · rintro (⟨rfl, rfl⟩ | hmem)
    · have hfirst : (decryptDraftContent x y encryptedB64 nonceB64 keys.identityKey).toOption =
          some content := toOption_eq_some.2 ((decryptDraftContentWithKey_eq_ok h).2 hdraft)
      rw [hfirst, Option.some_or, Option.some_or, Option.some_or]
    · rw [openedPrevious_complete h hdraft hversion hmem]
      cases hfirst : (decryptDraftContent x y encryptedB64 nonceB64 keys.identityKey).toOption with
      | none => rfl
      | some content' =>
          have hdraft' := (decryptDraftContentWithKey_eq_ok h).1 (toOption_eq_some.1 hfirst)
          rw [(sealedDraft_unique h hdraft hdraft').2]
          rfl

end Drafts

section DraftRotation

variable {encryptedB64 nonceB64 ik k : String} {before after : List String}
  {accountKeys : List Bytes} {passphrase : Bytes} {content : DraftContent}

/-- A draft that the envelope reader opens with a previous key opens with it as the current key. -/
theorem decryptDraftEnvelope_as_current (h : IdealContent x y Sealed)
    (hopen : decryptDraftEnvelope x y encryptedB64 nonceB64
      ⟨ik, before ++ k :: after, accountKeys, passphrase⟩ = .ok content)
    (hneeds : decryptDraftEnvelope x y encryptedB64 nonceB64
      ⟨ik, before ++ after, accountKeys, passphrase⟩ ≠ .ok content)
    (previous : List String) :
    decryptDraftEnvelope x y encryptedB64 nonceB64 ⟨k, previous, accountKeys, passphrase⟩ =
      .ok content := by
  unfold decryptDraftEnvelope at hopen hneeds ⊢
  split at hopen
  next => exact nomatch hopen
  next hguard =>
    rw [if_neg hguard] at hneeds ⊢
    obtain ⟨⟨plaintext, origin⟩, hopened, hcontent⟩ := of_bind_ok hopen
    have hothers : ∀ origin', decryptEnvelopeNotingOrigin x y encryptedB64 (some nonceB64)
        passphrase (some ik) (before ++ after) [] ≠ .ok (plaintext, origin') := by
      intro origin' hsame
      refine hneeds ?_
      rw [bind_of_ok hsame]
      exact hcontent
    obtain ⟨origin', hcurrent⟩ := decryptEnvelope_as_current h hopened hothers previous
    rw [bind_of_ok hcurrent]
    exact hcontent

/-- **When a draft that a previous key opens, opens with that key as the current one**: unless it
is sealed in the legacy version. -/
theorem draft_as_current_iff (h : IdealContent x y Sealed)
    (hopen : decryptDraftContentWithKeys x y encryptedB64 nonceB64
      ⟨ik, before ++ k :: after, accountKeys, passphrase⟩ = .ok content)
    (hneeds : ∀ content', decryptDraftContentWithKeys x y encryptedB64 nonceB64
      ⟨ik, before ++ after, accountKeys, passphrase⟩ ≠ .ok content')
    (previous : List String) :
    decryptDraftContentWithKeys x y encryptedB64 nonceB64
        ⟨k, previous, accountKeys, passphrase⟩ = .ok content ↔
      ¬ SealedDraft y Sealed encryptedB64 nonceB64
        (deriveVersionedDraftKey y k legacyDraftKeyVersion) content ∨ k ∈ previous := by
  have hlegacy : legacyDraftKeyVersion ∈ draftVersions :=
    List.mem_cons_of_mem _ List.mem_cons_self
  have hnone := Option.eq_none_iff_forall_ne_some.2 fun content' hsome =>
    hneeds content' (decryptDraftContentWithKeys_eq_ok.2 hsome)
  obtain ⟨hnone, hnoEnvelope⟩ := Option.or_eq_none_iff.1 hnone
  obtain ⟨hnone, hnoAccount⟩ := Option.or_eq_none_iff.1 hnone
  obtain ⟨hnoFirst, hnoPrevious⟩ := Option.or_eq_none_iff.1 hnone
  rw [decryptDraftContentWithKeys_eq_ok, hnoFirst, Option.none_or, hnoAccount, Option.or_none]
    at hopen
  rcases Option.or_eq_some_iff.1 hopen with hopen | ⟨_, hopen⟩
  case inl =>
    obtain ⟨p, hp, version, hversion, hdraft⟩ := openedPrevious_sound h hopen
    -- the other previous keys did not open it
    have hpk : p = k := by
      by_contra hne
      have hothers : p ∈ before ++ after := by
        simp only [List.mem_append, List.mem_cons] at hp ⊢
        tauto
      exact absurd ((openedPrevious_complete h hdraft hversion hothers).symm.trans hnoPrevious)
        (by simp)
    subst hpk
    have hversions : version = draftKeyVersion ↔ ¬ SealedDraft y Sealed encryptedB64 nonceB64
        (deriveVersionedDraftKey y p legacyDraftKeyVersion) content := by
      constructor
      · rintro rfl hsealed
        have hkeys := (sealedDraft_unique h hdraft hsealed).1
        exact absurd (draftKey_injective h hlegacy hversion hkeys).2 (by decide)
      · intro hnot
        rcases List.mem_cons.1 hversion with hcurrent | hmem
        · exact hcurrent
        · obtain rfl := List.mem_singleton.1 hmem
          exact absurd hdraft hnot
    rw [sealedDraft_opens_iff h hversion hdraft, hversions]
    simp only [true_and]
  case inr =>
    have henvelope := toOption_eq_some.1 hopen
    have hno : ∀ key version content', version ∈ draftVersions → ¬ SealedDraft y Sealed
        encryptedB64 nonceB64 (deriveVersionedDraftKey y key version) content' :=
      fun key version content' hversion hdraft =>
        decryptDraftEnvelope_of_sealedDraft h hdraft hversion content henvelope
    refine iff_of_true ?_ (Or.inl (hno k _ content hlegacy))
    have hcurrent := decryptDraftEnvelope_as_current h henvelope
      (fun hsame => absurd (hnoEnvelope.symm.trans (toOption_eq_some.2 hsame)) (by simp)) previous
    have hfirst : (decryptDraftContent x y encryptedB64 nonceB64 k).toOption = none :=
      Option.eq_none_iff_forall_ne_some.2 fun content' hsome =>
        hno k draftKeyVersion content' List.mem_cons_self
          ((decryptDraftContentWithKey_eq_ok h).1 (toOption_eq_some.1 hsome))
    have hprevious : openedPrevious x y encryptedB64 nonceB64 previous = none :=
      Option.eq_none_iff_forall_ne_some.2 fun content' hsome => by
        obtain ⟨p, _, version, hversion, hdraft⟩ := openedPrevious_sound h hsome
        exact hno p version content' hversion hdraft
    rw [decryptDraftContentWithKeys_eq_ok, hfirst, hprevious, hnoAccount, hcurrent]
    rfl

end DraftRotation

/-- **Key rotation.** Sealed mail opens, with its plaintext and its origin, for each account that
has what opens it, and a draft for each account that has its key, but for one kind: a draft in the
legacy version does not open with its key as the current one. So what a previous key opens, opens
with that key as the current one, but for drafts in the legacy version. -/
theorem rotated_keys_open (h : IdealContent x y Sealed) :
    (∀ holder plaintext data nonce, SealedMail x y Sealed holder plaintext data nonce →
      ∀ dataB64 nonceB64, y.base64Decode dataB64 = .ok data →
        y.base64Decode nonceB64 = .ok nonce →
          ∀ passphrase identityKey previousKeys inboundKeys,
            holder.Held passphrase identityKey previousKeys inboundKeys →
              decryptEnvelopeNotingOrigin x y dataB64 (some nonceB64) passphrase identityKey
                previousKeys inboundKeys = .ok (plaintext, holder.origin)) ∧
    (∀ encryptedB64 nonceB64 k version content, version ∈ draftVersions →
      SealedDraft y Sealed encryptedB64 nonceB64 (deriveVersionedDraftKey y k version) content →
        ∀ keys : DraftKeys, k = keys.identityKey ∨ k ∈ keys.previousKeys →
          (decryptDraftContentWithKeys x y encryptedB64 nonceB64 keys = .ok content ↔
            version ≠ legacyDraftKeyVersion ∨ k ∈ keys.previousKeys)) ∧
    (∀ dataB64 nonceB64 passphrase identityKey before k after inboundKeys plaintext origin,
      decryptEnvelopeNotingOrigin x y dataB64 nonceB64 passphrase identityKey
        (before ++ k :: after) inboundKeys = .ok (plaintext, origin) →
      (∀ opened, decryptEnvelopeNotingOrigin x y dataB64 nonceB64 passphrase identityKey
        (before ++ after) inboundKeys ≠ .ok opened) →
      ∀ previous, ∃ origin', decryptEnvelopeNotingOrigin x y dataB64 nonceB64 passphrase (some k)
        previous inboundKeys = .ok (plaintext, origin')) ∧
    ∀ encryptedB64 nonceB64 ik before k after accountKeys passphrase content,
      decryptDraftContentWithKeys x y encryptedB64 nonceB64
        ⟨ik, before ++ k :: after, accountKeys, passphrase⟩ = .ok content →
      (∀ content', decryptDraftContentWithKeys x y encryptedB64 nonceB64
        ⟨ik, before ++ after, accountKeys, passphrase⟩ ≠ .ok content') →
      ∀ previous, (decryptDraftContentWithKeys x y encryptedB64 nonceB64
          ⟨k, previous, accountKeys, passphrase⟩ = .ok content ↔
        ¬ SealedDraft y Sealed encryptedB64 nonceB64
          (deriveVersionedDraftKey y k legacyDraftKeyVersion) content ∨ k ∈ previous) := by
  refine ⟨?_, ?_, ?_, ?_⟩
  · intro holder plaintext data nonce hmail dataB64 nonceB64 hdata hnonce passphrase identityKey
      previousKeys inboundKeys hheld
    exact sealedMail_opens h hmail hdata hnonce hheld
  · intro encryptedB64 nonceB64 k version content hversion hdraft keys hheld
    rw [sealedDraft_opens_iff h hversion hdraft]
    have hversions : version = draftKeyVersion ↔ version ≠ legacyDraftKeyVersion := by
      rcases List.mem_cons.1 hversion with rfl | hmem
      · exact iff_of_true rfl (by decide)
      · obtain rfl := List.mem_singleton.1 hmem
        exact iff_of_false (by decide) (fun hne => hne rfl)
    rw [hversions]
    tauto
  · intro dataB64 nonceB64 passphrase identityKey before k after inboundKeys plaintext origin hopen
      hneeds previous
    exact decryptEnvelope_as_current h hopen (fun origin' => hneeds _) previous
  · intro encryptedB64 nonceB64 ik before k after accountKeys passphrase content hopen hneeds
      previous
    exact draft_as_current_iff h hopen hneeds previous

end Ideal

/-! ## A concrete instance -/

/-- A draft in the legacy version under the key `K`: its key, nonce, message and text. -/
def legacySeal (key nonce msg ct : Bytes) : Prop :=
  key = 1 :: (Utf8.encode "K" ++ Utf8.encode legacyDraftKeyVersion) ∧
    nonce = List.replicate 12 1 ∧ msg = [123, 125] ∧ ct = List.replicate 16 7

/-- Primitives that open that draft and nothing else. -/
def legacyPrimitives : Primitives UInt8 UInt8 where
  fromSlice _ := .error "length"
  toBytes a := [a]
  publicKey a := a
  fromSec1Bytes _ := .error "tag"
  toEncodedPoint p := [4, p]
  diffieHellman a p := [a * p]
  expand ikm salt info _ := .ok (0 :: (ikm ++ (salt ++ info)))
  encapsulate _ _ := .error "key"
  decapsulate _ _ := .error "ciphertext"
  encrypt _ _ _ _ := none
  decrypt key nonce ct _ :=
    if key = 1 :: (Utf8.encode "K" ++ Utf8.encode legacyDraftKeyVersion) ∧
      nonce = List.replicate 12 1 ∧ ct = List.replicate 16 7 then some [123, 125] else none

/-- The draft without any member. -/
def emptyDraft : DraftContent := ⟨[], [], [], "", "", none⟩

/-- Readers of that draft. -/
def legacyReaders : ContentCrates Unit Unit where
  base64Decode text :=
    match text with
    | "" => .ok []
    | "BwcHBwcHBwcHBwcHBwcHBw==" => .ok (List.replicate 16 7)
    | "AQEBAQEBAQEBAQEB" => .ok (List.replicate 12 1)
    | _ => .error "Invalid byte"
  sha256 bytes := 1 :: bytes
  pbkdf2 _ _ _ := []
  decompress _ _ := none
  utf8Error _ := "invalid utf-8 sequence"
  fromStr _ := .error "expected value"
  draftFromSlice bytes := if bytes = [123, 125] then .ok emptyDraft else .error "expected value"
  attachmentsFromValue _ := none
  importSecretKey _ := none
  publicKey _ := ()
  decryptAndVerify _ _ _ _ := none
  decryptMessage _ _ _ := none

theorem legacy_ideal : IdealContent legacyPrimitives legacyReaders legacySeal where
  decrypt_iff := by
    intro key nonce msg ct
    change (if _ then some _ else none) = some msg ↔ _
    unfold legacySeal
    split
    next hopen =>
      obtain ⟨hkey, hnonce, hct⟩ := hopen
      constructor
      · intro hmsg
        exact ⟨hkey, hnonce, (Option.some.inj hmsg).symm, hct⟩
      · rintro ⟨-, -, rfl, -⟩
        rfl
    next hclosed =>
      refine iff_of_false (fun h => (nomatch h)) ?_
      rintro ⟨hkey, hnonce, -, hct⟩
      exact hclosed ⟨hkey, hnonce, hct⟩
  only := by
    rintro key nonce msg ct key' nonce' msg' ct' ⟨rfl, rfl, rfl, rfl⟩ ⟨rfl, rfl, rfl, rfl⟩ _
    exact ⟨rfl, rfl, rfl, rfl⟩
  tag := by
    rintro key nonce msg ct ⟨-, -, -, rfl⟩
    decide
  sha256_injective a b heq := (List.cons.inj heq).2
  expands ikm salt info := ⟨_, rfl⟩
  expand_ne_sha256 := by
    intro ikm salt info okm bytes hokm heq
    rw [← Except.ok.inj hokm] at heq
    exact absurd (List.cons.inj heq).1 (by decide)
  decode_nil := rfl
  opens_some h := nomatch h
  opens_of_mem _ h := nomatch h
  one_content h := nomatch h
  verified h := nomatch h

theorem legacy_draft_sealed : SealedDraft legacyReaders legacySeal "BwcHBwcHBwcHBwcHBwcHBw=="
    "AQEBAQEBAQEBAQEB" (deriveVersionedDraftKey legacyReaders "K" legacyDraftKeyVersion)
    emptyDraft :=
  ⟨List.replicate 16 7, List.replicate 12 1, [123, 125], by rfl, by rfl, by rfl,
    ⟨rfl, rfl, rfl, rfl⟩, by rfl⟩

theorem rotated_keys_open_legacy :
    decryptDraftContentWithKeys legacyPrimitives legacyReaders "BwcHBwcHBwcHBwcHBwcHBw=="
      "AQEBAQEBAQEBAQEB" ⟨"new", ["K"], [], []⟩ = .ok emptyDraft := by
  have hlegacy : legacyDraftKeyVersion ∈ draftVersions :=
    List.mem_cons_of_mem _ List.mem_cons_self
  obtain ⟨-, hdrafts, -, -⟩ := rotated_keys_open legacy_ideal
  exact (hdrafts _ _ "K" _ _ hlegacy legacy_draft_sealed ⟨"new", ["K"], [], []⟩
    (Or.inr List.mem_cons_self)).2 (Or.inr List.mem_cons_self)

/-- The same draft does not open when its key is the current one. -/
theorem legacy_draft_stays_sealed :
    SealedDraft legacyReaders legacySeal "BwcHBwcHBwcHBwcHBwcHBw==" "AQEBAQEBAQEBAQEB"
        (deriveVersionedDraftKey legacyReaders "K" legacyDraftKeyVersion) emptyDraft ∧
      decryptDraftContentWithKeys legacyPrimitives legacyReaders "BwcHBwcHBwcHBwcHBwcHBw=="
        "AQEBAQEBAQEBAQEB" ⟨"K", [], [], []⟩ ≠ .ok emptyDraft := by
  have hlegacy : legacyDraftKeyVersion ∈ draftVersions :=
    List.mem_cons_of_mem _ List.mem_cons_self
  refine ⟨legacy_draft_sealed, fun hopen => ?_⟩
  rcases (sealedDraft_opens_iff legacy_ideal hlegacy legacy_draft_sealed).1 hopen with ⟨_, hv⟩ | hk
  · exact absurd hv (by decide)
  · exact absurd hk List.not_mem_nil

end AsterBridge.Crypto.Readers
