import AsterBridge.Crypto.Ratchet

/-!
# The two sides of a ratchet message

The two sides of a first message over ideal cryptography. The sender puts the published bytes of
the recipient's identity key into the transcript, the recipient the uncompressed form of its own
key: a bound message opens exactly when these are the same.
-/

set_option autoImplicit false

namespace AsterBridge.Crypto.Ratchet

open AsterBridge.Lib AsterBridge.Lib.Text AsterBridge.Lib.Unicode

/-! ## Ideal cryptography -/

/-- Ideal cryptography; `KemPair` are the pairs that the key generation of ML-KEM gives. -/
structure Ideal {Scalar Point : Type} (x : Primitives Scalar Point)
    (KemPair : Bytes → Bytes → Prop) : Prop where
  fromSlice_toBytes : ∀ a, x.fromSlice (x.toBytes a) = .ok a
  fromSec1Bytes_encoded : ∀ p, x.fromSec1Bytes (x.toEncodedPoint p) = .ok p
  agree : ∀ a b, x.diffieHellman a (x.publicKey b) = x.diffieHellman b (x.publicKey a)
  decapsulates : ∀ pk sk random, KemPair pk sk →
    ∃ ct ss, x.encapsulate pk random = .ok (ct, ss) ∧ x.decapsulate ct sk = .ok ss
  expands : ∀ ikm salt info n, n ≤ 64 → ∃ okm, x.expand ikm salt info n = .ok okm
  /-- the function is injective, and so is each half of its longer output -/
  expand_injective : ∀ {ikm ikm' salt salt' info info' okm},
    x.expand ikm salt info 32 = .ok okm → x.expand ikm' salt' info' 32 = .ok okm → ikm = ikm'
  half_injective : ∀ {ikm ikm' salt salt' info info' okm okm'},
    x.expand ikm salt info 64 = .ok okm → x.expand ikm' salt' info' 64 = .ok okm' →
      okm.drop 32 = okm'.drop 32 → ikm = ikm' ∧ salt = salt'
  encrypts : ∀ key nonce msg aad, ∃ ct, x.encrypt key nonce msg aad = some ct
  decrypts : ∀ {key nonce msg aad ct},
    x.encrypt key nonce msg aad = some ct → x.decrypt key nonce ct aad = some msg
  decrypts_only : ∀ {key nonce msg aad ct key' nonce' aad' msg'},
    x.encrypt key nonce msg aad = some ct → x.decrypt key' nonce' ct aad' = some msg' →
      key' = key ∧ nonce' = nonce ∧ aad' = aad

/-! ## Steps that may fail -/

section Steps

variable {ε α β : Type} {e : Except ε α} {f : α → Except ε β}

theorem bind_of_ok {a : α} (h : e = .ok a) : e >>= f = f a := by
  rw [h]
  rfl

theorem of_bind_ok {b : β} (h : e >>= f = .ok b) : ∃ a, e = .ok a ∧ f a = .ok b := by
  cases e with
  | error err => exact nomatch h
  | ok a => exact ⟨a, rfl, h⟩

end Steps

theorem exists_of_mem_left {α β : Type} {R : α → β → Prop} {as : List α} {bs : List β}
    (h : List.Forall₂ R as bs) {a : α} (ha : a ∈ as) : ∃ b ∈ bs, R a b := by
  induction h with
  | nil => exact absurd ha List.not_mem_nil
  | @cons a' b as bs hab _ ih =>
      rcases List.mem_cons.1 ha with rfl | hmem
      · exact ⟨b, List.mem_cons_self, hab⟩
      · obtain ⟨b', hb', hR⟩ := ih hmem
        exact ⟨b', List.mem_cons_of_mem _ hb', hR⟩

section Bootstrap

variable {Scalar Point : Type} {x : Primitives Scalar Point} {KemPair : Bytes → Bytes → Prop}

theorem ecdhP256_ok {secretD publicSec1 : Bytes} {a : Scalar} {p : Point}
    (ha : x.fromSlice secretD = .ok a) (hp : x.fromSec1Bytes publicSec1 = .ok p) :
    ecdhP256 x secretD publicSec1 = .ok (x.diffieHellman a p) := by
  rw [ecdhP256, ha, hp]
  rfl

theorem hkdfSha256_ok {ikm salt info okm : Bytes} {n : Nat} :
    hkdfSha256 x ikm salt info n = .ok okm ↔ x.expand ikm salt info n = .ok okm := by
  unfold hkdfSha256
  cases x.expand ikm salt info n with
  | error e => exact ⟨fun h => (nomatch h), fun h => (nomatch h)⟩
  | ok okm' => exact Iff.rfl

/-! ## The key of a message -/

/-- The key is derived for every root and secret. -/
theorem messageKey_ok (hx : Ideal x KemPair) (dhRoot shared : Bytes) :
    ∃ key, messageKey x dhRoot shared = .ok key := by
  obtain ⟨root, hroot⟩ := hx.expands dhRoot shared kdfInfoRoot 64 (le_refl _)
  obtain ⟨chain, hchain⟩ := hx.expands (root.drop 32) zeroSalt32 kdfInfoChain 64 (le_refl _)
  refine ⟨chain.drop 32, ?_⟩
  rw [messageKey, bind_of_ok (hkdfSha256_ok.2 hroot), bind_of_ok (hkdfSha256_ok.2 hchain)]
  rfl

/-- Different secrets give different keys. -/
theorem messageKey_injective (hx : Ideal x KemPair) {dhRoot dhRoot' shared shared' key : Bytes}
    (h : messageKey x dhRoot shared = .ok key) (h' : messageKey x dhRoot' shared' = .ok key) :
    shared = shared' := by
  obtain ⟨root, hroot, hrest⟩ := of_bind_ok h
  obtain ⟨chain, hchain, hkey⟩ := of_bind_ok hrest
  obtain ⟨root', hroot', hrest'⟩ := of_bind_ok h'
  obtain ⟨chain', hchain', hkey'⟩ := of_bind_ok hrest'
  rw [hkdfSha256_ok] at hroot hroot' hchain hchain'
  have hhalf : chain.drop 32 = chain'.drop 32 := Except.ok.inj (hkey.trans hkey'.symm)
  have hroots := (hx.half_injective hchain hchain' hhalf).1
  exact (hx.half_injective hroot hroot' hroots).2

theorem x3dhSharedSecret_ok (hx : Ideal x KemPair) (dh1 dh2 dh3 : Bytes)
    (pq : Option PqContribution) (transcript : Option Transcript) :
    ∃ shared, x3dhSharedSecret x dh1 dh2 dh3 pq transcript = .ok shared := by
  obtain ⟨okm, h⟩ := hx.expands (x3dhIkm dh1 dh2 dh3 pq transcript) zeroSalt32
    (x3dhInfo pq transcript.isSome) 32 (by decide)
  exact ⟨okm, hkdfSha256_ok.2 h⟩

/-- Two transcripts with the same initiator and different responders give different secrets. -/
theorem x3dhSharedSecret_responder (hx : Ideal x KemPair) {dh1 dh2 dh3 shared : Bytes}
    {pq : Option PqContribution} {initiator responder responder' : Bytes}
    (h : x3dhSharedSecret x dh1 dh2 dh3 pq (some ⟨initiator, responder⟩) = .ok shared)
    (h' : x3dhSharedSecret x dh1 dh2 dh3 pq (some ⟨initiator, responder'⟩) = .ok shared) :
    responder = responder' := by
  have hikm := hx.expand_injective (hkdfSha256_ok.1 h) (hkdfSha256_ok.1 h')
  have hbound := List.append_cancel_left hikm
  exact List.append_cancel_right (List.append_cancel_left hbound)

/-! ## What is sent -/

/-- The transcript of a message to the identity key `responder`. -/
def boundTranscript (bound : Bool) (initiator responder : Bytes) : Option Transcript :=
  if bound then some ⟨initiator, responder⟩ else none

variable (x) in
/-- The message that is sent with the ciphertext `ct`. -/
def sentMessage (d : Draw Scalar) (s : Scalar) (bound : Bool) (pq : Option (PqContribution × Int32))
    (ct : Bytes) : RatchetMessage where
  senderIdentityPublic := x.toEncodedPoint (x.publicKey s)
  ephemeralPublic := x.toEncodedPoint (x.publicKey d.ephemeral)
  headerDhPublic := x.toEncodedPoint (x.publicKey d.ratchet)
  previousChainLength := 0
  messageNumber := 0
  headerVersion := some 2
  ciphertext := ct
  nonce := d.nonce.toList
  pqCiphertext := pq.map fun p => p.1.ciphertext
  pqKeyId := pq.map Prod.snd
  pqSecret := none
  x3dhVersion := if bound then some 2 else none

/-- The header of every message that is sent. -/
def sentHeader (x : Primitives Scalar Point) (d : Draw Scalar) : Bytes :=
  serializeHeaderAd 2 (x.toEncodedPoint (x.publicKey d.ratchet)) 0 0

/-- A message for a target with usable keys is sent. -/
theorem encryptBootstrap_ok (hx : Ideal x KemPair) (d : Draw Scalar) {secret : Bytes} {s : Scalar}
    (hs : x.fromSlice secret = .ok s) {identity prekey : Bytes} {A B : Point}
    (hA : x.fromSec1Bytes identity = .ok A) (hB : x.fromSec1Bytes prekey = .ok B)
    {pqPublic : Option Bytes} {keyId : Option Int32} {pq : Option (PqContribution × Int32)}
    (hpq : sentPq x d.encapsulation pqPublic keyId = .ok pq) (bound : Bool) (plaintext : String) :
    ∃ shared key ct,
      x3dhSharedSecret x (x.diffieHellman s B) (x.diffieHellman d.ephemeral A)
        (x.diffieHellman d.ephemeral B) (pq.map Prod.fst)
        (boundTranscript bound (x.toEncodedPoint (x.publicKey s)) identity) = .ok shared ∧
      messageKey x (x.diffieHellman d.ratchet B) shared = .ok key ∧
      x.encrypt key d.nonce.toList (Utf8.encode plaintext) (sentHeader x d) = some ct ∧
      encryptBootstrapVersioned x d secret identity prekey pqPublic keyId bound plaintext =
        .ok (sentMessage x d s bound pq ct) := by
  obtain ⟨shared, hshared⟩ := x3dhSharedSecret_ok hx (x.diffieHellman s B)
    (x.diffieHellman d.ephemeral A) (x.diffieHellman d.ephemeral B) (pq.map Prod.fst)
    (boundTranscript bound (x.toEncodedPoint (x.publicKey s)) identity)
  obtain ⟨key, hkey⟩ := messageKey_ok hx (x.diffieHellman d.ratchet B) shared
  obtain ⟨ct, hct⟩ := hx.encrypts key d.nonce.toList (Utf8.encode plaintext) (sentHeader x d)
  refine ⟨shared, key, ct, hshared, hkey, hct, ?_⟩
  have hsender : (x.fromSlice secret).mapError (fun e => "sender identity: " ++ e) = .ok s := by
    rw [hs]
    rfl
  have hephemeral := hx.fromSlice_toBytes d.ephemeral
  have hratchet := hx.fromSlice_toBytes d.ratchet
  unfold encryptBootstrapVersioned
  rw [bind_of_ok hsender]
  dsimp only
  rw [bind_of_ok (ecdhP256_ok hs hB), bind_of_ok (ecdhP256_ok hephemeral hA),
    bind_of_ok (ecdhP256_ok hephemeral hB), bind_of_ok hpq]
  unfold boundTranscript at hshared
  rw [bind_of_ok hshared, bind_of_ok (ecdhP256_ok hratchet hB), bind_of_ok hkey]
  unfold sentHeader at hct
  rw [hct]
  rfl

/-! ## What is received -/

theorem boundVersion_sent (bound : Bool) :
    boundVersion (if bound then some 2 else none) = .ok bound := by
  cases bound with
  | false => rfl
  | true => rfl

/-- The owner of a key set derives the secret with its own identity key in the transcript. -/
theorem derive_sent (hx : Ideal x KemPair) {keys : RatchetReceiverKeys} {a b s : Scalar}
    (ha : x.fromSlice keys.identitySecretD = .ok a)
    (hb : x.fromSlice keys.signedPrekeySecretD = .ok b) {d : Draw Scalar} {bound : Bool}
    {msg : RatchetMessage} (hsender : msg.senderIdentityPublic = x.toEncodedPoint (x.publicKey s))
    (hephemeral : msg.ephemeralPublic = x.toEncodedPoint (x.publicKey d.ephemeral))
    (hversion : msg.x3dhVersion = if bound then some 2 else none) {pq : Option PqContribution}
    (hpq : receivedPq x msg = .ok pq) :
    deriveX3dhSharedSecret x keys msg =
      x3dhSharedSecret x (x.diffieHellman s (x.publicKey b))
        (x.diffieHellman d.ephemeral (x.publicKey a)) (x.diffieHellman d.ephemeral (x.publicKey b))
        pq (boundTranscript bound (x.toEncodedPoint (x.publicKey s))
          (x.toEncodedPoint (x.publicKey a))) := by
  have hpoint := hx.fromSec1Bytes_encoded
  have hown : identityPublicSec1 x keys.identitySecretD =
      .ok (x.toEncodedPoint (x.publicKey a)) := by
    rw [identityPublicSec1, ha]
    rfl
  unfold deriveX3dhSharedSecret
  rw [hversion, bind_of_ok (boundVersion_sent bound), hsender, hephemeral,
    bind_of_ok (ecdhP256_ok hb (hpoint _)), bind_of_ok (ecdhP256_ok ha (hpoint _)),
    bind_of_ok (ecdhP256_ok hb (hpoint _)), bind_of_ok hpq, bind_of_ok hown,
    hx.agree b s, hx.agree a d.ephemeral, hx.agree b d.ephemeral]
  rfl

/-- Whoever opens a ciphertext gets what was sealed. -/
theorem decryptBootstrap_only (hx : Ideal x KemPair) {keys : RatchetReceiverKeys}
    {msg : RatchetMessage} {key nonce aad ct : Bytes} {plaintext text : String}
    (hsealed : x.encrypt key nonce (Utf8.encode plaintext) aad = some ct)
    (hct : msg.ciphertext = ct) (h : decryptBootstrap x keys msg = .ok text) :
    text = plaintext := by
  subst hct
  unfold decryptBootstrap at h
  split at h
  next => exact nomatch h
  next =>
    obtain ⟨shared, -, h⟩ := of_bind_ok h
    obtain ⟨dhRoot, -, h⟩ := of_bind_ok h
    obtain ⟨key', -, h⟩ := of_bind_ok h
    dsimp only at h
    split at h
    next => exact nomatch h
    next opened hopened =>
      obtain ⟨aad', -, hdecrypt⟩ := List.exists_of_findSome?_eq_some hopened
      obtain ⟨rfl, rfl, rfl⟩ := hx.decrypts_only hsealed hdecrypt
      have hsame : opened = Utf8.encode plaintext :=
        Option.some.inj (hdecrypt.symm.trans (hx.decrypts hsealed))
      rw [hsame, Utf8.fromUtf8_encode] at h
      exact (Except.ok.inj h).symm.trans String.ofList_toList

/-- What `decrypt_bootstrap` does once the key is derived. -/
theorem decryptBootstrap_eq {keys : RatchetReceiverKeys} {msg : RatchetMessage}
    {shared dhRoot key : Bytes} (hnonce : msg.nonce.length = 12)
    (hshared : deriveX3dhSharedSecret x keys msg = .ok shared)
    (hroot : ecdhP256 x keys.signedPrekeySecretD msg.headerDhPublic = .ok dhRoot)
    (hkey : messageKey x dhRoot shared = .ok key) :
    decryptBootstrap x keys msg =
      match (attempts msg.headerVersion (serializeHeaderAd (msg.headerVersion.getD 1)
          msg.headerDhPublic msg.previousChainLength msg.messageNumber)).findSome? fun aad =>
          x.decrypt key msg.nonce msg.ciphertext aad with
      | none => .error "ratchet message decryption failed"
      | some plaintext =>
          match Utf8.fromUtf8 plaintext with
          | some text => .ok (String.ofList text)
          | none => .error "plaintext utf8" := by
  unfold decryptBootstrap
  rw [if_neg (not_not.2 hnonce), bind_of_ok hshared, bind_of_ok hroot]
  exact bind_of_ok hkey

end Bootstrap

/-! ## One addressee -/

/-- The secrets behind a published target: those of its two keys and of its post-quantum key. -/
structure Owns {Scalar Point : Type} (x : Primitives Scalar Point)
    (KemPair : Bytes → Bytes → Prop) (target : RatchetTarget) (keys : RatchetReceiverKeys)
    (secrets : Int32 → Option Bytes) : Prop where
  identity : ∃ a, x.fromSlice keys.identitySecretD = .ok a ∧
    x.fromSec1Bytes target.identityPublic = .ok (x.publicKey a)
  signedPrekey : ∃ b, x.fromSlice keys.signedPrekeySecretD = .ok b ∧
    x.fromSec1Bytes target.signedPrekey = .ok (x.publicKey b)
  pq : ∀ pq, target.pqTarget = some pq →
    ∃ sk, secrets pq.keyId = some sk ∧ KemPair pq.publicKey sk

/-- The published identity key is in the form that its owner puts into a transcript. -/
def Canonical {Scalar Point : Type} (x : Primitives Scalar Point) (bytes : Bytes) : Prop :=
  ∃ p, x.fromSec1Bytes bytes = .ok p ∧ bytes = x.toEncodedPoint p

section Addressee

variable {Scalar Point : Type} {x : Primitives Scalar Point} {KemPair : Bytes → Bytes → Prop}
variable {target : RatchetTarget} {keys : RatchetReceiverKeys} {secrets : Int32 → Option Bytes}

/-- The contribution of ML-KEM is the same on both sides. -/
theorem pq_agrees (hx : Ideal x KemPair) (howns : Owns x KemPair target keys secrets)
    (d : Draw Scalar) (s : Scalar) :
    ∃ pq, sentPq x d.encapsulation (target.pqTarget.map PqTarget.publicKey)
        (target.pqTarget.map PqTarget.keyId) = .ok pq ∧
      ∀ bound ct, receivedPq x (fillPqSecret secrets (sentMessage x d s bound pq ct)) =
        .ok (pq.map Prod.fst) := by
  cases htarget : target.pqTarget with
  | none => exact ⟨none, rfl, fun _ _ => rfl⟩
  | some pq =>
      obtain ⟨sk, hsecret, hpair⟩ := howns.pq pq htarget
      obtain ⟨ct, ss, hsend, hreceive⟩ := hx.decapsulates _ _ d.encapsulation hpair
      refine ⟨some (⟨ss, ct, pq.keyId = pqIdentityKeyId⟩, pq.keyId), ?_, ?_⟩
      · change sentPq x d.encapsulation (some pq.publicKey) (some pq.keyId) = _
        unfold sentPq
        dsimp only
        rw [bind_of_ok hsend]
        rfl
      · intro bound ct'
        unfold fillPqSecret sentMessage receivedPq
        dsimp only [Option.map_some]
        rw [hsecret]
        dsimp only
        rw [bind_of_ok hreceive]
        simp only [Option.some.injEq]
        rfl

/-- The secret of a post-quantum key is all that is filled in. -/
theorem fillPqSecret_eq (secrets : Int32 → Option Bytes) (msg : RatchetMessage) :
    ∃ pqSecret, fillPqSecret secrets msg = { msg with pqSecret } := by
  unfold fillPqSecret
  split
  next keyId _ => exact ⟨secrets keyId, rfl⟩
  next => exact ⟨msg.pqSecret, rfl⟩

/-- The owner of a key set opens a message if and only if both sides have the same transcript. -/
theorem decrypt_sent_iff (hx : Ideal x KemPair) {a b s : Scalar}
    (ha : x.fromSlice keys.identitySecretD = .ok a)
    (hb : x.fromSlice keys.signedPrekeySecretD = .ok b) (d : Draw Scalar) {bound : Bool}
    {identity shared key ct : Bytes} {pq : Option (PqContribution × Int32)} {plaintext : String}
    (hshared : x3dhSharedSecret x (x.diffieHellman s (x.publicKey b))
      (x.diffieHellman d.ephemeral (x.publicKey a)) (x.diffieHellman d.ephemeral (x.publicKey b))
      (pq.map Prod.fst) (boundTranscript bound (x.toEncodedPoint (x.publicKey s)) identity) =
        .ok shared)
    (hkey : messageKey x (x.diffieHellman d.ratchet (x.publicKey b)) shared = .ok key)
    (hct : x.encrypt key d.nonce.toList (Utf8.encode plaintext) (sentHeader x d) = some ct)
    {pqSecret : Option Bytes}
    (hpq : receivedPq x { sentMessage x d s bound pq ct with pqSecret } = .ok (pq.map Prod.fst)) :
    decryptBootstrap x keys { sentMessage x d s bound pq ct with pqSecret } = .ok plaintext ↔
      (bound = true → identity = x.toEncodedPoint (x.publicKey a)) := by
  obtain ⟨shared', hshared'⟩ := x3dhSharedSecret_ok hx (x.diffieHellman s (x.publicKey b))
    (x.diffieHellman d.ephemeral (x.publicKey a)) (x.diffieHellman d.ephemeral (x.publicKey b))
    (pq.map Prod.fst) (boundTranscript bound (x.toEncodedPoint (x.publicKey s))
      (x.toEncodedPoint (x.publicKey a)))
  obtain ⟨key', hkey'⟩ := messageKey_ok hx (x.diffieHellman d.ratchet (x.publicKey b)) shared'
  have hderive := (derive_sent hx ha hb (s := s) (d := d) rfl rfl rfl hpq).trans hshared'
  have hroot : ecdhP256 x keys.signedPrekeySecretD (x.toEncodedPoint (x.publicKey d.ratchet)) =
      .ok (x.diffieHellman d.ratchet (x.publicKey b)) := by
    rw [← hx.agree b d.ratchet]
    exact ecdhP256_ok hb (hx.fromSec1Bytes_encoded _)
  have hlength : d.nonce.toList.length = 12 := d.nonce.length_toList
  rw [decryptBootstrap_eq hlength hderive hroot hkey']
  constructor
  · intro h hbound
    split at h
    next => exact nomatch h
    next opened hopened =>
      obtain ⟨aad, -, hdecrypt⟩ := List.exists_of_findSome?_eq_some hopened
      obtain ⟨hsame, -, -⟩ := hx.decrypts_only hct hdecrypt
      -- the same key comes from the same secret, and this from the same transcript
      obtain rfl := messageKey_injective hx hkey (hsame ▸ hkey')
      rw [hbound] at hshared hshared'
      exact x3dhSharedSecret_responder hx hshared hshared'
  · intro hcanonical
    have htranscript : boundTranscript bound (x.toEncodedPoint (x.publicKey s)) identity =
        boundTranscript bound (x.toEncodedPoint (x.publicKey s))
          (x.toEncodedPoint (x.publicKey a)) := by
      cases bound with
      | false => rfl
      | true => rw [hcanonical rfl]
    rw [htranscript] at hshared
    obtain rfl : shared = shared' := Except.ok.inj (hshared.symm.trans hshared')
    obtain rfl : key = key' := Except.ok.inj (hkey.symm.trans hkey')
    have hopen : x.decrypt key d.nonce.toList ct (sentHeader x d) =
        some (Utf8.encode plaintext) := hx.decrypts hct
    have hfirst : (attempts (some 2) (sentHeader x d)).findSome? (fun aad =>
        x.decrypt key d.nonce.toList ct aad) = some (Utf8.encode plaintext) := by
      change [sentHeader x d, []].findSome? _ = _
      rw [List.findSome?_cons, hopen]
    change (match (attempts (some 2) (sentHeader x d)).findSome? (fun aad =>
        x.decrypt key d.nonce.toList ct aad) with
      | none => Except.error "ratchet message decryption failed"
      | some plaintext =>
          match Utf8.fromUtf8 plaintext with
          | some text => .ok (String.ofList text)
          | none => .error "plaintext utf8") = .ok plaintext
    rw [hfirst]
    dsimp only
    rw [Utf8.fromUtf8_encode]
    exact congrArg Except.ok String.ofList_toList

/-- A message for a target opens with the secrets behind it if and only if the target is not bound
to a transcript or publishes its identity key uncompressed; and nobody opens it as another text. -/
theorem opens_iff (hx : Ideal x KemPair) (howns : Owns x KemPair target keys secrets)
    (d : Draw Scalar) {secret : Bytes} {s : Scalar} (hs : x.fromSlice secret = .ok s)
    (plaintext : String) :
    ∃ pq ct, sealForRecipient x d secret target plaintext =
        .ok (sentMessage x d s target.transcriptBound pq ct) ∧
      (∀ keys' text, decryptBootstrap x keys' (fillPqSecret secrets
        (sentMessage x d s target.transcriptBound pq ct)) = .ok text → text = plaintext) ∧
      (decryptBootstrap x keys (fillPqSecret secrets
          (sentMessage x d s target.transcriptBound pq ct)) = .ok plaintext ↔
        (target.transcriptBound = true → Canonical x target.identityPublic)) := by
  obtain ⟨a, ha, hA⟩ := howns.identity
  obtain ⟨b, hb, hB⟩ := howns.signedPrekey
  obtain ⟨pq, hsent, hreceived⟩ := pq_agrees hx howns d s
  obtain ⟨shared, key, ct, hshared, hkey, hct, hseal⟩ :=
    encryptBootstrap_ok hx d hs hA hB hsent target.transcriptBound plaintext
  have hpq := hreceived target.transcriptBound ct
  obtain ⟨pqSecret, hfill⟩ :=
    fillPqSecret_eq secrets (sentMessage x d s target.transcriptBound pq ct)
  rw [hfill] at hpq
  have hcanonical : target.identityPublic = x.toEncodedPoint (x.publicKey a) ↔
      Canonical x target.identityPublic := by
    constructor
    · intro hsame
      exact ⟨_, hA, hsame⟩
    · rintro ⟨p, hp, hsame⟩
      rwa [Except.ok.inj (hp.symm.trans hA)] at hsame
  refine ⟨pq, ct, ?_, ?_, ?_⟩
  · rw [sealForRecipient, hseal]
    rfl
  · intro keys' text h
    rw [hfill] at h
    exact decryptBootstrap_only hx hct rfl h
  · rw [hfill, ← hcanonical]
    exact decrypt_sent_iff hx ha hb d hshared hkey hct hpq

end Addressee

end AsterBridge.Crypto.Ratchet
