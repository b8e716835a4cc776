import AsterBridge.Crypto.Bootstrap
import AsterBridge.Lib.Base64

/-!
# Sealed mail opens for its addressees

The envelope of all recipients as a text: each of them finds its message in it, and opens it if and
only if the transcripts of the two sides agree.
-/

set_option autoImplicit false

namespace AsterBridge.Crypto.Ratchet

open AsterBridge.Lib AsterBridge.Lib.Text AsterBridge.Lib.Unicode

/-- Texts come back: base64, which has no whitespace, and JSON. -/
structure Wire.Lawful (w : Wire) : Prop where
  decode_encode : ∀ bytes, w.base64Decode (w.base64Encode bytes) = some bytes
  not_whitespace : ∀ {bytes c}, c ∈ w.base64Encode bytes → isWhitespace c = false
  fromStr_toText : ∀ {j}, JsonText.Plain j → w.fromStr (w.toText j) = some j
  toText_object : ∀ members, ∃ rest, w.toText (.object members) = '{' :: rest

/-! ## The envelope -/

section Parsing

variable {w : Wire}

theorem trim_of_not_whitespace {cs : List Char} (h : ∀ c ∈ cs, isWhitespace c = false) :
    trim cs = cs := by
  have hstart : trimStart cs = cs := by
    cases cs with
    | nil => rfl
    | cons c cs =>
        have hc := h c List.mem_cons_self
        exact List.dropWhile_cons_of_neg (by rw [hc]; exact Bool.false_ne_true)
  rw [trim, hstart, trimEnd]
  refine List.rdropWhile_eq_self_iff.2 fun hne => ?_
  rw [h _ (List.getLast_mem hne)]
  exact Bool.false_ne_true

theorem bytesAt_base64 (hw : w.Lawful) {value : Json} {name : String} {bytes : Bytes}
    (h : value.get? name = some (base64Json w bytes)) : bytesAt w value name = some bytes := by
  rw [bytesAt, h]
  change b64Decode w (String.ofList (w.base64Encode bytes)) = some bytes
  rw [b64Decode, String.toList_ofList, trim_of_not_whitespace fun c hc => hw.not_whitespace hc]
  exact hw.decode_encode bytes

theorem u32At_int {value : Json} {name : String} (n : UInt32)
    (h : value.get? name = some (.int n.toNat)) : u32At value name = n := by
  have hn : n.toNat < 2 ^ 64 := lt_trans n.toNat_lt (by decide)
  rw [u32At, h]
  change UInt32.ofNat ((Json.int n.toNat).asU64.getD 0) = n
  rw [Json.asU64_int hn]
  exact UInt32.ofNat_toNat

/-- A message as a sender makes it. -/
structure Fresh (m : RatchetMessage) : Prop where
  headerVersion : m.headerVersion.isSome = true
  pq : m.pqCiphertext.isSome = m.pqKeyId.isSome
  pqSecret : m.pqSecret = none
  x3dhVersion : ∀ v ∈ m.x3dhVersion, 1 < v

theorem fresh_sent {Scalar Point : Type} (x : Primitives Scalar Point) (d : Draw Scalar)
    (s : Scalar) (bound : Bool) (pq : Option (PqContribution × Int32)) (ct : Bytes) :
    Fresh (sentMessage x d s bound pq ct) := by
  refine ⟨rfl, ?_, rfl, ?_⟩
  · cases pq with
    | none => rfl
    | some p => rfl
  · intro v hv
    cases bound with
    | false => exact nomatch hv
    | true =>
        cases hv
        decide

/-- The entry of a message, with its optional members. -/
def entryMembers (w : Wire) (m : RatchetMessage) (version : UInt8) : List (String × Json) :=
  [("ephemeral_key", base64Json w m.ephemeralPublic),
    ("header", .object
      [("dh_public", base64Json w m.headerDhPublic),
        ("previous_chain_length", .int m.previousChainLength.toNat),
        ("message_number", .int m.messageNumber.toNat), ("v", .int version.toNat)]),
    ("ciphertext", base64Json w m.ciphertext), ("nonce", base64Json w m.nonce)] ++
  (match m.pqCiphertext, m.pqKeyId with
    | some ct, some keyId =>
        [("pq_ciphertext", base64Json w ct), ("pq_key_id", .int keyId.toInt)]
    | _, _ => []) ++
  (match m.x3dhVersion with
    | some v => [("x3dh_v", .int v.toNat)]
    | none => [])

theorem recipientEntry_eq {m : RatchetMessage} (hm : Fresh m) {version : UInt8}
    (hversion : m.headerVersion = some version) :
    recipientEntry w m = .object (entryMembers w m version) := by
  have hx3dh : m.x3dhVersion.filter (fun v => decide (1 < v)) = m.x3dhVersion := by
    cases hv : m.x3dhVersion with
    | none => rfl
    | some v => exact Option.filter_some_pos (decide_eq_true (hm.x3dhVersion v hv))
  unfold recipientEntry entryMembers
  rw [hversion, hx3dh]
  have hpq := hm.pq
  cases hct : m.pqCiphertext with
  | none =>
      cases hv : m.x3dhVersion with
      | none => rfl
      | some v => rfl
  | some ct =>
      rw [hct] at hpq
      obtain ⟨keyId, hkeyId⟩ := Option.isSome_iff_exists.1 hpq.symm
      rw [hkeyId]
      cases hv : m.x3dhVersion with
      | none => rfl
      | some v => rfl

theorem get?_entry (m : RatchetMessage) (version : UInt8) :
    let entry : Json := .object (entryMembers w m version)
    entry.get? "ephemeral_key" = some (base64Json w m.ephemeralPublic) ∧
      entry.get? "ciphertext" = some (base64Json w m.ciphertext) ∧
      entry.get? "nonce" = some (base64Json w m.nonce) ∧
      entry.get? "header" = some (.object
        [("dh_public", base64Json w m.headerDhPublic),
          ("previous_chain_length", .int m.previousChainLength.toNat),
          ("message_number", .int m.messageNumber.toNat), ("v", .int version.toNat)]) :=
  ⟨rfl, rfl, rfl, rfl⟩

theorem get?_entry_pq {m : RatchetMessage} (hm : Fresh m) (version : UInt8) :
    let entry : Json := .object (entryMembers w m version)
    entry.get? "pq_ciphertext" = m.pqCiphertext.map (base64Json w) ∧
      entry.get? "pq_key_id" = m.pqKeyId.map (fun keyId => .int keyId.toInt) ∧
      entry.get? "x3dh_v" = m.x3dhVersion.map (fun v => .int v.toNat) := by
  have hpq := hm.pq
  unfold entryMembers
  cases hct : m.pqCiphertext with
  | none =>
      rw [hct] at hpq
      have hkeyId : m.pqKeyId = none := Option.isNone_iff_eq_none.1 (by
        rw [← Option.not_isSome, ← hpq]
        rfl)
      rw [hkeyId]
      cases m.x3dhVersion with
      | none => exact ⟨rfl, rfl, rfl⟩
      | some v => exact ⟨rfl, rfl, rfl⟩
  | some ct =>
      rw [hct] at hpq
      obtain ⟨keyId, hkeyId⟩ := Option.isSome_iff_exists.1 hpq.symm
      rw [hkeyId]
      cases m.x3dhVersion with
      | none => exact ⟨rfl, rfl, rfl⟩
      | some v => exact ⟨rfl, rfl, rfl⟩

/-- A recipient whose entry is found gets the message as it was sealed. -/
theorem parse_envelope (hw : w.Lawful) (T : CaseTables) {m : RatchetMessage} (hm : Fresh m)
    {entries : List (String × Json)} {address own : String}
    (hfind : (entries.foldl insertEntry []).find? (fun r => lowered T r.1 == lowered T own) =
      some (address, recipientEntry w m)) :
    parseRecipientMessage w T (envelopeJson
      (String.ofList (w.base64Encode m.senderIdentityPublic)) entries) own = some m := by
  obtain ⟨version, hversion⟩ := Option.isSome_iff_exists.1 hm.headerVersion
  rw [recipientEntry_eq hm hversion] at hfind
  obtain ⟨hephemeral, hciphertext, hnonce, hheader⟩ := get?_entry (w := w) m version
  obtain ⟨hpqCiphertext, hpqKeyId, hx3dh⟩ := get?_entry_pq (w := w) hm version
  have hsender : bytesAt w (envelopeJson
      (String.ofList (w.base64Encode m.senderIdentityPublic)) entries) "sender_identity_key" =
        some m.senderIdentityPublic := bytesAt_base64 hw rfl
  have hrecipients : ((envelopeJson (String.ofList (w.base64Encode m.senderIdentityPublic))
      entries).get? "recipients").bind asObject = some (entries.foldl insertEntry []) := rfl
  have hpq : bytesAt w (.object (entryMembers w m version)) "pq_ciphertext" = m.pqCiphertext := by
    cases hct : m.pqCiphertext with
    | none =>
        rw [hct] at hpqCiphertext
        rw [bytesAt, hpqCiphertext]
        rfl
    | some ct =>
        rw [hct] at hpqCiphertext
        exact bytesAt_base64 hw hpqCiphertext
  have hid : ((Json.get? (.object (entryMembers w m version)) "pq_key_id").bind Json.asI64).map
      Int32.ofInt = m.pqKeyId := by
    rw [hpqKeyId]
    cases m.pqKeyId with
    | none => rfl
    | some keyId =>
        have hlo := keyId.le_toInt
        have hhi := keyId.toInt_lt
        change ((Json.int keyId.toInt).asI64).map Int32.ofInt = _
        rw [Json.asI64_int (by omega) (by omega)]
        exact congrArg some (Int32.ofInt_toInt keyId)
  have hbound : (((Json.get? (.object (entryMembers w m version)) "x3dh_v").bind
      Json.asU64).map fun v => if v < 256 then UInt8.ofNat v else 255) = m.x3dhVersion := by
    rw [hx3dh]
    cases m.x3dhVersion with
    | none => rfl
    | some v =>
        have hv := v.toNat_lt
        change ((Json.int v.toNat).asU64).map _ = _
        rw [Json.asU64_int (lt_trans hv (by decide)), Option.map_some, if_pos hv]
        exact congrArg some UInt8.ofNat_toNat
  have hv : ∀ header : Json, header.get? "v" = some (.int version.toNat) →
      ((header.get? "v").bind Json.asU64).map UInt8.ofNat = some version := by
    intro header hget
    rw [hget]
    change ((Json.int version.toNat).asU64).map UInt8.ofNat = _
    rw [Json.asU64_int (lt_trans version.toNat_lt (by decide))]
    exact congrArg some UInt8.ofNat_toNat
  unfold parseRecipientMessage
  simp only [Option.bind_eq_bind, hsender, hrecipients, hfind, hheader, Option.bind_some]
  rw [bytesAt_base64 hw rfl, bytesAt_base64 hw hephemeral, bytesAt_base64 hw hciphertext,
    bytesAt_base64 hw hnonce, u32At_int m.previousChainLength rfl, u32At_int m.messageNumber rfl,
    hv _ rfl, hpq, hid, hbound, ← hversion, ← hm.pqSecret]
  rfl

/-! ## Texts of envelopes -/

theorem plain_entry (m : RatchetMessage) (version : UInt8) :
    JsonText.Plain (.object (entryMembers w m version)) := by
  have hbytes : ∀ bytes, JsonText.Plain (base64Json w bytes) := fun _ => .string _
  have hint : ∀ n, JsonText.Plain (.int n) := .number
  have hheader : JsonText.Plain (.object
      [("dh_public", base64Json w m.headerDhPublic),
        ("previous_chain_length", .int m.previousChainLength.toNat),
        ("message_number", .int m.messageNumber.toNat), ("v", .int version.toNat)]) := by
    refine .object (by simp) ?_
    simp [hbytes, hint]
  unfold entryMembers
  split
  all_goals
    split
    all_goals
      refine .object (by simp) ?_
      simp [hbytes, hint, hheader]

theorem foldl_insertEntry_of_nodup {β : Type} (map entries : List (String × β))
    (h : ((map ++ entries).map Prod.fst).Nodup) :
    entries.foldl insertEntry map = map ++ entries := by
  induction entries generalizing map with
  | nil => exact (List.append_nil map).symm
  | cons e entries ih =>
      have hnew : insertEntry map e = map ++ [e] := by
        rw [insertEntry, List.filter_eq_self.2]
        intro e' he'
        rw [List.map_append, List.nodup_append] at h
        have hne : e'.1 ≠ e.1 := h.2.2 _ (List.mem_map_of_mem he') _ List.mem_cons_self
        simpa using hne
      have happend : map ++ e :: entries = map ++ [e] ++ entries := by simp
      rw [List.foldl_cons, hnew, happend]
      exact ih _ (happend ▸ h)

theorem plain_envelope {key : String} {entries : List (String × Json)}
    (hnames : (entries.map Prod.fst).Nodup) (h : ∀ e ∈ entries, JsonText.Plain e.2) :
    JsonText.Plain (envelopeJson key entries) := by
  have hmap : entries.foldl insertEntry [] = entries :=
    foldl_insertEntry_of_nodup [] entries hnames
  have hrecipients : JsonText.Plain (.object entries) := .object hnames h
  rw [envelopeJson, hmap]
  refine .object (by simp) ?_
  simp [hrecipients, JsonText.Plain.string]

/-- The text of an envelope in a body field of the payload `envelope`, before which no other body
field holds a ratchet object. -/
def Carries (w : Wire) (envelope : Json) (text : String) : Prop :=
  isRatchetType envelope = false ∧
    ∃ before field after, bodyFields = before ++ field :: after ∧
      envelope.get? field = some (.string text) ∧
      ∀ other ∈ before, ratchetIn w envelope other = none

/-- An envelope is found in each body field. -/
theorem find_carried (hw : w.Lawful) {envelope : Json} {key : String}
    {entries : List (String × Json)} (hplain : JsonText.Plain (envelopeJson key entries))
    (h : Carries w envelope (buildEnvelope w key entries)) :
    findRatchetObject w envelope = some (envelopeJson key entries) := by
  obtain ⟨htype, before, field, after, hfields, hget, hbefore⟩ := h
  obtain ⟨rest, htext⟩ := hw.toText_object
    [("type", .string "double_ratchet_v2"), ("sender_identity_key", .string key),
      ("recipients", .object (entries.foldl insertEntry []))]
  have htrim : trimStart (w.toText (envelopeJson key entries)) =
      w.toText (envelopeJson key entries) := by
    rw [envelopeJson, htext]
    exact List.dropWhile_cons_of_neg (by decide)
  have hhead : (w.toText (envelopeJson key entries)).head? = some '{' := by
    rw [envelopeJson, htext]
    rfl
  have hfound : ratchetIn w envelope field = some (envelopeJson key entries) := by
    rw [ratchetIn, hget]
    change (if (trimStart (buildEnvelope w key entries).toList).head? = some '{' then
      (w.fromStr (trimStart (buildEnvelope w key entries).toList)).filter isRatchetType
      else none) = _
    rw [buildEnvelope, String.toList_ofList, htrim, if_pos hhead, hw.fromStr_toText hplain]
    exact Option.filter_some_pos rfl
  rw [findRatchetObject, if_neg (by rw [htype]; exact Bool.false_ne_true), hfields,
    List.findSome?_append, List.findSome?_eq_none_iff.2 hbefore]
  change (field :: after).findSome? (ratchetIn w envelope) = _
  rw [List.findSome?_cons, hfound]

end Parsing

theorem lowered_lowered (T : CaseTables) {address : String}
    (h : ∀ c ∈ address.toList, c.toNat < 0x80) :
    lowered T (lowered T address) = lowered T address := by
  have hlower : (lowered T address).toList = address.toList.map Char.toLower := by
    rw [lowered, String.toList_ofList]
    exact T.toLowercase_ascii h
  have hc : ∀ c ∈ address.toList, c.toLower.toNat < 0x80 ∧ c.toLower.toLower = c.toLower := by
    intro c hmem
    have hall := ascii_forall (P := fun c => c.toLower.toNat < 0x80 ∧ c.toLower.toLower = c.toLower)
      (by decide) (h c hmem)
    exact hall
  have hascii : ∀ c ∈ (lowered T address).toList, c.toNat < 0x80 := by
    intro c hmem
    rw [hlower] at hmem
    obtain ⟨d, hd, rfl⟩ := List.mem_map.1 hmem
    exact (hc d hd).1
  apply String.toList_inj.1
  rw [lowered, String.toList_ofList, T.toLowercase_ascii hascii, hlower, List.map_map]
  exact List.map_congr_left fun c hmem => (hc c hmem).2

/-! ## All addressees -/

/-- A recipient of a sealed message: its address and target, what is drawn for its message, and
its own secrets. -/
structure Addressee (Scalar : Type) where
  address : String
  target : RatchetTarget
  accountKey : Option String
  draw : Draw Scalar
  keys : RatchetReceiverKeys
  secrets : Int32 → Option Bytes

/-- What the sender has of a recipient. -/
def Addressee.routed {Scalar : Type} (r : Addressee Scalar) : RoutedRecipient × Draw Scalar :=
  (⟨r.address, .ratchet r.target, r.accountKey⟩, r.draw)

section Sealed

variable {Scalar Point : Type} {x : Primitives Scalar Point} {KemPair : Bytes → Bytes → Prop}
variable {T : CaseTables} {secret : Bytes} {s : Scalar} {plaintext : String}

variable (x T s plaintext) in
/-- The message `m` of the envelope is that of the recipient `r`. -/
structure SealedFor (r : Addressee Scalar) (m : String × RatchetMessage) : Prop where
  name : m.1 = lowered T r.address
  sender : m.2.senderIdentityPublic = x.toEncodedPoint (x.publicKey s)
  fresh : Fresh m.2
  only : ∀ keys' text,
    decryptBootstrap x keys' (fillPqSecret r.secrets m.2) = .ok text → text = plaintext
  opens : decryptBootstrap x r.keys (fillPqSecret r.secrets m.2) = .ok plaintext ↔
    (r.target.transcriptBound = true → Canonical x r.target.identityPublic)

variable (T plaintext) in
/-- Each recipient gets a message. -/
theorem sealedMessages_ok (hx : Ideal x KemPair) (hs : x.fromSlice secret = .ok s)
    {recipients : List (Addressee Scalar)}
    (howns : ∀ r ∈ recipients, Owns x KemPair r.target r.keys r.secrets) :
    ∃ messages, sealedMessages x T secret plaintext (recipients.map Addressee.routed) =
        .ok (some messages) ∧
      List.Forall₂ (SealedFor x T s plaintext) recipients messages := by
  induction recipients with
  | nil => exact ⟨[], rfl, .nil⟩
  | cons r rest ih =>
      obtain ⟨messages, hrest, hall⟩ := ih fun r' hr' => howns r' (List.mem_cons_of_mem _ hr')
      obtain ⟨pq, ct, hseal, honly, hopens⟩ :=
        opens_iff hx (howns r List.mem_cons_self) r.draw hs plaintext
      refine ⟨(lowered T r.address, sentMessage x r.draw s r.target.transcriptBound pq ct) ::
        messages, ?_, .cons ⟨rfl, rfl, fresh_sent .., honly, hopens⟩ hall⟩
      rw [List.map_cons, Addressee.routed, sealedMessages]
      dsimp only
      rw [bind_of_ok hseal, bind_of_ok hrest]
      rfl

theorem names_of_sealed {recipients : List (Addressee Scalar)}
    {messages : List (String × RatchetMessage)}
    (h : List.Forall₂ (SealedFor x T s plaintext) recipients messages) :
    messages.map Prod.fst = recipients.map fun r => lowered T r.address := by
  induction h with
  | nil => rfl
  | cons hr _ ih => rw [List.map_cons, List.map_cons, ih, hr.name]

/-- The entry of a name in a list of different names. -/
theorem find?_of_nodup {β : Type} {entries : List (String × β)}
    (hnames : (entries.map Prod.fst).Nodup) {p : String → Bool} {e : String × β} (he : e ∈ entries)
    (hp : ∀ e' ∈ entries, p e'.1 = true ↔ e'.1 = e.1) :
    entries.find? (fun e' => p e'.1) = some e := by
  cases hfind : entries.find? (fun e' => p e'.1) with
  | none =>
      have hnot := List.find?_eq_none.1 hfind e he
      exact absurd ((hp e he).2 rfl) hnot
  | some e' =>
      have hmem := List.mem_of_find?_eq_some hfind
      have hholds : p e'.1 = true := List.find?_some (p := fun e : String × β => p e.1) hfind
      have hname := (hp e' hmem).1 hholds
      rw [List.inj_on_of_nodup_map hnames hmem he hname]

variable {w : Wire}

variable (w) in
/-- The entries of the envelope. -/
def entriesOf (messages : List (String × RatchetMessage)) : List (String × Json) :=
  messages.map fun m => (m.1, recipientEntry w m.2)

variable (x w s) in
/-- The sender's key in the envelope. -/
def senderKey : String := String.ofList (w.base64Encode (x.toEncodedPoint (x.publicKey s)))

theorem names_entriesOf (messages : List (String × RatchetMessage)) :
    (entriesOf w messages).map Prod.fst = messages.map Prod.fst := by
  rw [entriesOf, List.map_map]
  rfl

/-- What a recipient reads in a body that carries the envelope. -/
theorem openBody_sealed (hw : w.Lawful) {recipients : List (Addressee Scalar)}
    {messages : List (String × RatchetMessage)}
    (hall : List.Forall₂ (SealedFor x T s plaintext) recipients messages)
    (hascii : ∀ r ∈ recipients, ∀ c ∈ r.address.toList, c.toNat < 0x80)
    (hdistinct : (recipients.map fun r => lowered T r.address).Nodup) {r : Addressee Scalar}
    {m : String × RatchetMessage} (hm : m ∈ messages)
    (hsealed : SealedFor x T s plaintext r m) {envelope : Json} {own : String}
    {keySets : List RatchetReceiverKeys}
    (hcarries : Carries w envelope (buildEnvelope w (senderKey x s w) (entriesOf w messages)))
    (hown : lowered T own = lowered T r.address) :
    openBody w x T envelope own r.secrets keySets =
      decryptWithKeySets x keySets (fillPqSecret r.secrets m.2) := by
  have hnodup : ((entriesOf w messages).map Prod.fst).Nodup := by
    rw [names_entriesOf, names_of_sealed hall]
    exact hdistinct
  -- every entry has the lower-cased address of a recipient as its name
  have hentry : ∀ e ∈ entriesOf w messages, JsonText.Plain e.2 ∧ lowered T e.1 = e.1 := by
    intro e he
    obtain ⟨m', hm', rfl⟩ := List.mem_map.1 he
    obtain ⟨r', hr', hsealed'⟩ := exists_of_mem_left hall.flip hm'
    obtain ⟨version, hversion⟩ := Option.isSome_iff_exists.1 hsealed'.fresh.headerVersion
    constructor
    · rw [recipientEntry_eq hsealed'.fresh hversion]
      exact plain_entry m'.2 version
    · change lowered T m'.1 = m'.1
      rw [hsealed'.name]
      exact lowered_lowered T (hascii r' hr')
  have hplain : JsonText.Plain (envelopeJson (senderKey x s w) (entriesOf w messages)) :=
    plain_envelope hnodup fun e he => (hentry e he).1
  have hmem : (m.1, recipientEntry w m.2) ∈ entriesOf w messages := List.mem_map_of_mem hm
  have hmap : (entriesOf w messages).foldl insertEntry [] = entriesOf w messages :=
    foldl_insertEntry_of_nodup [] _ hnodup
  have hfind : ((entriesOf w messages).foldl insertEntry []).find?
      (fun e => lowered T e.1 == lowered T own) = some (m.1, recipientEntry w m.2) := by
    rw [hmap]
    refine find?_of_nodup (p := fun name => lowered T name == lowered T own) hnodup hmem ?_
    intro e he
    change (lowered T e.1 == lowered T own) = true ↔ e.1 = m.1
    rw [(hentry e he).2, hown, ← hsealed.name, beq_iff_eq]
  have hparse := parse_envelope hw T hsealed.fresh hfind
  rw [hsealed.sender] at hparse
  have hfound := find_carried hw hplain hcarries
  rw [openBody, hfound]
  change (parseRecipientMessage w T (envelopeJson (senderKey x s w) (entriesOf w messages))
    own).bind _ = _
  rw [senderKey, hparse]
  rfl

/-- The first key set that opens a message gives its text, and one of them does. -/
theorem decryptWithKeySets_iff {msg : RatchetMessage} {keys : RatchetReceiverKeys}
    (honly : ∀ keys' text, decryptBootstrap x keys' msg = .ok text → text = plaintext) :
    (∀ keySets : List RatchetReceiverKeys, keys ∈ keySets →
      decryptWithKeySets x keySets msg = some plaintext) ↔
        decryptBootstrap x keys msg = .ok plaintext := by
  constructor
  · intro h
    have hone := h [keys] List.mem_cons_self
    rw [decryptWithKeySets, List.findSome?_singleton] at hone
    cases hopen : decryptBootstrap x keys msg with
    | error e =>
        rw [hopen] at hone
        exact nomatch hone
    | ok text => rw [honly keys text hopen]
  · intro hopen keySets hmem
    rw [decryptWithKeySets]
    cases hfind : keySets.findSome? fun keys => (decryptBootstrap x keys msg).toOption with
    | none =>
        have hnone := List.findSome?_eq_none_iff.1 hfind keys hmem
        rw [hopen] at hnone
        exact nomatch hnone
    | some text =>
        obtain ⟨keys', -, hopen'⟩ := List.exists_of_findSome?_eq_some hfind
        cases hresult : decryptBootstrap x keys' msg with
        | error e =>
            rw [hresult] at hopen'
            exact nomatch hopen'
        | ok text' =>
            rw [hresult] at hopen'
            obtain rfl : text' = text := Option.some.inj hopen'
            rw [honly keys' text' hresult]

/-- The envelope is built from the messages. -/
theorem seal_built {recipients : List (Addressee Scalar)} (hne : recipients ≠ [])
    {messages : List (String × RatchetMessage)}
    (hmessages : sealedMessages x T secret plaintext (recipients.map Addressee.routed) =
      .ok (some messages))
    (hall : List.Forall₂ (SealedFor x T s plaintext) recipients messages) :
    sealRatchetEnvelope w x T secret (recipients.map Addressee.routed) plaintext =
      .ok (some (buildEnvelope w (senderKey x s w) (entriesOf w messages))) := by
  rw [sealRatchetEnvelope, bind_of_ok hmessages]
  cases hall with
  | nil => exact absurd rfl hne
  | cons hr _ =>
      dsimp only
      rw [hr.sender]
      rfl

/-- A payload with the text as its body. -/
def bodyOf (text : String) : Json := .object [("body", .string text)]

theorem carries_bodyOf (w : Wire) (text : String) : Carries w (bodyOf text) text := by
  refine ⟨rfl, ["body_html", "html_body", "html", "body_text", "text_body"], "body", ["text"], rfl,
    rfl, ?_⟩
  intro other hother
  fin_cases hother <;> rfl

/-- **Sealed mail opens.** For ideal cryptography, every sender secret, plaintext and non-empty list
of recipients with different ASCII addresses and secrets that belong to their targets, the envelope
is built; and each of the recipients opens it to the plaintext, in every body, under every case of
its address and with its key set at any place among others, if and only if its target is not bound
to a transcript or its identity key is published uncompressed. -/
theorem sealed_mail_opens (x : Primitives Scalar Point) (w : Wire) (T : CaseTables)
    {KemPair : Bytes → Bytes → Prop} (hx : Ideal x KemPair) (hw : w.Lawful) {secret : Bytes}
    {s : Scalar} (hs : x.fromSlice secret = .ok s) (plaintext : String)
    (recipients : List (Addressee Scalar)) (hne : recipients ≠ [])
    (hascii : ∀ r ∈ recipients, ∀ c ∈ r.address.toList, c.toNat < 0x80)
    (hdistinct : (recipients.map fun r => lowered T r.address).Nodup)
    (howns : ∀ r ∈ recipients, Owns x KemPair r.target r.keys r.secrets) :
    ∃ text, sealRatchetEnvelope w x T secret (recipients.map Addressee.routed) plaintext =
        .ok (some text) ∧
      ∀ r ∈ recipients,
        (∀ envelope own keySets, Carries w envelope text → lowered T own = lowered T r.address →
          r.keys ∈ keySets → openBody w x T envelope own r.secrets keySets = some plaintext) ↔
        (r.target.transcriptBound = true → Canonical x r.target.identityPublic) := by
  obtain ⟨messages, hmessages, hall⟩ := sealedMessages_ok T plaintext hx hs howns
  refine ⟨buildEnvelope w (senderKey x s w) (entriesOf w messages), ?_, ?_⟩
  · exact seal_built hne hmessages hall
  · intro r hr
    obtain ⟨m, hm, hsealed⟩ := exists_of_mem_left hall hr
    rw [← hsealed.opens, ← decryptWithKeySets_iff hsealed.only]
    constructor
    · intro h keySets hmem
      have hcarries := carries_bodyOf w (buildEnvelope w (senderKey x s w) (entriesOf w messages))
      rw [← openBody_sealed hw hall hascii hdistinct hm hsealed hcarries rfl]
      exact h _ _ _ hcarries rfl hmem
    · intro h envelope own keySets hcarries hown hmem
      rw [openBody_sealed hw hall hascii hdistinct hm hsealed hcarries hown]
      exact h keySets hmem

end Sealed

/-! ## A concrete instance -/

/-- Bytes whose end can be seen. -/
def framed : Bytes → Bytes
  | [] => [0]
  | b :: bytes => 1 :: b :: framed bytes

theorem framed_append_inj {a b x y : Bytes} (h : framed a ++ x = framed b ++ y) :
    a = b ∧ x = y := by
  induction a generalizing b with
  | nil =>
      cases b with
      | nil => exact ⟨rfl, (List.cons.inj h).2⟩
      | cons d b => exact absurd (List.cons.inj h).1 (by decide)
  | cons c a ih =>
      cases b with
      | nil => exact absurd (List.cons.inj h).1 (by decide)
      | cons d b =>
          obtain ⟨hcd, hrest⟩ := List.cons.inj (List.cons.inj h).2
          obtain ⟨hab, hxy⟩ := ih hrest
          exact ⟨by rw [hcd, hab], hxy⟩

/-- Ideal functions that write down what they are given. A point is the product of its factors, and
has a compressed form with the tag 2. -/
def written : Primitives UInt8 UInt8 where
  fromSlice
    | [a] => .ok a
    | _ => .error "length"
  toBytes a := [a]
  publicKey a := a
  fromSec1Bytes
    | [4, p] | [2, p] => .ok p
    | _ => .error "tag"
  toEncodedPoint p := [4, p]
  diffieHellman a p := [a * p]
  expand ikm salt info _ := .ok (List.replicate 32 0 ++ (framed ikm ++ (framed salt ++ info)))
  encapsulate publicKey random := .ok (random, publicKey ++ random)
  decapsulate ciphertext secretKey := .ok (secretKey ++ ciphertext)
  encrypt key nonce msg aad := some (framed key ++ (framed nonce ++ (framed aad ++ msg)))
  decrypt key nonce ct aad :=
    let head := framed key ++ (framed nonce ++ framed aad)
    if head.isPrefixOf ct then some (ct.drop head.length) else none

theorem written_ideal : Ideal written Eq where
  fromSlice_toBytes _ := rfl
  fromSec1Bytes_encoded _ := rfl
  agree a b := by
    change [a * b] = [b * a]
    rw [UInt8.mul_comm]
  decapsulates pk sk random h := ⟨random, pk ++ random, rfl, by rw [h]; rfl⟩
  expands _ _ _ _ _ := ⟨_, rfl⟩
  expand_injective h h' := by
    have hsame := List.append_cancel_left (Except.ok.inj (h.trans h'.symm))
    exact (framed_append_inj hsame).1
  half_injective h h' hhalf := by
    rw [← Except.ok.inj h, ← Except.ok.inj h', List.drop_left' List.length_replicate,
      List.drop_left' List.length_replicate] at hhalf
    obtain ⟨hikm, hrest⟩ := framed_append_inj hhalf
    exact ⟨hikm, (framed_append_inj hrest).1⟩
  encrypts _ _ _ _ := ⟨_, rfl⟩
  decrypts := by
    intro key nonce msg aad ct h
    obtain rfl := Option.some.inj h
    have happend : framed key ++ (framed nonce ++ (framed aad ++ msg)) =
        (framed key ++ (framed nonce ++ framed aad)) ++ msg := by
      rw [List.append_assoc, List.append_assoc]
    change (if _ then some _ else none) = _
    rw [happend, if_pos (List.isPrefixOf_iff_prefix.2 (List.prefix_append _ _)), List.drop_left]
  decrypts_only := by
    intro key nonce msg aad ct key' nonce' aad' msg' h h'
    obtain rfl := Option.some.inj h
    change (if _ then some _ else none) = _ at h'
    split at h'
    next hhead =>
      obtain ⟨rest, hrest⟩ := List.isPrefixOf_iff_prefix.1 hhead
      rw [List.append_assoc, List.append_assoc] at hrest
      obtain ⟨hkey, hrest⟩ := framed_append_inj hrest
      obtain ⟨hnonce, hrest⟩ := framed_append_inj hrest
      exact ⟨hkey, hnonce, (framed_append_inj hrest).1⟩
    next => exact nomatch h'

/-- The texts of the libraries. -/
def compact : Wire where
  base64Encode := Base64.encode
  base64Decode := Base64.decode
  toText := JsonText.write
  fromStr := JsonText.read

theorem compact_lawful : compact.Lawful where
  decode_encode := Base64.decode_encode
  not_whitespace := Base64.not_whitespace_of_mem_encode
  fromStr_toText := JsonText.read_write
  toText_object members := by
    change ∃ rest, JsonText.write (.object members) = _
    rw [JsonText.write]
    exact ⟨_, rfl⟩

/-- A recipient with the keys 3 and 5. -/
def addressee (address : String) (identityPublic : Bytes) (pq : Option PqTarget) (bound : Bool) :
    Addressee UInt8 where
  address := address
  target := ⟨identityPublic, [4, 5], pq, bound⟩
  accountKey := none
  draw := ⟨7, [8], 9, Vector.replicate 12 1⟩
  keys := ⟨[3], [5], [4, 5]⟩
  secrets := fun _ => some [6]

theorem owns_addressee (address : String) {identityPublic : Bytes}
    (hidentity : written.fromSec1Bytes identityPublic = .ok 3) (keyId : Int32) (bound : Bool) :
    ∀ pq ∈ [none, some ⟨[6], keyId, false⟩],
      let r := addressee address identityPublic pq bound
      Owns written Eq r.target r.keys r.secrets := by
  intro pq hpq r
  refine ⟨⟨3, rfl, hidentity⟩, ⟨5, rfl, rfl⟩, ?_⟩
  intro p hp
  rcases List.mem_cons.1 hpq with rfl | hpq
  · exact nomatch hp
  · obtain rfl := List.mem_singleton.1 hpq
    cases hp
    exact ⟨[6], rfl, rfl⟩

theorem ascii_of_all {recipients : List (Addressee UInt8)}
    (h : (recipients.all fun r => r.address.toList.all fun c => decide (c.toNat < 0x80)) = true) :
    ∀ r ∈ recipients, ∀ c ∈ r.address.toList, c.toNat < 0x80 := by
  intro r hr c hc
  have haddress := List.all_eq_true.1 h r hr
  exact of_decide_eq_true (List.all_eq_true.1 haddress c hc)

/-- A bound target with a post-quantum key, and an unbound one with a compressed identity key. -/
def addressees : List (Addressee UInt8) :=
  [addressee "Bob@aster.cx" [4, 3] (some ⟨[6], -1, false⟩) true,
    addressee "eve@aster.cx" [2, 3] none false]

theorem sealed_mail_opens_twice :
    ∃ text, sealRatchetEnvelope compact written CaseTables.ascii [1]
        (addressees.map Addressee.routed) "hi" = .ok (some text) ∧
      ∀ r ∈ addressees, ∀ envelope own keySets, Carries compact envelope text →
        lowered CaseTables.ascii own = lowered CaseTables.ascii r.address → r.keys ∈ keySets →
          openBody compact written CaseTables.ascii envelope own r.secrets keySets = some "hi" := by
  have howns : ∀ r ∈ addressees, Owns written Eq r.target r.keys r.secrets := by
    intro r hr
    rcases List.mem_cons.1 hr with rfl | hr
    · exact owns_addressee _ rfl (-1) true _ (List.mem_cons_of_mem _ List.mem_cons_self)
    · obtain rfl := List.mem_singleton.1 hr
      exact owns_addressee _ rfl 0 false _ List.mem_cons_self
  have hsecret : written.fromSlice [1] = .ok 1 := rfl
  obtain ⟨text, hseal, hopens⟩ := sealed_mail_opens written compact CaseTables.ascii written_ideal
    compact_lawful hsecret "hi" addressees (List.cons_ne_nil _ _) (ascii_of_all (by decide))
    (by decide) howns
  refine ⟨text, hseal, fun r hr => (hopens r hr).2 ?_⟩
  rcases List.mem_cons.1 hr with rfl | hr
  · intro _
    exact ⟨3, rfl, rfl⟩
  · obtain rfl := List.mem_singleton.1 hr
    exact fun h => nomatch h

/-- A published bundle whose identity key is compressed, signed by the account key. -/
def compressedBundle : PrekeyBundle where
  kemIdentityKey := "AgM="
  signedPrekey := "BAU="
  signedPrekeySignature := some "LS0tLS1CRUdJTiBQR1AgU0lHTkVEIE1FU1NBR0UtLS0tLQ=="
  pqPrekey := none
  pqKemPublicKey := none
  x3dhMaxVersion := some 2

/-- Code that finds the signature of `compressedBundle` right. -/
def signedCrates : Crates where
  base64Decode := Base64.decode
  sha256 := fun _ => Vector.replicate 32 0
  verifyCleartextSignature := fun _ _ => some (canonicalV1 compressedBundle).toList
  publicKeyFingerprintHex := fun _ => some "f"
  upper := fun c => [c.toUpper]

/-- The recipient of that bundle. -/
def compressed : Addressee UInt8 := addressee "bob@aster.cx" [2, 3] none true

/-- The bundle is accepted; the recipient does not open what is sealed for it. -/
theorem compressed_identity_stays_sealed :
    (evaluateRecipient signedCrates CaseTables.ascii "bob@aster.cx" (some compressedBundle)
        (some "key") none).outcome = .ok (.ratchet compressed.target) ∧
      ∃ text, sealRatchetEnvelope compact written CaseTables.ascii [1] [compressed.routed] "hi" =
          .ok (some text) ∧
        ∃ envelope, Carries compact envelope text ∧
          openBody compact written CaseTables.ascii envelope "bob@aster.cx" compressed.secrets
            [compressed.keys] = none := by
  refine ⟨by rfl, ?_⟩
  have hsecret : written.fromSlice [1] = .ok 1 := rfl
  have howns : ∀ r ∈ [compressed], Owns written Eq r.target r.keys r.secrets := by
    intro r hr
    obtain rfl := List.mem_singleton.1 hr
    exact owns_addressee _ rfl 0 true _ List.mem_cons_self
  obtain ⟨messages, hmessages, hall⟩ :=
    sealedMessages_ok CaseTables.ascii "hi" written_ideal hsecret howns
  obtain ⟨m, hm, hsealed⟩ := exists_of_mem_left hall List.mem_cons_self
  have hcarries := carries_bodyOf compact
    (buildEnvelope compact (senderKey written 1 compact) (entriesOf compact messages))
  refine ⟨_, seal_built (List.cons_ne_nil _ _) hmessages hall, _, hcarries, ?_⟩
  have hown : lowered CaseTables.ascii "bob@aster.cx" =
      lowered CaseTables.ascii compressed.address := rfl
  rw [openBody_sealed compact_lawful hall (ascii_of_all (by decide)) (by decide) hm hsealed hcarries
    hown,
    decryptWithKeySets, List.findSome?_singleton]
  cases hopen : decryptBootstrap written compressed.keys
      (fillPqSecret compressed.secrets m.2) with
  | error e => rfl
  | ok text =>
      -- the transcripts would have to agree
      rw [hsealed.only _ text hopen] at hopen
      obtain ⟨p, -, hp⟩ := hsealed.opens.1 hopen rfl
      exact absurd (List.cons.inj hp).1 (by decide)

end AsterBridge.Crypto.Ratchet
