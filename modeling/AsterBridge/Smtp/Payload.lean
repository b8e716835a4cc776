import AsterBridge.Auth.Session
import AsterBridge.Crypto.SealedBodies

/-!
# The payload of an outgoing message

`build_send_payload_with_own_key` of `smtp/server.rs`: the recipients come from the headers
as far as the envelope has them; the rest of the envelope is blind copies.
-/

set_option autoImplicit false

namespace AsterBridge.Smtp

open AsterBridge.Lib AsterBridge.Lib.Text AsterBridge.Lib.Unicode AsterBridge.Auth
open AsterBridge.Crypto

/-! ## Parsed messages -/

/-- An address of a header, as `mail_parser` reads it. -/
structure MailAddress where
  name : Option String
  address : Option String

/-- A content type. -/
structure ContentType where
  ctype : String
  subtype : Option String

/-- A part of a message. -/
structure MailPart where
  contentType : Option ContentType
  contents : Crypto.Bytes

/-- What the bridge reads of a message that `mail_parser` has parsed. `htmlPart` says that the
part `html_part(0)` is HTML. -/
structure ParsedMessage where
  sender : Option (List MailAddress)
  headerTo : Option (List MailAddress)
  headerCc : Option (List MailAddress)
  headerBcc : Option (List MailAddress)
  subject : Option String
  contentType : Option ContentType
  parts : List MailPart
  htmlPart : Bool
  bodyHtml : Option String
  bodyText : Option String

/-- `mail_parser`, and the sealing of the attachments of a message with the passphrase and the
account key. -/
structure MailReaders where
  parse : Crypto.Bytes → Option ParsedMessage
  sealAttachments : ParsedMessage → Crypto.Bytes → Option String → Except String (List Json)

/-- The addresses of a header. -/
def headerAddresses (header : Option (List MailAddress)) : List String :=
  (header.getD []).filterMap MailAddress.address

/-! ## The text of a message -/

/-- `sanitize_display_name` -/
def sanitizeDisplayName (value : String) : String :=
  String.ofList ((trim (value.toList.filter fun c => !isControl c)).take 128)

/-- `PGP_MESSAGE_ARMOR` -/
def pgpMessageArmor : String := "-----BEGIN PGP MESSAGE-----"

/-- A content type, whatever the case of its letters. -/
def ContentType.isType (t : ContentType) (ctype subtype : String) : Bool :=
  sameAddress t.ctype ctype && t.subtype.any (sameAddress · subtype)

/-- `pgp_mime_armor` -/
def pgpMimeArmor (parsed : ParsedMessage) : Option String :=
  if parsed.contentType.any fun t => t.isType "multipart" "encrypted" then
    parsed.parts.findSome? fun part =>
      if part.contentType.any fun t => t.isType "application" "octet-stream" then
        ((Utf8.fromUtf8 part.contents).filter (Text.contains · pgpMessageArmor.toList)).map
          String.ofList
      else none
  else none

/-- `escape_html` -/
def escapeHtml (text : List Char) : List Char :=
  text.flatMap fun c => match c with
    | '&' => "&amp;".toList
    | '<' => "&lt;".toList
    | '>' => "&gt;".toList
    | '"' => "&quot;".toList
    | '\'' => "&#39;".toList
    | c => [c]

/-- `replace("\r\n", "\n")` -/
def joinCrLf : List Char → List Char
  | '\r' :: '\n' :: rest => '\n' :: joinCrLf rest
  | c :: rest => c :: joinCrLf rest
  | [] => []

/-- `plain_text_to_html_fragment` -/
def plainTextToHtmlFragment (text : String) : String :=
  "<div style=\"white-space: pre-wrap\">" ++
    String.ofList ((joinCrLf (escapeHtml text.toList)).flatMap fun c =>
      if c = '\n' then "<br>".toList else [c]) ++ "</div>"

/-- The HTML body that is sent. -/
def bodyHtml (parsed : ParsedMessage) : Option String :=
  if parsed.htmlPart then parsed.bodyHtml
  else
    (((pgpMimeArmor parsed).or parsed.bodyText).filter fun text => !(trimmed text).isEmpty).map
      plainTextToHtmlFragment

/-- The body that is sent, a blank where there is none. -/
def finalBody (parsed : ParsedMessage) : String :=
  let body := ((bodyHtml parsed).or parsed.bodyText).getD " "
  if (trimmed body).isEmpty then " " else body

/-! ## The recipients -/

/-- The lists of a payload, and its `bridge_self_to_placeholder`. -/
structure RecipientLists where
  toList : List String
  ccList : List String
  bccList : List String
  selfToPlaceholder : Option String

variable (T : CaseTables)

/-- A set of addresses in lower case has an address. -/
def inSet (addresses : List String) (address : String) : Bool :=
  addresses.any fun a => lowered T a == lowered T address

/-- `own_address` of the placeholder. -/
def ownAddress (identity : Option SenderIdentity) (sessionEmail : String) : String :=
  ((identity.filter fun i => i.kind != .primary).map fun i => i.address).getD sessionEmail

/-- `bcc_list` before the placeholder: the blind copies of the header, then the rest of the
envelope. -/
def bccList (parsed : ParsedMessage) (recipients : List String) : List String :=
  let toList := (headerAddresses parsed.headerTo).filter (inSet T recipients)
  let ccList := (headerAddresses parsed.headerCc).filter (inSet T recipients)
  let bccHeader := (headerAddresses parsed.headerBcc).filter (inSet T recipients)
  let rest := recipients.filter fun r => !inSet T (toList ++ ccList ++ bccHeader) r
  let bcc := bccHeader ++ rest
  if toList.isEmpty && ccList.isEmpty && bcc.isEmpty then bcc ++ recipients else bcc

/-- The lists that `build_send_payload_with_own_key` makes. -/
def recipientLists (parsed : ParsedMessage) (recipients : List String) (sessionEmail : String)
    (identity : Option SenderIdentity) : RecipientLists :=
  let toList := (headerAddresses parsed.headerTo).filter (inSet T recipients)
  let ccList := (headerAddresses parsed.headerCc).filter (inSet T recipients)
  let bcc := bccList T parsed recipients
  let customDomainSender := identity.any fun i => i.kind == .customDomain
  let sealedBccOnly := customDomainSender && (ccList ++ bcc).all (isInternalAddress T)
  if !toList.isEmpty then ⟨toList, ccList, bcc, none⟩
  else if sealedBccOnly then ⟨[], ccList, bcc, none⟩
  else
    let own := ownAddress identity sessionEmail
    let addressedSelf := (ccList ++ bcc).any (sameAddress · own)
    { toList := [own]
      ccList
      bccList := bcc.filter fun a => !sameAddress a own
      selfToPlaceholder := if customDomainSender && !addressedSelf then some own else none }

/-! ## The payload -/

/-- `json!` of a list that is `null` when it is empty. -/
def listOrNull (addresses : List String) : Json :=
  if addresses.isEmpty then .null else .strings addresses

/-- A member that is set only if there is a value. -/
def setSome (payload : Json) (name : String) (value : Option Json) : Json :=
  match value with
  | some v => payload.set name v
  | none => payload

/-- The display name of the From header. -/
def headerDisplayName (parsed : ParsedMessage) : Option String :=
  ((((parsed.sender.bind List.head?).bind MailAddress.name)).map sanitizeDisplayName).filter
    fun s => !s.isEmpty

/-- `build_send_payload_with_own_key` -/
def buildSendPayloadWithOwnKey (x : MailReaders) (rawMessage : Crypto.Bytes)
    (sender : Option String) (recipients : List String) (sessionEmail : String)
    (identity : Option SenderIdentity) (passphrase : Crypto.Bytes) (ownKey : Option String) :
    Except BridgeError Json :=
  match x.parse rawMessage with
  | none => .error (.smtp "failed to parse outbound message")
  | some parsed =>
      let lists := recipientLists T parsed recipients sessionEmail identity
      let nonPrimary := identity.filter fun i => i.kind != .primary
      let senderEmail := match nonPrimary with
        | some i => some i.address
        | none => sender.filter fun s => !s.isEmpty
      let displayName := match nonPrimary with
        | some i => i.displayName.or (headerDisplayName parsed)
        | none => headerDisplayName parsed
      let payload := Json.object [
        ("to", .strings lists.toList),
        ("cc", listOrNull lists.ccList),
        ("bcc", listOrNull lists.bccList),
        ("subject", .string (parsed.subject.getD "")),
        ("body", .string (finalBody parsed)),
        ("is_html", .bool (bodyHtml parsed).isSome),
        ("is_e2e_encrypted", .bool false),
        ("sender_email", .ofOption senderEmail),
        ("client_source", .string "bridge")]
      let payload := setSome payload selfToPlaceholder (lists.selfToPlaceholder.map Json.string)
      let payload := setSome payload "sender_alias_hash"
        ((nonPrimary.bind fun i => i.authHashB64).map Json.string)
      let payload := setSome payload "sender_display_name" (displayName.map Json.string)
      let payload := setSome payload "body_html" ((bodyHtml parsed).map Json.string)
      let attachments :=
        if (pgpMimeArmor parsed).isSome then .ok []
        else x.sealAttachments parsed passphrase ownKey
      match attachments with
      | .error e => .error (.smtp ("attachment sealing failed: " ++ e))
      | .ok [] => .ok payload
      | .ok list => .ok (payload.set "attachments" (.array list))

/-! ## Nobody is lost, and nobody is shown -/

section Lists

variable {T : CaseTables} {parsed : ParsedMessage} {recipients : List String}
  {sessionEmail : String} {identity : Option SenderIdentity} {a r : String}

theorem inSet_iff {addresses : List String} :
    inSet T addresses a = true ↔ ∃ b ∈ addresses, lowered T b = lowered T a := by
  simp [inSet]

/-- Every recipient of the envelope is in the header lists or in the blind copies. -/
theorem bccList_cover (hr : r ∈ recipients) :
    ∃ a ∈ (headerAddresses parsed.headerTo).filter (inSet T recipients) ++
      (headerAddresses parsed.headerCc).filter (inSet T recipients) ++
        bccList T parsed recipients, lowered T a = lowered T r := by
  -- the fallback adds to the blind copies, and removes nothing
  have hbcc : ∀ a, a ∈ (headerAddresses parsed.headerBcc).filter (inSet T recipients) ++
      recipients.filter (fun r => !inSet T
        ((headerAddresses parsed.headerTo).filter (inSet T recipients) ++
          (headerAddresses parsed.headerCc).filter (inSet T recipients) ++
          (headerAddresses parsed.headerBcc).filter (inSet T recipients)) r) →
      a ∈ bccList T parsed recipients := by
    intro a ha
    unfold bccList
    dsimp only
    split
    · exact List.mem_append_left _ ha
    · exact ha
  by_cases hknown : inSet T ((headerAddresses parsed.headerTo).filter (inSet T recipients) ++
      (headerAddresses parsed.headerCc).filter (inSet T recipients) ++
      (headerAddresses parsed.headerBcc).filter (inSet T recipients)) r = true
  · obtain ⟨a, ha, hlower⟩ := inSet_iff.1 hknown
    refine ⟨a, ?_, hlower⟩
    rcases List.mem_append.1 ha with hshown | hblind
    · exact List.mem_append_left _ hshown
    · exact List.mem_append_right _ (hbcc a (List.mem_append_left _ hblind))
  · refine ⟨r, List.mem_append_right _ (hbcc r (List.mem_append_right _ ?_)), rfl⟩
    exact List.mem_filter.2 ⟨hr, by simpa using hknown⟩

/-- The blind copies are recipients of the envelope. -/
theorem mem_bccList (h : a ∈ bccList T parsed recipients) :
    ∃ r ∈ recipients, lowered T r = lowered T a := by
  have hlist : ∀ a, a ∈ (headerAddresses parsed.headerBcc).filter (inSet T recipients) ++
      recipients.filter (fun r => !inSet T
        ((headerAddresses parsed.headerTo).filter (inSet T recipients) ++
          (headerAddresses parsed.headerCc).filter (inSet T recipients) ++
          (headerAddresses parsed.headerBcc).filter (inSet T recipients)) r) →
      ∃ r ∈ recipients, lowered T r = lowered T a := by
    intro a ha
    rcases List.mem_append.1 ha with hheader | hrest
    · exact inSet_iff.1 (List.mem_filter.1 hheader).2
    · exact ⟨a, (List.mem_filter.1 hrest).1, rfl⟩
  unfold bccList at h
  dsimp only at h
  split at h
  · rcases List.mem_append.1 h with hlisted | hall
    · exact hlist a hlisted
    · exact ⟨a, hall, rfl⟩
  · exact hlist a h

/-- Where the lists of a payload come from. -/
structure ListsKept (T : CaseTables) (parsed : ParsedMessage) (recipients : List String)
    (own : String) (toList ccList bccList : List String) : Prop where
  nobodyLost : ∀ r ∈ recipients, ∃ a ∈ toList ++ ccList ++ bccList, lowered T a = lowered T r
  nobodyAdded : ∀ a ∈ toList ++ ccList ++ bccList,
    (∃ r ∈ recipients, lowered T r = lowered T a) ∨ a = own
  nobodyShown : ∀ a ∈ toList ++ ccList,
    a ∈ headerAddresses parsed.headerTo ++ headerAddresses parsed.headerCc ∨ a = own

/-- The lists keep the envelope, and so does the payload whose placeholder is dropped. -/
theorem recipientLists_kept :
    let lists := recipientLists T parsed recipients sessionEmail identity
    let own := ownAddress identity sessionEmail
    ListsKept T parsed recipients own lists.toList lists.ccList lists.bccList ∧
      (lists.selfToPlaceholder.isSome = true →
        ListsKept T parsed recipients own [] lists.ccList lists.bccList) := by
  have hheader : ∀ {header a}, a ∈ (headerAddresses header).filter (inSet T recipients) →
      a ∈ headerAddresses header ∧ ∃ r ∈ recipients, lowered T r = lowered T a := fun ha =>
    ⟨(List.mem_filter.1 ha).1, inSet_iff.1 (List.mem_filter.1 ha).2⟩
  -- lists without a placeholder
  have hplain : ∀ toList, toList = (headerAddresses parsed.headerTo).filter (inSet T recipients) →
      ListsKept T parsed recipients (ownAddress identity sessionEmail) toList
        ((headerAddresses parsed.headerCc).filter (inSet T recipients))
        (bccList T parsed recipients) := by
    rintro toList rfl
    refine ⟨fun r hr => bccList_cover hr, fun a ha => Or.inl ?_, fun a ha => Or.inl ?_⟩
    · rcases List.mem_append.1 ha with hshown | hblind
      · rcases List.mem_append.1 hshown with hto | hcc
        · exact (hheader hto).2
        · exact (hheader hcc).2
      · exact mem_bccList hblind
    · rcases List.mem_append.1 ha with hto | hcc
      · exact List.mem_append_left _ (hheader hto).1
      · exact List.mem_append_right _ (hheader hcc).1
  intro lists own
  simp only [lists, own, recipientLists]
  split
  · exact ⟨hplain _ rfl, fun h => absurd h (by simp)⟩
  · rename_i hto
    have hempty : (headerAddresses parsed.headerTo).filter (inSet T recipients) = [] := by
      simpa using hto
    split
    · exact ⟨hplain [] hempty.symm, fun h => absurd h (by simp)⟩
    · -- the own address stands for itself in `to`, and is taken out of the blind copies
      have hcover : ∀ r ∈ recipients,
          ∃ a ∈ (headerAddresses parsed.headerCc).filter (inSet T recipients) ++
            bccList T parsed recipients, lowered T a = lowered T r := by
        intro r hr
        obtain ⟨a, ha, hlower⟩ := @bccList_cover T parsed recipients r hr
        rw [hempty, List.nil_append] at ha
        exact ⟨a, ha, hlower⟩
      have hadded : ∀ a ∈ (headerAddresses parsed.headerCc).filter (inSet T recipients) ++
          (bccList T parsed recipients).filter
            (fun a => !sameAddress a (ownAddress identity sessionEmail)),
          ∃ r ∈ recipients, lowered T r = lowered T a := by
        intro a ha
        rcases List.mem_append.1 ha with hcc | hblind
        · exact (hheader hcc).2
        · exact mem_bccList (List.mem_filter.1 hblind).1
      refine ⟨⟨fun r hr => ?_, fun a ha => ?_, fun a ha => ?_⟩, fun hplaceholder =>
        ⟨fun r hr => ?_, fun a ha => Or.inl (hadded a ha), fun a ha => ?_⟩⟩
      · obtain ⟨a, ha, hlower⟩ := hcover r hr
        rcases List.mem_append.1 ha with hcc | hblind
        · exact ⟨a, List.mem_append_left _ (List.mem_append_right _ hcc), hlower⟩
        · by_cases hown : sameAddress a (ownAddress identity sessionEmail) = true
          · refine ⟨ownAddress identity sessionEmail, by simp, ?_⟩
            rw [← lowered_of_sameAddress T hown, hlower]
          · exact ⟨a, List.mem_append_right _ (List.mem_filter.2 ⟨hblind, by simpa using hown⟩),
              hlower⟩
      · rw [List.append_assoc, List.singleton_append, List.mem_cons] at ha
        exact ha.elim Or.inr fun h => Or.inl (hadded a h)
      · rw [List.singleton_append, List.mem_cons] at ha
        exact ha.elim Or.inr fun h => Or.inl (List.mem_append_right _ (hheader h).1)
      · -- the placeholder is set only if nobody in the lists is the sender
        have hself : ((headerAddresses parsed.headerCc).filter (inSet T recipients) ++
            bccList T parsed recipients).any
              (sameAddress · (ownAddress identity sessionEmail)) = false := by
          by_contra hany
          rw [Bool.not_eq_false] at hany
          simp [hany] at hplaceholder
        obtain ⟨a, ha, hlower⟩ := hcover r hr
        have hother := List.any_eq_false.1 hself a ha
        refine ⟨a, ?_, hlower⟩
        rcases List.mem_append.1 ha with hcc | hblind
        · exact List.mem_append_left _ hcc
        · exact List.mem_append_right _ (List.mem_filter.2 ⟨hblind, by simpa using hother⟩)
      · exact Or.inl (List.mem_append_right _ (hheader (by simpa using ha)).1)

end Lists

section Members

variable {T : CaseTables} {x : MailReaders} {payload : Json}

theorem fieldTexts_strings {field : String} {texts : List String}
    (h : payload.get? field = some (.strings texts)) : fieldTexts payload field = texts := by
  simp only [fieldTexts, h, Option.bind_some, Json.strings, Json.asArray, Option.getD_some]
  rw [List.filterMap_map]
  exact List.filterMap_some

theorem fieldTexts_listOrNull {field : String} {texts : List String}
    (h : payload.get? field = some (listOrNull texts)) : fieldTexts payload field = texts := by
  unfold listOrNull at h
  split at h
  · rename_i hempty
    simp only [fieldTexts, h, Option.bind_some, Json.asArray, Option.getD_none, List.filterMap_nil]
    exact (List.isEmpty_iff.1 hempty).symm
  · exact fieldTexts_strings h

/-- A payload with the members that `recipientLists` gives. -/
structure HasLists (lists : RecipientLists) (placeholder : Option Json) (payload : Json) : Prop where
  object : payload.IsObject
  toMember : payload.get? "to" = some (.strings lists.toList)
  ccMember : payload.get? "cc" = some (listOrNull lists.ccList)
  bccMember : payload.get? "bcc" = some (listOrNull lists.bccList)
  selfMember : payload.get? selfToPlaceholder = placeholder

/-- The other members do not touch them. -/
theorem HasLists.set {lists : RecipientLists} {placeholder : Option Json}
    (h : HasLists lists placeholder payload) {name : String}
    (hname : name ∉ ["to", "cc", "bcc", selfToPlaceholder]) (v : Json) :
    HasLists lists placeholder (payload.set name v) := by
  simp only [List.mem_cons, List.not_mem_nil, or_false, not_or, ← ne_eq] at hname
  obtain ⟨hto, hcc, hbcc, hself⟩ := hname
  refine ⟨Json.isObject_set h.object name v, ?_, ?_, ?_, ?_⟩
  · rw [Json.get?_set h.object, if_neg hto.symm, h.toMember]
  · rw [Json.get?_set h.object, if_neg hcc.symm, h.ccMember]
  · rw [Json.get?_set h.object, if_neg hbcc.symm, h.bccMember]
  · rw [Json.get?_set h.object, if_neg hself.symm, h.selfMember]

theorem HasLists.optional {lists : RecipientLists} {placeholder : Option Json}
    (h : HasLists lists placeholder payload) {name : String}
    (hname : name ∉ ["to", "cc", "bcc", selfToPlaceholder]) (value : Option Json) :
    HasLists lists placeholder (setSome payload name value) := by
  cases value with
  | none => exact h
  | some v => exact h.set hname v

/-- The placeholder is a member of its own. -/
theorem HasLists.setSelf {lists : RecipientLists} (h : HasLists lists none payload)
    (value : Option Json) : HasLists lists value (setSome payload selfToPlaceholder value) := by
  cases value with
  | none => exact h
  | some v =>
      have hne : ∀ {name}, name ∈ ["to", "cc", "bcc"] → name ≠ selfToPlaceholder := by
        intro name hname
        rintro rfl
        exact absurd hname (by decide)
      refine ⟨Json.isObject_set h.object _ v, ?_, ?_, ?_, ?_⟩
      · exact (Json.get?_set h.object _ _ v).trans ((if_neg (hne (by simp))).trans h.toMember)
      · exact (Json.get?_set h.object _ _ v).trans ((if_neg (hne (by simp))).trans h.ccMember)
      · exact (Json.get?_set h.object _ _ v).trans ((if_neg (hne (by simp))).trans h.bccMember)
      · exact (Json.get?_set h.object _ _ v).trans (if_pos rfl)

/-- The lists of the payload are those of `recipientLists`. -/
theorem buildSendPayload_lists {rawMessage : Crypto.Bytes} {sender : Option String}
    {recipients : List String} {sessionEmail : String} {identity : Option SenderIdentity}
    {passphrase : Crypto.Bytes} {ownKey : Option String}
    (h : buildSendPayloadWithOwnKey T x rawMessage sender recipients sessionEmail identity passphrase
      ownKey = .ok payload) :
    ∃ parsed, x.parse rawMessage = some parsed ∧
      let lists := recipientLists T parsed recipients sessionEmail identity
      HasLists lists (lists.selfToPlaceholder.map Json.string) payload := by
  unfold buildSendPayloadWithOwnKey at h
  split at h
  · exact absurd h (by simp)
  · rename_i parsed hparsed
    refine ⟨parsed, hparsed, ?_⟩
    dsimp only at h ⊢
    generalize recipientLists T parsed recipients sessionEmail identity = lists at h ⊢
    have hlists : ∀ subject body isHtml e2e senderEmail client hash name html,
        HasLists lists (lists.selfToPlaceholder.map Json.string)
          (setSome (setSome (setSome (setSome (Json.object [
            ("to", .strings lists.toList), ("cc", listOrNull lists.ccList),
            ("bcc", listOrNull lists.bccList), ("subject", subject), ("body", body),
            ("is_html", isHtml), ("is_e2e_encrypted", e2e), ("sender_email", senderEmail),
            ("client_source", client)]) selfToPlaceholder (lists.selfToPlaceholder.map Json.string))
            "sender_alias_hash" hash) "sender_display_name" name) "body_html" html) := by
      intro subject body isHtml e2e senderEmail client hash name html
      apply HasLists.optional _ (by decide)
      apply HasLists.optional _ (by decide)
      apply HasLists.optional _ (by decide)
      apply HasLists.setSelf
      exact ⟨trivial, rfl, rfl, rfl, rfl⟩
    split at h
    · exact absurd h (by simp)
    · rw [← Except.ok.inj h]
      apply hlists
    · rw [← Except.ok.inj h]
      apply HasLists.set _ (by decide)
      apply hlists

theorem HasLists.texts {lists : RecipientLists} {placeholder : Option Json}
    (h : HasLists lists placeholder payload) : fieldTexts payload "to" = lists.toList ∧
      fieldTexts payload "cc" = lists.ccList ∧ fieldTexts payload "bcc" = lists.bccList :=
  ⟨fieldTexts_strings h.toMember, fieldTexts_listOrNull h.ccMember, fieldTexts_listOrNull h.bccMember⟩

end Members

/-- The recipients of a payload beside the envelope and the headers that it was built from. -/
def PayloadKept (T : CaseTables) (parsed : ParsedMessage) (recipients : List String) (own : String)
    (payload : Json) : Prop :=
  ListsKept T parsed recipients own (fieldTexts payload "to") (fieldTexts payload "cc")
    (fieldTexts payload "bcc")

/-- The payload after `seal_internal_body` has taken the placeholder out. -/
def afterPlaceholder (T : CaseTables) (payload : Json) (hosted : HostedRecipients) : Json :=
  match takeSelfToPlaceholder payload with
  | (payload, some own) => dropSealedSelfPlaceholder T payload own hosted
  | (payload, none) => payload

theorem fieldTexts_congr {p q : Json} {field : String} (h : p.get? field = q.get? field) :
    fieldTexts p field = fieldTexts q field := by
  rw [fieldTexts, fieldTexts, h]

theorem dropSealedSelfPlaceholder_cases (T : CaseTables) (payload : Json) (own : String)
    (hosted : HostedRecipients) :
    dropSealedSelfPlaceholder T payload own hosted = payload ∨
      dropSealedSelfPlaceholder T payload own hosted = payload.set "to" (.array []) := by
  unfold dropSealedSelfPlaceholder
  dsimp only
  generalize (_ && _ : Bool) = dropped
  cases dropped with
  | true => exact Or.inr rfl
  | false => exact Or.inl rfl

/-- Taking the placeholder out changes `to` alone, and empties it only where there was one. -/
theorem afterPlaceholder_texts (T : CaseTables) {payload : Json} (hosted : HostedRecipients)
    {lists : RecipientLists} (h : HasLists lists (lists.selfToPlaceholder.map Json.string) payload) :
    fieldTexts (afterPlaceholder T payload hosted) "cc" = lists.ccList ∧
      fieldTexts (afterPlaceholder T payload hosted) "bcc" = lists.bccList ∧
      (fieldTexts (afterPlaceholder T payload hosted) "to" = lists.toList ∨
        lists.selfToPlaceholder.isSome = true ∧
          fieldTexts (afterPlaceholder T payload hosted) "to" = []) := by
  obtain ⟨hto, hcc, hbcc⟩ := h.texts
  have hremove : ∀ field, field ≠ selfToPlaceholder →
      fieldTexts (payload.remove selfToPlaceholder) field = fieldTexts payload field :=
    fun field hne => fieldTexts_congr ((Json.get?_remove _ _).trans (if_neg hne))
  have hobject := Json.isObject_remove h.object selfToPlaceholder
  have htaken : ((payload.get? selfToPlaceholder).bind Json.asStr) = lists.selfToPlaceholder := by
    rw [h.selfMember]
    cases lists.selfToPlaceholder with
    | none => rfl
    | some own => rfl
  simp only [afterPlaceholder, takeSelfToPlaceholder, htaken]
  cases hself : lists.selfToPlaceholder with
  | none =>
      exact ⟨(hremove "cc" (by decide)).trans hcc, (hremove "bcc" (by decide)).trans hbcc,
        Or.inl ((hremove "to" (by decide)).trans hto)⟩
  | some own =>
      dsimp only
      rcases dropSealedSelfPlaceholder_cases T (payload.remove selfToPlaceholder) own hosted with
        hsame | hempty
      · rw [hsame]
        exact ⟨(hremove "cc" (by decide)).trans hcc, (hremove "bcc" (by decide)).trans hbcc,
          Or.inl ((hremove "to" (by decide)).trans hto)⟩
      · rw [hempty]
        have hset : ∀ field, field ≠ "to" → fieldTexts
            ((payload.remove selfToPlaceholder).set "to" (.array [])) field =
              fieldTexts (payload.remove selfToPlaceholder) field := fun field hne =>
          fieldTexts_congr ((Json.get?_set hobject _ _ _).trans (if_neg hne))
        refine ⟨(hset "cc" (by decide)).trans ((hremove "cc" (by decide)).trans hcc),
          (hset "bcc" (by decide)).trans ((hremove "bcc" (by decide)).trans hbcc), Or.inr ⟨rfl, ?_⟩⟩
        rw [fieldTexts, Json.get?_set hobject, if_pos rfl]
        rfl

/-- **Blind copies stay blind and nobody is lost.** The payload of a message keeps its envelope,
also after the placeholder is taken out, and shows no address beyond the headers and the
sender's own; and the bodies that are sealed for any payload keep its blind copies apart. -/
theorem blind_copies_stay_blind (T : CaseTables) :
    (∀ (x : MailReaders) (rawMessage : Crypto.Bytes) (sender : Option String)
      (recipients : List String) (sessionEmail : String) (identity : Option SenderIdentity)
      (passphrase : Crypto.Bytes) (ownKey : Option String) (payload : Json),
      buildSendPayloadWithOwnKey T x rawMessage sender recipients sessionEmail identity passphrase
        ownKey = .ok payload →
      ∃ parsed, x.parse rawMessage = some parsed ∧
        PayloadKept T parsed recipients (ownAddress identity sessionEmail) payload ∧
        ∀ hosted, PayloadKept T parsed recipients (ownAddress identity sessionEmail)
          (afterPlaceholder T payload hosted)) ∧
    ∀ (ρ : Type) (k : Sealer ρ) (payload : Json) (hosted : HostedRecipients)
      (route : String → SendRoute) (accountKey : String → Option String) (shared : SealedBody ρ)
      (bodies : List (String × SealedBody ρ)),
      sealSharedAndHidden T k
        (routedFor route accountKey (splitRecipientsWith T payload hosted).internal)
        (splitRecipientsWith T payload hosted).hidden = .ok (shared, bodies) →
      BlindCopiesKept T k payload hosted shared bodies := by
  refine ⟨fun x rawMessage sender recipients sessionEmail identity passphrase ownKey payload h => ?_,
    fun ρ k payload hosted route accountKey shared bodies => sealSharedAndHidden_kept⟩
  obtain ⟨parsed, hparsed, hlists⟩ := buildSendPayload_lists h
  obtain ⟨hkept, hdropped⟩ := @recipientLists_kept T parsed recipients sessionEmail identity
  refine ⟨parsed, hparsed, ?_, fun hosted => ?_⟩
  · obtain ⟨hto, hcc, hbcc⟩ := hlists.texts
    rw [PayloadKept, hto, hcc, hbcc]
    exact hkept
  · obtain ⟨hcc, hbcc, hto⟩ := afterPlaceholder_texts T hosted hlists
    rw [PayloadKept, hcc, hbcc]
    rcases hto with hto | ⟨hself, hto⟩
    · rw [hto]
      exact hkept
    · rw [hto]
      exact hdropped hself

end AsterBridge.Smtp
