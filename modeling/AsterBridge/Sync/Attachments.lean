import AsterBridge.Crypto.Attachment
import AsterBridge.Lib.Unicode

/-!
# Listed and stored attachments

The list of attachments that a sender wrote, how it is kept in the metadata of a cached message,
how the rows of the server are decrypted under it, and the table of stored parts.
-/

set_option autoImplicit false

namespace AsterBridge.Sync.Attachments

open AsterBridge.Lib AsterBridge.Lib.Text AsterBridge.Crypto.Attachment AsterBridge.Render

/-! ## The list of the sender -/

/-- `EnvelopeAttachment` -/
structure EnvelopeAttachment where
  seq : Option Int
  filename : Option String
  contentType : String
  contentId : Option String
  size : Option Int
  key : Option String
  sha256 : Option String
  isInline : Option Bool
  fromManifest : Bool
deriving DecidableEq

/-- `ATTACHMENT_PLACEHOLDER_NAME` -/
def attachmentPlaceholderName : String := "Attachment"

/-- `normalize_content_type` of the poller, whose text is trimmed. -/
def normalizeListedType (raw : Option String) : String :=
  match raw.filter (·.toList.contains '/') with
  | some s => toAsciiLowercase s
  | none => defaultAttachmentContentType

/-- A number that is not negative. -/
def nonNegative (v : Json) (key : String) : Option Int :=
  ((v.get? key).bind Json.asI64).filter (0 ≤ ·)

/-- An entry of a manifest, if it has a number and a key. -/
def manifestEntry (entry : Json) : Option EnvelopeAttachment :=
  (nonNegative entry "seq").bind fun seq =>
    (jsonTrimmedString entry "key").map fun key =>
      { seq := some seq
        filename := jsonTrimmedString entry "filename"
        contentType := normalizeListedType (jsonTrimmedString entry "content_type")
        contentId := jsonTrimmedString entry "content_id"
        size := nonNegative entry "size"
        key := some key
        sha256 := (jsonTrimmedString entry "sha256").map toAsciiLowercase
        isInline := some (((entry.get? "is_inline").bind Json.asBool).getD false)
        fromManifest := true }

/-- The loop of `parse_attachment_manifest`: the first entry of a number stays. -/
def addListed (listed : List EnvelopeAttachment) (e : EnvelopeAttachment) :
    List EnvelopeAttachment :=
  if listed.any (·.seq = e.seq) then listed else listed ++ [e]

/-- `sort_by_key` of the entries. -/
def sortListed (listed : List EnvelopeAttachment) : List EnvelopeAttachment :=
  listed.mergeSort fun a b => decide (a.seq.getD 0 ≤ b.seq.getD 0)

/-- `parse_attachment_manifest` -/
def parseAttachmentManifest (entries : List Json) : List EnvelopeAttachment :=
  sortListed ((entries.filterMap manifestEntry).foldl addListed [])

/-- An entry of `attachment_keys`. -/
def keysEntry (entry : Json) : Option EnvelopeAttachment :=
  match entry with
  | .object _ => some
      { seq := (entry.get? "seq").bind Json.asI64
        filename := jsonTrimmedString entry "filename"
        contentType := normalizeListedType (jsonTrimmedString entry "content_type")
        contentId := jsonTrimmedString entry "content_id"
        size := nonNegative entry "size"
        key := jsonTrimmedString entry "key"
        sha256 := none
        isInline := none
        fromManifest := false }
  | _ => none

/-- `parse_envelope_attachments` -/
def parseEnvelopeAttachments (v : Json) : List EnvelopeAttachment :=
  let listed := parseAttachmentManifest
    (((v.get? "attachment_manifest").bind Json.asArray).getD [])
  if listed ≠ [] then listed
  else
    let entries := (((v.get? "attachment_keys").bind Json.asArray).getD []).filterMap keysEntry
    let keyed := (entries.filter (·.seq.isSome)).foldl addListed []
    sortListed keyed ++ entries.filter (·.seq.isNone)

/-! ## The metadata -/

/-- A JSON object with the members that have a value. -/
def objectOf (members : List (String × Option Json)) : Json :=
  .object (members.filterMap fun m => m.2.map fun v => (m.1, v))

/-- `json!` of a number. -/
def jsonInt (n : Int) : Json := .number (toString n)

/-- `attachment_display_name` -/
def attachmentDisplayName (a : EnvelopeAttachment) : String :=
  a.filename.getD attachmentPlaceholderName

/-- The members of an entry of `attachment_meta_json`. -/
def attachmentMembers (a : EnvelopeAttachment) : List (String × Option Json) :=
  [("seq", a.seq.map jsonInt),
    ("name", some (.string (attachmentDisplayName a))),
    ("type", some (.string a.contentType)),
    ("size", a.size.map jsonInt),
    ("cid", a.contentId.map Json.string),
    ("key", a.key.map Json.string),
    ("sha256", a.sha256.map Json.string),
    ("inline", a.isInline.map Json.bool),
    ("listed", if a.fromManifest then some (.bool true) else none)]

/-- An entry of `attachment_meta_json`. -/
def attachmentMeta (a : EnvelopeAttachment) : Json := objectOf (attachmentMembers a)

/-- `attachment_meta_json` -/
def attachmentMetaJson (attachments : List EnvelopeAttachment) : Json :=
  .array (attachments.map attachmentMeta)

/-- An entry of `cached_attachment_entries`. -/
def cachedEntry (e : Json) : Option EnvelopeAttachment :=
  match e with
  | .object _ => some
      { seq := (e.get? "seq").bind Json.asI64
        filename := (jsonTrimmedString e "name").filter (· ≠ attachmentPlaceholderName)
        contentType := normalizeListedType (jsonTrimmedString e "type")
        contentId := jsonTrimmedString e "cid"
        size := nonNegative e "size"
        key := jsonTrimmedString e "key"
        sha256 := jsonTrimmedString e "sha256"
        isInline := (e.get? "inline").bind Json.asBool
        fromManifest := ((e.get? "listed").bind Json.asBool).getD false }
  | _ => none

/-- `cached_attachment_entries`, on the value of the raw headers. -/
def cachedAttachmentEntries (metadata : Json) : List EnvelopeAttachment :=
  (((metadata.get? "attachments").bind Json.asArray).getD []).filterMap cachedEntry

/-- `merge_attachment_meta` -/
def mergeAttachmentMeta (metadata : Json) (entries : List EnvelopeAttachment) (unsigned : Bool) :
    Json :=
  let metadata := match metadata with
    | .object members => Json.object members
    | _ => .object []
  let counted := (metadata.set "attachment_count" (jsonInt entries.length)).set "attachments"
    (attachmentMetaJson entries)
  if unsigned && !entries.isEmpty then counted.set "attachments_unverified" (.bool true)
  else counted

/-! ## Rows of the server -/

/-- `key_entry` -/
def keyEntry (a : EnvelopeAttachment) : AttachmentKeyEntry where
  key := a.key
  filename := a.filename
  contentType := some a.contentType
  contentId := a.contentId
  size := a.size
  sha256 := a.sha256
  isInline := a.isInline
  fromManifest := a.fromManifest

/-- `entry_for_row` -/
def entryForRow (entries : List EnvelopeAttachment) (seq : Int) (position : Nat) :
    Option EnvelopeAttachment :=
  (entries.find? (·.seq = some seq)).or
    (if entries.all (·.seq.isNone) then entries[position]? else none)

/-- `AttachmentFetchError` -/
inductive AttachmentFetchError where
  | transport (msg : String)
  | permanent (msg : String)
  | content (msg : String)
deriving DecidableEq

/-- `classify_decrypt_error` -/
def classifyDecryptError (e : BridgeError) : AttachmentFetchError :=
  match e with
  | .crypto _ => .permanent e.toText
  | other => .content other.toText

/-- The part that is stored for a decrypted row. -/
def storedPart (a : DecryptedAttachment) : CachedAttachment where
  seq := a.seq
  name := a.filename
  contentType := a.contentType
  contentId := a.contentId
  isInline := a.isInline || a.contentId.isSome
  size := a.data.length
  data := a.data

/-- The loop of `decrypt_listed_rows`. -/
def decryptRows (x : AttachmentCrates) (entries : List EnvelopeAttachment) :
    List CachedAttachment → List (AttachmentResponse × Nat) →
      Except AttachmentFetchError (List CachedAttachment)
  | out, [] => .ok out
  | out, (row, position) :: rows =>
      if out.any (·.seq = row.seqNum) then decryptRows x entries out rows
      else
        let entry := entryForRow entries row.seqNum position
        if entry.isNone && !entries.isEmpty then decryptRows x entries out rows
        else
          match decryptAttachment x row (entry.map keyEntry) with
          | .error e => .error (classifyDecryptError e)
          | .ok a => decryptRows x entries (out ++ [storedPart a]) rows

/-- `sort_by_key` of the parts, and `ORDER BY seq`. -/
def sortParts (parts : List CachedAttachment) : List CachedAttachment :=
  parts.mergeSort fun a b => decide (a.seq ≤ b.seq)

/-- `decrypt_listed_rows` -/
def decryptListedRows (x : AttachmentCrates) (rows : List AttachmentResponse)
    (entries : List EnvelopeAttachment) : Except AttachmentFetchError (List CachedAttachment) :=
  match decryptRows x entries [] rows.zipIdx with
  | .error e => .error e
  | .ok [] => .error (.permanent "no attachment row is listed in the message envelope")
  | .ok (a :: out) => .ok (sortParts (a :: out))

/-- `api_status_code` -/
def apiStatusCode (message : List Char) : Option Nat :=
  let token := (message.dropWhile isWhitespace).takeWhile fun c => !isWhitespace c
  if token = [] then none
  else parseUInt (2 ^ 16) (String.ofList (token.rdropWhile (· == ':')))

/-- `classify_api_error` -/
def classifyApiError (e : BridgeError) : AttachmentFetchError :=
  match e with
  | .network _ => .transport e.toText
  | .auth _ => .transport e.toText
  | .crypto _ => .permanent e.toText
  | .api message =>
      match apiStatusCode message.toList with
      | some status =>
          if status = 408 ∨ status = 425 ∨ status = 429 ∨ (500 ≤ status ∧ status < 600) then
            .transport e.toText
          else if status = 404 ∨ status = 410 then .permanent e.toText
          else .content e.toText
      | none => .content e.toText
  | other => .content other.toText

/-- What the server answers to a request for the attachments of a message. -/
abbrev Reply := Except BridgeError (List AttachmentResponse)

/-- `fetch_and_decrypt_attachments` -/
def fetchAndDecryptAttachments (x : AttachmentCrates) (reply : Reply)
    (entries : List EnvelopeAttachment) : Except AttachmentFetchError (List CachedAttachment) :=
  match reply with
  | .error e => .error (classifyApiError e)
  | .ok [] => .error (.permanent "server returned no attachment rows")
  | .ok rows => decryptListedRows x rows entries

/-! ## Stored parts -/

/-- The rows of `message_attachment` for a message, with its columns in `message_cache`. -/
structure Parts where
  state : AttachmentsState
  attachments : List CachedAttachment
  attempts : Nat

/-- A message without parts. -/
def Parts.none : Parts := ⟨.none, [], 0⟩

namespace Parts

/-- `replace_message_attachments`; two parts of one number break the key of the table. -/
def replaceMessageAttachments (p : Parts) (list : List CachedAttachment) : Parts :=
  if (list.map (·.seq)).Nodup then ⟨.stored, sortParts list, 0⟩ else p

/-- `store_on_demand_attachments` -/
def storeOnDemandAttachments (p : Parts) (parts : List CachedAttachment) : Option Parts :=
  if (parts.map (·.seq)).Nodup then
    some ⟨.onDemand, sortParts (parts.map fun a => { a with data := [] }), 0⟩
  else Option.none

/-- `fill_on_demand_attachments` -/
def fillOnDemandAttachments (p : Parts) (contents : List (Int × Bytes)) : Parts :=
  if p.state ≠ .onDemand then p
  else
    let filled := contents.foldl (fun parts c =>
      parts.map fun a => if a.seq = c.1 then { a with data := c.2 } else a) p.attachments
    ⟨.stored, filled, 0⟩

/-- `drop_attachment_parts` -/
def dropAttachmentParts (p : Parts) (state : AttachmentsState) : Parts :=
  ⟨state, [], p.attempts⟩

/-- `set_attachments_state` -/
def setAttachmentsState (p : Parts) (state : AttachmentsState) : Parts :=
  { p with state }

/-- `bump_attachment_attempts` -/
def bumpAttachmentAttempts (p : Parts) : Parts := { p with attempts := p.attempts + 1 }

end Parts

/-! ## Parts from the list -/

/-- The part of an entry that is not downloaded. -/
def describedPart (entry : EnvelopeAttachment) (seq : Int) : CachedAttachment where
  seq
  name := attachmentDisplayName entry
  contentType := entry.contentType
  contentId := entry.contentId
  isInline := entry.isInline.getD false || entry.contentId.isSome
  size := entry.size.getD 0
  data := []

/-- The loop of `on_demand_parts` over the entries. -/
def advertised : List CachedAttachment → List (EnvelopeAttachment × Nat) → List CachedAttachment
  | parts, [] => parts
  | parts, (entry, position) :: rest =>
      let seq := entry.seq.getD position
      if parts.any (·.seq = seq) then advertised parts rest
      else advertised (parts ++ [describedPart entry seq]) rest

/-- The smallest number from `next` on that no part has; `fuel` parts cannot have more. -/
def unusedSeq (parts : List CachedAttachment) : Nat → Int → Int
  | 0, next => next
  | fuel + 1, next =>
      if parts.any (·.seq = next) then unusedSeq parts fuel (next + 1) else next

/-- The parts of `on_demand_parts` that no entry describes. -/
def undescribed (parts : List CachedAttachment) : Nat → List CachedAttachment
  | 0 => parts
  | missing + 1 =>
      let seq := unusedSeq parts parts.length 0
      undescribed (parts ++
        [{ seq
           name := attachmentPlaceholderName
           contentType := defaultAttachmentContentType
           contentId := none
           isInline := false
           size := 0
           data := [] }]) missing

/-- `on_demand_parts` -/
def onDemandParts (entries : List EnvelopeAttachment) (count : Nat) : List CachedAttachment :=
  let parts := advertised [] entries.zipIdx
  sortParts (undescribed parts (count - parts.length))

/-- `stored_attachment_matches` -/
def storedAttachmentMatches (x : AttachmentCrates) (stored : CachedAttachment)
    (listed : EnvelopeAttachment) : Bool :=
  match listed.sha256 with
  | none => false
  | some expected =>
      listed.size.all (fun size => size = (stored.data.length : Int)) &&
        eqIgnoreAsciiCase expected.toList (sha256Hex x stored.data).toList

/-- `relabeled_attachment` -/
def relabeledAttachment (stored : CachedAttachment) (listed : EnvelopeAttachment) :
    CachedAttachment where
  seq := stored.seq
  name := listed.filename.getD (placeholderFilename stored.seq listed.contentType)
  contentType := listed.contentType
  contentId := listed.contentId
  isInline := listed.isInline.getD false || listed.contentId.isSome
  size := stored.data.length
  data := stored.data

/-- The stored part of an entry under its labels, if it is the one that is listed. -/
def verifiedPart (x : AttachmentCrates) (stored : List CachedAttachment)
    (entry : EnvelopeAttachment) : Option CachedAttachment :=
  ((stored.find? fun s => some s.seq = entry.seq).filter fun s =>
    storedAttachmentMatches x s entry).map fun s => relabeledAttachment s entry

/-- `reconcile_listed_attachments` -/
def reconcileListedAttachments (x : AttachmentCrates) (p : Parts)
    (listed : List EnvelopeAttachment) : Parts :=
  if p.state = .onDemand then
    (p.storeOnDemandAttachments (onDemandParts listed listed.length)).getD
      (p.dropAttachmentParts .pending)
  else
    let verified := if p.attachments.length = listed.length then
      listed.mapM (verifiedPart x p.attachments) else none
    match verified with
    | some list => p.replaceMessageAttachments list
    | none => (p.replaceMessageAttachments []).setAttachmentsState .pending

/-! ## Entries of a manifest -/

section Texts

/-- ASCII lower case keeps what trimming and the test for a media type look at. -/
theorem toLower_cases (c : Char) : c.toLower = c ∨ (c.toLower.toLower = c.toLower ∧
    isWhitespace c.toLower = isWhitespace c ∧ (c.toLower = '/' ↔ c = '/')) := by
  cases hc : c.isUpper with
  | false =>
      rw [Unicode.isUpper_eq, decide_eq_false_iff_not] at hc
      apply Or.inl
      unfold Char.toLower
      rw [dif_neg hc]
  | true =>
      have hlt : c.toNat < 0x80 := by
        rw [Unicode.isUpper_eq, decide_eq_true_eq] at hc
        exact Nat.lt_of_le_of_lt (UInt32.le_iff_toNat_le.1 hc.2) (by decide)
      exact Or.inr (Unicode.ascii_forall (P := fun c => c.toLower.toLower = c.toLower ∧
        isWhitespace c.toLower = isWhitespace c ∧ (c.toLower = '/' ↔ c = '/'))
          (by decide +kernel) hlt)

theorem toLower_toLower (c : Char) : c.toLower.toLower = c.toLower := by
  rcases toLower_cases c with h | h
  · rw [h, h]
  · exact h.1

theorem isWhitespace_toLower (c : Char) : isWhitespace c.toLower = isWhitespace c := by
  rcases toLower_cases c with h | h
  · rw [h]
  · exact h.2.1

/-- The text has no outer blanks and is not empty. -/
def Trimmed (s : String) : Prop := s ≠ "" ∧ trim s.toList = s.toList

theorem Trimmed.nonBlank {s : String} (h : Trimmed s) : nonBlank (some s) = some s := by
  have hself : trimmed s = s := by
    rw [trimmed, h.2, String.ofList_toList]
  rw [Crypto.Attachment.nonBlank, Option.map_some, hself, Option.filter_some,
    if_pos (decide_eq_true h.1)]

theorem trimmed_of_nonBlank {v : Option String} {s : String} (h : nonBlank v = some s) :
    Trimmed s := by
  obtain ⟨hmap, hne⟩ := Option.filter_eq_some_iff.1 h
  obtain ⟨t, -, rfl⟩ := Option.map_eq_some_iff.1 hmap
  refine ⟨of_decide_eq_true hne, ?_⟩
  rw [trimmed, String.toList_ofList, trim_trim]

/-- A field that was trimmed is read back as it is. -/
theorem nonBlank_nonBlank (v : Option String) : nonBlank (nonBlank v) = nonBlank v := by
  cases h : nonBlank v with
  | none => rfl
  | some s => exact (trimmed_of_nonBlank h).nonBlank

theorem toList_toAsciiLowercase (s : String) :
    (toAsciiLowercase s).toList = s.toList.map Char.toLower := String.toList_ofList

theorem Trimmed.toAsciiLowercase {s : String} (h : Trimmed s) :
    Trimmed (toAsciiLowercase s) := by
  have hne : trim s.toList ≠ [] := by
    rw [h.2]
    exact fun hnil => h.1 (String.toList_eq_nil_iff.1 hnil)
  obtain ⟨⟨c, hc, hcwhite⟩, d, hd, hdwhite⟩ := trim_ends hne
  rw [h.2] at hc hd hne
  constructor
  · intro hempty
    have hlist := toList_toAsciiLowercase s
    rw [hempty] at hlist
    exact hne (List.map_eq_nil_iff.1 hlist.symm)
  · rw [toList_toAsciiLowercase]
    apply trim_of_ends
    · exact ⟨c.toLower, by rw [List.head?_map, hc]; rfl, by rw [isWhitespace_toLower, hcwhite]⟩
    · exact ⟨d.toLower, by rw [List.getLast?_map, hd]; rfl, by rw [isWhitespace_toLower, hdwhite]⟩

theorem toAsciiLowercase_toAsciiLowercase (s : String) :
    toAsciiLowercase (toAsciiLowercase s) = toAsciiLowercase s := by
  rw [Crypto.Attachment.toAsciiLowercase, toList_toAsciiLowercase, List.map_map]
  have hsame : Char.toLower ∘ Char.toLower = Char.toLower := funext toLower_toLower
  rw [hsame]
  rfl

/-- A media type as it is listed: lower case, without outer blanks. -/
def MediaType (s : String) : Prop :=
  Trimmed s ∧ s.toList.contains '/' = true ∧ toAsciiLowercase s = s

theorem mediaType_normalizeListedType (v : Option String) :
    MediaType (normalizeListedType (nonBlank v)) := by
  unfold normalizeListedType
  cases h : (nonBlank v).filter (·.toList.contains '/') with
  | none =>
      have hdefault : trim defaultAttachmentContentType.toList =
          defaultAttachmentContentType.toList ∧
          toAsciiLowercase defaultAttachmentContentType = defaultAttachmentContentType := by
        decide +kernel
      exact ⟨⟨by decide, hdefault.1⟩, by decide +kernel, hdefault.2⟩
  | some s =>
      obtain ⟨hs, hslash⟩ := Option.filter_eq_some_iff.1 h
      refine ⟨(trimmed_of_nonBlank hs).toAsciiLowercase, ?_, toAsciiLowercase_toAsciiLowercase s⟩
      rw [toList_toAsciiLowercase, List.contains_iff_mem]
      exact List.mem_map.2 ⟨'/', List.contains_iff_mem.1 hslash, by decide⟩

theorem MediaType.normalizeListedType {s : String} (h : MediaType s) :
    normalizeListedType (some s) = s := by
  rw [Attachments.normalizeListedType, Option.filter_some, if_pos h.2.1]
  exact h.2.2

theorem MediaType.normalizeContentType {s : String} (h : MediaType s) :
    normalizeContentType (some s) = s := by
  have hself : trimmed s = s := by
    rw [trimmed, h.1.2, String.ofList_toList]
  rw [Crypto.Attachment.normalizeContentType, Option.map_some, hself, Option.filter_some, if_pos h.2.1]
  exact h.2.2

end Texts

/-- An entry as `parse_attachment_manifest` makes it. -/
structure Normal (e : EnvelopeAttachment) : Prop where
  seq : ∃ n : Int, e.seq = some n ∧ 0 ≤ n ∧ n < 2 ^ 63
  key : ∃ k, e.key = some k ∧ Trimmed k
  filename : ∀ f ∈ e.filename, Trimmed f
  contentType : MediaType e.contentType
  contentId : ∀ c ∈ e.contentId, Trimmed c
  size : ∀ n ∈ e.size, 0 ≤ n ∧ n < 2 ^ 63
  sha256 : ∀ h ∈ e.sha256, Trimmed h
  isInline : ∃ b, e.isInline = some b
  fromManifest : e.fromManifest = true

/-- A list as `parse_attachment_manifest` makes it: ordered by number, without repetitions. -/
structure Manifest (listed : List EnvelopeAttachment) : Prop where
  normal : ∀ e ∈ listed, Normal e
  ordered : listed.Pairwise fun a b => a.seq.getD 0 < b.seq.getD 0

section Entries

theorem asI64_bounds {v : Json} {n : Int} (h : v.asI64 = some n) (hn : 0 ≤ n) : n < 2 ^ 63 := by
  cases v with
  | number literal =>
      unfold Json.asI64 at h
      dsimp only at h
      split at h
      · obtain ⟨m, hm, rfl⟩ := Option.map_eq_some_iff.1 h
        obtain ⟨k, hk, hcast⟩ := Option.bind_eq_some_iff.1 hm
        cases Option.some.inj hcast
        omega
      · obtain ⟨m, hm, rfl⟩ := Option.map_eq_some_iff.1 h
        obtain ⟨k, hk, hcast⟩ := Option.bind_eq_some_iff.1 hm
        cases Option.some.inj hcast
        have hbound := of_decide_eq_true (Option.filter_eq_some_iff.1 hk).2
        omega
  | null => exact nomatch h
  | bool b => exact nomatch h
  | string s => exact nomatch h
  | array items => exact nomatch h
  | object members => exact nomatch h

theorem nonNegative_bounds {v : Json} {key : String} {n : Int} (h : nonNegative v key = some n) :
    0 ≤ n ∧ n < 2 ^ 63 := by
  obtain ⟨hbind, hpos⟩ := Option.filter_eq_some_iff.1 h
  have hn : 0 ≤ n := of_decide_eq_true hpos
  obtain ⟨w, -, hw⟩ := Option.bind_eq_some_iff.1 hbind
  exact ⟨hn, asI64_bounds hw hn⟩

theorem normal_manifestEntry {v : Json} {e : EnvelopeAttachment} (h : manifestEntry v = some e) :
    Normal e := by
  obtain ⟨seq, hseq, hmap⟩ := Option.bind_eq_some_iff.1 h
  obtain ⟨key, hkey, rfl⟩ := Option.map_eq_some_iff.1 hmap
  refine ⟨⟨seq, rfl, nonNegative_bounds hseq⟩, ⟨key, rfl, trimmed_of_nonBlank hkey⟩, ?_,
    mediaType_normalizeListedType _, ?_, ?_, ?_, ⟨_, rfl⟩, rfl⟩
  · exact fun f hf => trimmed_of_nonBlank (Option.mem_def.1 hf)
  · exact fun c hc => trimmed_of_nonBlank (Option.mem_def.1 hc)
  · exact fun n hn => nonNegative_bounds (Option.mem_def.1 hn)
  · intro s hs
    obtain ⟨t, ht, rfl⟩ := Option.map_eq_some_iff.1 (Option.mem_def.1 hs)
    exact (trimmed_of_nonBlank ht).toAsciiLowercase

theorem mem_foldl_addListed {e : EnvelopeAttachment} (new listed : List EnvelopeAttachment)
    (h : e ∈ new.foldl addListed listed) : e ∈ listed ∨ e ∈ new := by
  induction new generalizing listed with
  | nil => exact Or.inl h
  | cons f new ih =>
      rcases ih (addListed listed f) h with hold | hnew
      · unfold addListed at hold
        split at hold
        · exact Or.inl hold
        · rcases List.mem_append.1 hold with hold | hf
          · exact Or.inl hold
          · exact Or.inr (List.mem_singleton.1 hf ▸ List.mem_cons_self)
      · exact Or.inr (List.mem_cons_of_mem _ hnew)

theorem nodup_foldl_addListed (new listed : List EnvelopeAttachment)
    (h : (listed.map (·.seq)).Nodup) : ((new.foldl addListed listed).map (·.seq)).Nodup := by
  induction new generalizing listed with
  | nil => exact h
  | cons f new ih =>
      apply ih
      unfold addListed
      split
      · exact h
      · rename_i hnew
        rw [List.map_append, List.nodup_append]
        refine ⟨h, List.nodup_singleton _, ?_⟩
        rintro s hs t ht rfl
        obtain ⟨a, ha, has⟩ := List.mem_map.1 hs
        rw [List.map_singleton, List.mem_singleton] at ht
        exact hnew (List.any_eq_true.2 ⟨a, ha, decide_eq_true (has.trans ht)⟩)

/-- **What a manifest lists is in its normal form.** -/
theorem manifest_parse (entries : List Json) : Manifest (parseAttachmentManifest entries) := by
  have hnormal : ∀ e ∈ parseAttachmentManifest entries, Normal e := by
    intro e he
    have hmem := List.mem_mergeSort.1 he
    rcases mem_foldl_addListed _ _ hmem with hnil | hentry
    · exact absurd hnil List.not_mem_nil
    · obtain ⟨v, -, hv⟩ := List.mem_filterMap.1 hentry
      exact normal_manifestEntry hv
  refine ⟨hnormal, ?_⟩
  have hsorted : (parseAttachmentManifest entries).Pairwise
      fun a b => decide (a.seq.getD 0 ≤ b.seq.getD 0) = true := by
    apply List.pairwise_mergeSort
    · intro a b c hab hbc
      exact decide_eq_true ((of_decide_eq_true hab).trans (of_decide_eq_true hbc))
    · intro a b
      rw [Bool.or_eq_true, decide_eq_true_eq, decide_eq_true_eq]
      exact le_total _ _
  have hnodup : ((parseAttachmentManifest entries).map (·.seq)).Nodup := by
    have hperm := (List.mergeSort_perm ((entries.filterMap manifestEntry).foldl addListed [])
      fun a b => decide (a.seq.getD 0 ≤ b.seq.getD 0)).map (·.seq)
    exact hperm.nodup_iff.2 (nodup_foldl_addListed _ [] List.nodup_nil)
  have hboth := hsorted.and (List.pairwise_map.1 hnodup)
  refine hboth.imp_of_mem fun {a b} ha hb hab => ?_
  obtain ⟨n, hn, -⟩ := (hnormal a ha).seq
  obtain ⟨k, hk, -⟩ := (hnormal b hb).seq
  have hle := of_decide_eq_true hab.1
  have hne := hab.2
  rw [hn, hk] at hle hne ⊢
  exact lt_of_le_of_ne hle fun heq => hne (congrArg some heq)

theorem asI64_jsonInt {n : Int} (hn : 0 ≤ n) (hbound : n < 2 ^ 63) :
    (jsonInt n).asI64 = some n := by
  obtain ⟨k, rfl⟩ := Int.eq_ofNat_of_zero_le hn
  obtain ⟨c, cs, h, hminus, -⟩ := toDigits_head k
  have hlist : (toString (k : Int)).toList = c :: cs := by
    rw [← h]
    exact Nat.toList_repr
  have hparse := parseDigits_toDigits k
  rw [h] at hparse
  have hk : k < 2 ^ 63 := by omega
  simp only [jsonInt, Json.asI64, hlist]
  split
  · rename_i heq
    exact absurd (List.cons.inj heq).1 hminus
  · rw [hparse, Option.filter_some, if_pos (decide_eq_true hk)]
    rfl

theorem lookup_filterMap {members : List (String × Option Json)}
    (h : (members.map (·.1)).Nodup) {name : String} {v : Option Json} (hmem : (name, v) ∈ members) :
    (members.filterMap fun m => m.2.map fun w => (m.1, w)).lookup name = v := by
  induction members with
  | nil => exact absurd hmem List.not_mem_nil
  | cons m members ih =>
      obtain ⟨k, w⟩ := m
      rw [List.map_cons, List.nodup_cons] at h
      have hrest : k = name → (members.filterMap fun m =>
          m.2.map fun w => (m.1, w)).lookup name = none := by
        rintro rfl
        rw [List.lookup_eq_none_iff]
        intro p hp
        obtain ⟨m, hm, hmap⟩ := List.mem_filterMap.1 hp
        obtain ⟨u, -, rfl⟩ := Option.map_eq_some_iff.1 hmap
        exact bne_iff_ne.2 fun heq => h.1 (List.mem_map.2 ⟨m, hm, heq.symm⟩)
      rcases List.mem_cons.1 hmem with heq | htail
      · obtain ⟨rfl, rfl⟩ := Prod.mk.inj heq
        cases v with
        | none => exact hrest rfl
        | some u => exact List.lookup_cons_self
      · have hne : name ≠ k := fun heq =>
          h.1 (List.mem_map.2 ⟨(name, v), htail, heq⟩)
        have hbeq : (name == k) = false := beq_false_of_ne hne
        cases w with
        | none => exact ih h.2 htail
        | some u =>
            change ((k, u) :: members.filterMap fun m => m.2.map fun w => (m.1, w)).lookup name = v
            rw [List.lookup_cons, hbeq]
            exact ih h.2 htail

theorem get?_attachmentMeta {a : EnvelopeAttachment} {name : String} {v : Option Json}
    (h : (name, v) ∈ attachmentMembers a) : (attachmentMeta a).get? name = v :=
  lookup_filterMap (show ((attachmentMembers a).map (·.1)).Nodup from by
    change ["seq", "name", "type", "size", "cid", "key", "sha256", "inline", "listed"].Nodup
    decide) h

/-- The entry as it comes back from the metadata: the placeholder is no name. -/
def asCached (e : EnvelopeAttachment) : EnvelopeAttachment :=
  { e with filename := e.filename.filter (· ≠ attachmentPlaceholderName) }

theorem jsonTrimmedString_of {v : Json} {name : String} {s : Option String}
    (h : v.get? name = s.map Json.string) (hs : ∀ t ∈ s, Trimmed t) :
    jsonTrimmedString v name = s := by
  rw [jsonTrimmedString, h]
  cases s with
  | none => rfl
  | some t => exact (hs t rfl).nonBlank

/-- **The listing survives its cached form**, except for names that are the placeholder. -/
theorem cachedEntry_attachmentMeta {e : EnvelopeAttachment} (h : Normal e) :
    cachedEntry (attachmentMeta e) = some (asCached e) := by
  obtain ⟨seq, hseq, hseq0, hseqmax⟩ := h.seq
  obtain ⟨inline, hinline⟩ := h.isInline
  have hname : jsonTrimmedString (attachmentMeta e) "name" = some (attachmentDisplayName e) := by
    refine jsonTrimmedString_of (get?_attachmentMeta (by simp [attachmentMembers])) ?_
    intro t ht
    rw [← Option.some.inj ht]
    unfold attachmentDisplayName
    cases hf : e.filename with
    | none => exact ⟨by decide, by decide +kernel⟩
    | some f => exact h.filename f hf
  have hfilename : (some (attachmentDisplayName e)).filter (· ≠ attachmentPlaceholderName) =
      e.filename.filter (· ≠ attachmentPlaceholderName) := by
    unfold attachmentDisplayName
    cases e.filename with
    | none => decide
    | some f => rfl
  have htype : jsonTrimmedString (attachmentMeta e) "type" = some e.contentType :=
    jsonTrimmedString_of (get?_attachmentMeta (by simp [attachmentMembers]))
      fun t ht => Option.some.inj ht ▸ h.contentType.1
  have hcid : jsonTrimmedString (attachmentMeta e) "cid" = e.contentId :=
    jsonTrimmedString_of (get?_attachmentMeta (by simp [attachmentMembers])) h.contentId
  have hkey : jsonTrimmedString (attachmentMeta e) "key" = e.key := by
    obtain ⟨k, hk, htrim⟩ := h.key
    refine jsonTrimmedString_of (get?_attachmentMeta (by simp [attachmentMembers])) ?_
    exact fun t ht => Option.some.inj (hk.symm.trans ht) ▸ htrim
  have hsha : jsonTrimmedString (attachmentMeta e) "sha256" = e.sha256 :=
    jsonTrimmedString_of (get?_attachmentMeta (by simp [attachmentMembers])) h.sha256
  have hseq' : ((attachmentMeta e).get? "seq").bind Json.asI64 = e.seq := by
    rw [get?_attachmentMeta (v := e.seq.map jsonInt) (by simp [attachmentMembers]), hseq]
    exact asI64_jsonInt hseq0 hseqmax
  have hsize : nonNegative (attachmentMeta e) "size" = e.size := by
    rw [nonNegative, get?_attachmentMeta (v := e.size.map jsonInt) (by simp [attachmentMembers])]
    cases hs : e.size with
    | none => rfl
    | some n =>
        obtain ⟨h0, hmax⟩ := h.size n hs
        rw [Option.map_some, Option.bind_some, asI64_jsonInt h0 hmax, Option.filter_some,
          if_pos (decide_eq_true h0)]
  have hinline' : ((attachmentMeta e).get? "inline").bind Json.asBool = e.isInline := by
    rw [get?_attachmentMeta (v := e.isInline.map Json.bool) (by simp [attachmentMembers]), hinline]
    rfl
  have hlisted : (((attachmentMeta e).get? "listed").bind Json.asBool).getD false =
      e.fromManifest := by
    rw [get?_attachmentMeta (v := some (.bool true))
      (by simp [attachmentMembers, h.fromManifest]), h.fromManifest]
    rfl
  unfold cachedEntry attachmentMeta objectOf
  dsimp only
  change some _ = _
  refine congrArg some ?_
  change EnvelopeAttachment.mk (((attachmentMeta e).get? "seq").bind Json.asI64)
    ((jsonTrimmedString (attachmentMeta e) "name").filter (· ≠ attachmentPlaceholderName))
    (normalizeListedType (jsonTrimmedString (attachmentMeta e) "type"))
    (jsonTrimmedString (attachmentMeta e) "cid") (nonNegative (attachmentMeta e) "size")
    (jsonTrimmedString (attachmentMeta e) "key") (jsonTrimmedString (attachmentMeta e) "sha256")
    (((attachmentMeta e).get? "inline").bind Json.asBool)
    ((((attachmentMeta e).get? "listed").bind Json.asBool).getD false) = _
  rw [hseq', hname, hfilename, htype, h.contentType.normalizeListedType, hcid, hsize, hkey, hsha,
    hinline', hlisted]
  rfl

theorem cachedAttachmentEntries_meta {metadata : Json} {listed : List EnvelopeAttachment}
    (hmeta : metadata.get? "attachments" = some (attachmentMetaJson listed))
    (h : ∀ e ∈ listed, Normal e) : cachedAttachmentEntries metadata = listed.map asCached := by
  rw [cachedAttachmentEntries, hmeta]
  change (listed.map attachmentMeta).filterMap cachedEntry = _
  have hentry : ∀ e ∈ listed, (cachedEntry ∘ attachmentMeta) e = some (asCached e) :=
    fun e he => cachedEntry_attachmentMeta (h e he)
  rw [List.filterMap_map, List.filterMap_congr hentry, ← List.filterMap_eq_map]
  rfl

end Entries

/-! ## Exactly the listed parts -/

/-- A stored part is the one of the entry: its content has the listed size and hash, and it has
the labels of the entry. -/
structure IsPart (x : AttachmentCrates) (e : EnvelopeAttachment) (a : CachedAttachment) :
    Prop where
  size : a.size = a.data.length
  listedSize : ∀ n ∈ e.size, n = a.size
  sha256 : ∀ h ∈ e.sha256, eqIgnoreAsciiCase h.toList (sha256Hex x a.data).toList = true
  name : ∀ f ∈ e.filename, a.name = f
  contentType : a.contentType = e.contentType
  contentId : a.contentId = e.contentId
  isInline : some a.isInline = e.isInline

/-- **The stored parts are exactly the listed ones**, one for each entry, by their numbers. -/
structure StoredExactly (x : AttachmentCrates) (listed : List EnvelopeAttachment)
    (parts : List CachedAttachment) : Prop where
  numbers : parts.map (fun a => some a.seq) = listed.map (·.seq)
  parts : ∀ e ∈ listed, ∀ a ∈ parts, e.seq = some a.seq → IsPart x e a

/-- The sender shows every part with a content id inside the text. -/
def InlineMarked (listed : List EnvelopeAttachment) : Prop :=
  ∀ e ∈ listed, e.contentId.isSome = true → e.isInline = some true

/-- The rows have one of every entry. -/
def Covers (listed : List EnvelopeAttachment) (rows : List AttachmentResponse) : Prop :=
  ∀ e ∈ listed, ∃ row ∈ rows, e.seq = some row.seqNum

/-- A number stands once in the list. -/
theorem Manifest.eq_of_seq {listed : List EnvelopeAttachment} (h : Manifest listed)
    {e e' : EnvelopeAttachment} (he : e ∈ listed) (he' : e' ∈ listed) (hseq : e.seq = e'.seq) :
    e = e' := by
  have hnodup : (listed.map fun e => e.seq.getD 0).Nodup :=
    List.pairwise_map.2 (h.ordered.imp ne_of_lt)
  exact List.inj_on_of_nodup_map hnodup he he' (congrArg (·.getD 0) hseq)

section Rows

variable {x : AttachmentCrates} {entries : List EnvelopeAttachment}

/-- Parts in the order of their numbers, without repetitions. -/
def Numbered (parts : List CachedAttachment) : Prop := parts.Pairwise fun a b => a.seq < b.seq

theorem numbered_sortParts {parts : List CachedAttachment} (h : (parts.map (·.seq)).Nodup) :
    Numbered (sortParts parts) := by
  have hsorted : (sortParts parts).Pairwise fun a b => decide (a.seq ≤ b.seq) = true := by
    apply List.pairwise_mergeSort
    · intro a b c hab hbc
      exact decide_eq_true ((of_decide_eq_true hab).trans (of_decide_eq_true hbc))
    · intro a b
      rw [Bool.or_eq_true, decide_eq_true_eq, decide_eq_true_eq]
      exact le_total _ _
  have hnodup : ((sortParts parts).map (·.seq)).Nodup :=
    ((List.mergeSort_perm parts _).map (·.seq)).nodup_iff.2 h
  exact (hsorted.and (List.pairwise_map.1 hnodup)).imp fun {a b} hab =>
    lt_of_le_of_ne (of_decide_eq_true hab.1) hab.2

theorem mem_sortParts {parts : List CachedAttachment} {a : CachedAttachment} :
    a ∈ sortParts parts ↔ a ∈ parts := List.mem_mergeSort

theorem sortParts_of_numbered {parts : List CachedAttachment} (h : Numbered parts) :
    sortParts parts = parts :=
  List.mergeSort_of_pairwise (h.imp fun {a b} hab => decide_eq_true (le_of_lt hab))

theorem Numbered.nodup {parts : List CachedAttachment} (h : Numbered parts) :
    (parts.map (·.seq)).Nodup :=
  List.pairwise_map.2 (h.imp fun {a b} hab => ne_of_lt hab)

/-- Numbers in order are those of the list, if they are the same numbers. -/
theorem numbers_of_mem {listed : List EnvelopeAttachment} {parts : List CachedAttachment}
    (hlisted : Manifest listed) (hparts : Numbered parts)
    (hmem : ∀ n : Int, (∃ a ∈ parts, a.seq = n) ↔ ∃ e ∈ listed, e.seq = some n) :
    parts.map (fun a => some a.seq) = listed.map (·.seq) := by
  have hseq : ∀ e ∈ listed, e.seq = some (e.seq.getD 0) := by
    intro e he
    obtain ⟨n, hn, -⟩ := (hlisted.normal e he).seq
    rw [hn]
    rfl
  have hmem' : ∀ n, n ∈ parts.map (·.seq) ↔ n ∈ listed.map fun e => e.seq.getD 0 := by
    intro n
    rw [List.mem_map, hmem, List.mem_map]
    constructor
    · rintro ⟨e, he, hn⟩
      exact ⟨e, he, by rw [hn]; rfl⟩
    · rintro ⟨e, he, rfl⟩
      exact ⟨e, he, hseq e he⟩
  have hlt : (listed.map fun e => e.seq.getD 0).Pairwise (· < ·) :=
    List.pairwise_map.2 hlisted.ordered
  have hlt' : (parts.map (·.seq)).Pairwise (· < ·) := List.pairwise_map.2 hparts
  have hperm := (List.perm_ext_iff_of_nodup (hlt'.imp ne_of_lt) (hlt.imp ne_of_lt)).2 hmem'
  have heq := hperm.eq_of_pairwise (fun a b _ _ hab hba => absurd hab (lt_asymm hba)) hlt' hlt
  have hsome : listed.map (·.seq) = (listed.map fun e => e.seq.getD 0).map some := by
    rw [List.map_map]
    exact List.map_congr_left hseq
  rw [hsome, ← heq, List.map_map]
  rfl

theorem isPart_of_listed {e : EnvelopeAttachment} {a : DecryptedAttachment} (hnormal : Normal e)
    (hinline : e.contentId.isSome = true → e.isInline = some true)
    (h : Listed x (keyEntry e) a) : IsPart x e (storedPart a) := by
  obtain ⟨b, hb⟩ := hnormal.isInline
  have hcid : a.contentId = e.contentId := by
    rw [h.contentId]
    change e.contentId.filter _ = _
    cases hc : e.contentId with
    | none => rfl
    | some c =>
        obtain ⟨hne, htrim⟩ := hnormal.contentId c hc
        rw [Option.filter_some, if_pos]
        rw [htrim]
        exact decide_eq_true fun hnil => hne (String.toList_eq_nil_iff.1 hnil)
  refine ⟨rfl, h.size, ?_, ?_, ?_, hcid, ?_⟩
  · intro s hs
    have hsha := h.sha256 s hs
    rwa [(hnormal.sha256 s hs).2] at hsha
  · intro f hf
    change a.filename = f
    rw [h.filename]
    change (nonBlank e.filename).getD _ = f
    rw [Option.mem_def.1 hf, (hnormal.filename f hf).nonBlank]
    rfl
  · change a.contentType = e.contentType
    rw [h.contentType]
    change normalizeContentType ((some e.contentType).filter _) = _
    rw [Option.filter_some, if_pos hnormal.contentType.2.1]
    exact hnormal.contentType.normalizeContentType
  · change some (a.isInline || a.contentId.isSome) = e.isInline
    rw [h.isInline, hcid]
    change some (e.isInline.getD false || e.contentId.isSome) = e.isInline
    cases hc : e.contentId.isSome with
    | true => rw [hinline hc]; rfl
    | false => rw [hb]; simp

theorem entryForRow_manifest (hm : Manifest entries) (hne : entries ≠ []) (seq : Int)
    (position : Nat) : entryForRow entries seq position = entries.find? (·.seq = some seq) := by
  have hall : entries.all (·.seq.isNone) = false := by
    obtain ⟨e, rest, rfl⟩ := List.exists_cons_of_ne_nil hne
    obtain ⟨n, hn, -⟩ := (hm.normal e List.mem_cons_self).seq
    rw [List.all_cons, hn]
    rfl
  rw [entryForRow, hall]
  exact Option.or_none

/-- What the loop over the rows adds to the parts. -/
structure Decrypted (x : AttachmentCrates) (entries : List EnvelopeAttachment)
    (out out' : List CachedAttachment) (rows : List (AttachmentResponse × Nat)) : Prop where
  nodup : (out'.map (·.seq)).Nodup
  kept : ∀ a ∈ out, a ∈ out'
  parts : ∀ a ∈ out', a ∈ out ∨ ∃ e ∈ entries, e.seq = some a.seq ∧ IsPart x e a
  covered : ∀ r ∈ rows, (∃ e ∈ entries, e.seq = some r.1.seqNum) → ∃ a ∈ out', a.seq = r.1.seqNum

theorem decrypted_decryptRows (hm : Manifest entries) (hne : entries ≠ [])
    (hinline : InlineMarked entries) (rows : List (AttachmentResponse × Nat))
    (out out' : List CachedAttachment) (hnodup : (out.map (·.seq)).Nodup)
    (h : decryptRows x entries out rows = .ok out') : Decrypted x entries out out' rows := by
  induction rows generalizing out with
  | nil =>
      cases Except.ok.inj h
      exact ⟨hnodup, fun _ ha => ha, fun _ ha => Or.inl ha, fun _ hr => absurd hr List.not_mem_nil⟩
  | cons r rows ih =>
      obtain ⟨row, position⟩ := r
      rw [decryptRows] at h
      split at h
      · rename_i hold
        have hrest := ih out hnodup h
        refine ⟨hrest.nodup, hrest.kept, hrest.parts, fun r hr hentry => ?_⟩
        rcases List.mem_cons.1 hr with rfl | hr
        · obtain ⟨a, ha, hseq⟩ := List.any_eq_true.1 hold
          exact ⟨a, hrest.kept a ha, of_decide_eq_true hseq⟩
        · exact hrest.covered r hr hentry
      · rename_i hnew
        dsimp only at h
        rw [entryForRow_manifest hm hne] at h
        cases hfind : entries.find? (·.seq = some row.seqNum) with
        | none =>
            have hempty : (!entries.isEmpty) = true := by
              rw [Bool.not_eq_true', List.isEmpty_eq_false_iff]
              exact hne
            rw [hfind, if_pos (by rw [hempty]; rfl)] at h
            have hrest := ih out hnodup h
            refine ⟨hrest.nodup, hrest.kept, hrest.parts, fun r hr hentry => ?_⟩
            rcases List.mem_cons.1 hr with rfl | hr
            · obtain ⟨e, he, hseq⟩ := hentry
              exact absurd (decide_eq_true hseq) (List.find?_eq_none.1 hfind e he)
            · exact hrest.covered r hr hentry
        | some e =>
            have he := List.mem_of_find?_eq_some hfind
            have hseq : e.seq = some row.seqNum := by simpa using List.find?_some hfind
            rw [hfind, if_neg (by simp)] at h
            split at h
            · exact nomatch h
            · rename_i a ha
              obtain ⟨haseq, hlisted⟩ := decryptAttachment_listed (e := keyEntry e)
                (hm.normal e he).fromManifest ha
              have hpart := isPart_of_listed (hm.normal e he) (hinline e he) hlisted
              have hfresh : ((out ++ [storedPart a]).map (·.seq)).Nodup := by
                rw [List.map_append, List.nodup_append]
                refine ⟨hnodup, List.nodup_singleton _, ?_⟩
                rintro s hs t ht rfl
                obtain ⟨b, hb, hbs⟩ := List.mem_map.1 hs
                rw [List.map_singleton, List.mem_singleton] at ht
                exact hnew (List.any_eq_true.2
                  ⟨b, hb, decide_eq_true (hbs.trans (ht.trans haseq))⟩)
              have hrest := ih _ hfresh h
              have hkept := hrest.kept (storedPart a) (by simp)
              refine ⟨hrest.nodup, fun b hb => hrest.kept b (by simp [hb]), fun b hb => ?_,
                fun r hr hentry => ?_⟩
              · rcases hrest.parts b hb with hold | hentry
                · rcases List.mem_append.1 hold with hold | hnew
                  · exact Or.inl hold
                  · rw [List.mem_singleton.1 hnew]
                    exact Or.inr ⟨e, he, hseq.trans (congrArg some haseq.symm), hpart⟩
                · exact Or.inr hentry
              · rcases List.mem_cons.1 hr with rfl | hr
                · exact ⟨_, hkept, haseq⟩
                · exact hrest.covered r hr hentry

/-- **Rows that cover the list are decrypted into exactly the listed parts.** -/
theorem decryptListedRows_exact {rows : List AttachmentResponse} {parts : List CachedAttachment}
    (hm : Manifest entries) (hne : entries ≠ []) (hinline : InlineMarked entries)
    (hcover : Covers entries rows) (h : decryptListedRows x rows entries = .ok parts) :
    StoredExactly x entries parts ∧ Numbered parts := by
  unfold decryptListedRows at h
  split at h
  · exact nomatch h
  · exact nomatch h
  · rename_i a out hrows
    cases Except.ok.inj h
    have hdecrypted := decrypted_decryptRows hm hne hinline _ [] _ List.nodup_nil hrows
    have hlisted : ∀ b ∈ a :: out, ∃ e ∈ entries, e.seq = some b.seq ∧ IsPart x e b :=
      fun b hb => (hdecrypted.parts b hb).resolve_left List.not_mem_nil
    have hnumbered := numbered_sortParts hdecrypted.nodup
    refine ⟨⟨numbers_of_mem hm hnumbered fun n => ⟨?_, ?_⟩, fun e he b hb hseq => ?_⟩, hnumbered⟩
    · rintro ⟨b, hb, rfl⟩
      obtain ⟨e, he, hseq, -⟩ := hlisted b (mem_sortParts.1 hb)
      exact ⟨e, he, hseq⟩
    · rintro ⟨e, he, hn⟩
      obtain ⟨row, hrow, hseq⟩ := hcover e he
      obtain ⟨i, hi⟩ := List.mem_iff_getElem?.1 hrow
      have hzip : (row, i) ∈ rows.zipIdx := List.mem_zipIdx_iff_getElem?.2 hi
      obtain ⟨b, hb, hbseq⟩ := hdecrypted.covered _ hzip ⟨e, he, hseq⟩
      exact ⟨b, mem_sortParts.2 hb, hbseq.trans (Option.some.inj (hseq.symm.trans hn))⟩
    · obtain ⟨e', he', hseq', hpart⟩ := hlisted b (mem_sortParts.1 hb)
      rw [hm.eq_of_seq he he' (hseq.trans hseq'.symm)]
      exact hpart

end Rows

/-! ## Parts on demand -/

/-- A part that is not downloaded has the labels of its entry. -/
structure Labeled (e : EnvelopeAttachment) (a : CachedAttachment) : Prop where
  name : a.name = attachmentDisplayName e
  contentType : a.contentType = e.contentType
  contentId : a.contentId = e.contentId
  isInline : a.isInline = (e.isInline.getD false || e.contentId.isSome)

/-- The parts advertise the list: each entry has a part, and only one has its number. -/
structure Advertised (listed : List EnvelopeAttachment) (parts : List CachedAttachment) :
    Prop where
  numbered : Numbered parts
  covered : ∀ e ∈ listed, ∃ a ∈ parts, e.seq = some a.seq ∧ Labeled e a

section OnDemand

variable {x : AttachmentCrates} {listed : List EnvelopeAttachment}

theorem Numbered.eq_of_seq {parts : List CachedAttachment} (h : Numbered parts)
    {a b : CachedAttachment} (ha : a ∈ parts) (hb : b ∈ parts) (hseq : a.seq = b.seq) : a = b :=
  List.inj_on_of_nodup_map h.nodup ha hb hseq

theorem Advertised.labeled {parts : List CachedAttachment} (h : Advertised listed parts)
    {e : EnvelopeAttachment} {a : CachedAttachment} (he : e ∈ listed) (ha : a ∈ parts)
    (hseq : e.seq = some a.seq) : Labeled e a := by
  obtain ⟨b, hb, hbseq, hlabels⟩ := h.covered e he
  rw [h.numbered.eq_of_seq ha hb (Option.some.inj (hseq.symm.trans hbseq))]
  exact hlabels

theorem covered_advertised (rest : List (EnvelopeAttachment × Nat)) (out : List CachedAttachment)
    (hseq : ∀ r ∈ rest, ∃ n, r.1.seq = some n)
    (hfresh : ∀ r ∈ rest, ∀ a ∈ out, r.1.seq ≠ some a.seq)
    (hnodup : rest.Pairwise fun r s => r.1.seq ≠ s.1.seq) :
    (∀ a ∈ out, a ∈ advertised out rest) ∧
      ∀ r ∈ rest, ∃ a ∈ advertised out rest, r.1.seq = some a.seq ∧ Labeled r.1 a := by
  induction rest generalizing out with
  | nil => exact ⟨fun _ ha => ha, fun _ hr => absurd hr List.not_mem_nil⟩
  | cons r rest ih =>
      obtain ⟨e, position⟩ := r
      obtain ⟨n, hn⟩ := hseq _ List.mem_cons_self
      have hn : e.seq = some n := hn
      have hnew : out.any (·.seq = e.seq.getD position) = false := by
        rw [List.any_eq_false]
        intro a ha heq
        have heq : a.seq = n := by simpa [hn] using heq
        exact hfresh _ List.mem_cons_self a ha (hn.trans (congrArg some heq.symm))
      rw [List.pairwise_cons] at hnodup
      have hnumber : e.seq.getD position = n := by rw [hn]; rfl
      rw [advertised, hnew, if_neg Bool.false_ne_true, hnumber]
      have hfresh' : ∀ s ∈ rest, ∀ a ∈ out ++ [describedPart e n], s.1.seq ≠ some a.seq := by
        intro s hs a ha
        rcases List.mem_append.1 ha with hold | hadded
        · exact hfresh s (List.mem_cons_of_mem _ hs) a hold
        · rw [List.mem_singleton.1 hadded]
          exact fun heq => hnodup.1 s hs (hn.trans heq.symm)
      obtain ⟨hkept, hcovered⟩ := ih (out ++ [describedPart e n])
        (fun s hs => hseq s (List.mem_cons_of_mem _ hs)) hfresh' hnodup.2
      refine ⟨fun a ha => hkept a (List.mem_append_left _ ha), fun s hs => ?_⟩
      rcases List.mem_cons.1 hs with rfl | hs
      · exact ⟨_, hkept _ (List.mem_append_right _ (List.mem_singleton_self _)), hn,
          ⟨rfl, rfl, rfl, rfl⟩⟩
      · exact hcovered s hs

theorem mem_undescribed (missing : Nat) {parts : List CachedAttachment} {a : CachedAttachment}
    (h : a ∈ parts) : a ∈ undescribed parts missing := by
  induction missing generalizing parts with
  | zero => exact h
  | succ missing ih => exact ih (List.mem_append_left _ h)

/-- **The parts on demand advertise the list.** -/
theorem advertised_storeOnDemand (hm : Manifest listed) (count : Nat) {p p' : Parts}
    (h : p.storeOnDemandAttachments (onDemandParts listed count) = some p') :
    p'.state = .onDemand ∧ Advertised listed p'.attachments := by
  unfold Parts.storeOnDemandAttachments at h
  split at h
  · rename_i hnodup
    cases Option.some.inj h
    refine ⟨rfl, ?_, fun e he => ?_⟩
    · apply numbered_sortParts
      rw [List.map_map]
      exact hnodup
    · have hzip : ∀ r ∈ listed.zipIdx, r.1 ∈ listed := fun r hr => by
        obtain ⟨f, i⟩ := r
        exact List.mem_of_getElem? (List.mem_zipIdx_iff_getElem?.1 hr)
      have hordered : listed.zipIdx.Pairwise fun r s => r.1.seq ≠ s.1.seq := by
        have hmap : (listed.zipIdx.map Prod.fst).Pairwise fun e f => e.seq ≠ f.seq := by
          rw [List.zipIdx_map_fst]
          exact hm.ordered.imp fun {a b} hab heq => absurd (heq ▸ hab) (lt_irrefl _)
        exact (@List.pairwise_map _ _ Prod.fst (fun e f : EnvelopeAttachment => e.seq ≠ f.seq) _).1
          hmap
      obtain ⟨-, hcovered⟩ := covered_advertised listed.zipIdx []
        (fun r hr => (hm.normal r.1 (hzip r hr)).seq.imp fun n hn => hn.1)
        (fun r _ a ha => absurd ha List.not_mem_nil) hordered
      obtain ⟨i, hi⟩ := List.mem_iff_getElem?.1 he
      obtain ⟨a, ha, hseq, hlabels⟩ := hcovered (e, i) (List.mem_zipIdx_iff_getElem?.2 hi)
      refine ⟨{ a with data := [] }, mem_sortParts.2 (List.mem_map.2 ⟨a, ?_, rfl⟩), hseq,
        ⟨hlabels.name, hlabels.contentType, hlabels.contentId, hlabels.isInline⟩⟩
      exact mem_sortParts.2 (mem_undescribed _ ha)
  · exact nomatch h

/-- The content of a number, once all of it is written. -/
theorem filled_eq (contents : List (Int × Bytes)) (h : (contents.map Prod.fst).Nodup)
    (a : CachedAttachment) :
    contents.foldl (fun a c => if a.seq = c.1 then { a with data := c.2 } else a) a =
      { a with data := (contents.lookup a.seq).getD a.data } := by
  induction contents generalizing a with
  | nil => rfl
  | cons c contents ih =>
      obtain ⟨n, data⟩ := c
      rw [List.map_cons, List.nodup_cons] at h
      rw [List.foldl_cons, List.lookup_cons]
      by_cases hn : a.seq = n
      · have hnone : contents.lookup a.seq = none := by
          rw [List.lookup_eq_none_iff]
          intro c hc
          exact bne_iff_ne.2 fun heq => h.1 (List.mem_map.2 ⟨c, hc, heq.symm.trans hn⟩)
        dsimp only
        rw [if_pos hn, ih h.2, hn, beq_self_eq_true]
        dsimp only
        rw [← hn, hnone]
        rfl
      · rw [if_neg hn, ih h.2, beq_false_of_ne hn]

theorem fillOnDemandAttachments_eq {p : Parts} (hstate : p.state = .onDemand)
    (contents : List (Int × Bytes)) (h : (contents.map Prod.fst).Nodup) :
    p.fillOnDemandAttachments contents = ⟨.stored, p.attachments.map fun a =>
      { a with data := (contents.lookup a.seq).getD a.data }, 0⟩ := by
  have hmap : ∀ (contents : List (Int × Bytes)) (parts : List CachedAttachment),
      contents.foldl (fun parts c =>
        parts.map fun a => if a.seq = c.1 then { a with data := c.2 } else a) parts =
        parts.map fun a =>
          contents.foldl (fun a c => if a.seq = c.1 then { a with data := c.2 } else a) a := by
    intro contents
    induction contents with
    | nil => exact fun parts => (List.map_id' parts).symm
    | cons c contents ih =>
        intro parts
        rw [List.foldl_cons, ih, List.map_map]
        rfl
  rw [Parts.fillOnDemandAttachments, if_neg (fun hne => hne hstate)]
  dsimp only
  rw [hmap, List.map_congr_left fun a _ => filled_eq contents h a]

/-- `same_shape` -/
def sameShape (advertised fetched : List CachedAttachment) : Bool :=
  advertised.length == fetched.length &&
    (advertised.zip fetched).all fun (a, f) => a.seq == f.seq && a.size == (f.data.length : Int)

/-- What `fill` writes of the parts that it has fetched. -/
def contentsOf (fetched : List CachedAttachment) : List (Int × Bytes) :=
  fetched.map fun a => (a.seq, a.data)

theorem sameShape_spec {parts fetched : List CachedAttachment} (h : sameShape parts fetched = true) :
    parts.map (·.seq) = fetched.map (·.seq) ∧
      ∀ a ∈ parts, ∃ f ∈ fetched, a.seq = f.seq ∧ a.size = f.data.length := by
  unfold sameShape at h
  induction parts generalizing fetched with
  | nil =>
      cases fetched with
      | nil => exact ⟨rfl, fun _ ha => absurd ha List.not_mem_nil⟩
      | cons f fetched => exact absurd h (by simp)
  | cons a parts ih =>
      cases fetched with
      | nil => exact absurd h (by simp)
      | cons f fetched =>
          simp only [List.length_cons, List.zip_cons_cons, List.all_cons, Bool.and_eq_true,
            beq_iff_eq, Nat.add_right_cancel_iff] at h ih
          obtain ⟨hlen, ⟨hseq, hsize⟩, hrest⟩ := h
          obtain ⟨hmap, hmem⟩ := ih ⟨hlen, hrest⟩
          refine ⟨by rw [List.map_cons, List.map_cons, hseq, hmap], fun b hb => ?_⟩
          rcases List.mem_cons.1 hb with rfl | hb
          · exact ⟨f, List.mem_cons_self, hseq, hsize⟩
          · obtain ⟨g, hg, hb⟩ := hmem b hb
            exact ⟨g, List.mem_cons_of_mem _ hg, hb⟩

/-- **A fill of the advertised shape stores exactly the listed parts.** -/
theorem exact_fillOnDemand {p : Parts} {fetched : List CachedAttachment}
    (hm : Manifest listed) (hinline : InlineMarked listed) (hstate : p.state = .onDemand)
    (hadvertised : Advertised listed p.attachments) (hshape : sameShape p.attachments fetched = true)
    (hfetched : StoredExactly x listed fetched) (hnumbered : Numbered fetched) :
    StoredExactly x listed (p.fillOnDemandAttachments (contentsOf fetched)).attachments := by
  obtain ⟨hseqs, hsizes⟩ := sameShape_spec hshape
  have hcontents : (contentsOf fetched).map Prod.fst = fetched.map (·.seq) := List.map_map
  have hlookup : ∀ f ∈ fetched, (contentsOf fetched).lookup f.seq = some f.data := by
    intro f hf
    have hnodup := hnumbered.nodup
    clear hfetched hshape hseqs hsizes hcontents hnumbered
    induction fetched with
    | nil => exact absurd hf List.not_mem_nil
    | cons g fetched ih =>
        rw [List.map_cons, List.nodup_cons] at hnodup
        change ((g.seq, g.data) :: contentsOf fetched).lookup f.seq = _
        rw [List.lookup_cons]
        rcases List.mem_cons.1 hf with rfl | hf
        · rw [beq_self_eq_true]
        · have hne : f.seq ≠ g.seq := fun heq => hnodup.1 (List.mem_map.2 ⟨f, hf, heq⟩)
          rw [beq_false_of_ne hne]
          exact ih hf hnodup.2
  rw [fillOnDemandAttachments_eq hstate _ (hcontents ▸ hnumbered.nodup)]
  constructor
  · rw [← hfetched.numbers, List.map_map]
    have hsome := congrArg (List.map some) hseqs
    rw [List.map_map, List.map_map] at hsome
    exact hsome
  · intro e he b hb hseq
    obtain ⟨a, ha, rfl⟩ := List.mem_map.1 hb
    have hseq : e.seq = some a.seq := hseq
    obtain ⟨f, hf, hfseq, hsize⟩ := hsizes a ha
    have hlabels := hadvertised.labeled he ha hseq
    have hpart := hfetched.parts e he f hf (hseq.trans (congrArg some hfseq))
    have hdata : ((contentsOf fetched).lookup a.seq).getD a.data = f.data := by
      rw [hfseq, hlookup f hf]
      rfl
    have hshown : a.size = f.size := hsize.trans hpart.size.symm
    refine ⟨by rw [hdata]; exact hsize, fun n hn => (hpart.listedSize n hn).trans hshown.symm, ?_,
      ?_, hlabels.contentType, hlabels.contentId, ?_⟩
    · intro s hs
      rw [hdata]
      exact hpart.sha256 s hs
    · intro g hg
      have hname : a.name = attachmentDisplayName e := hlabels.name
      rw [attachmentDisplayName, Option.mem_def.1 hg] at hname
      exact hname
    · obtain ⟨inline, hb⟩ := (hm.normal e he).isInline
      have hshows : a.isInline = (e.isInline.getD false || e.contentId.isSome) := hlabels.isInline
      change some a.isInline = e.isInline
      rw [hshows]
      cases hc : e.contentId.isSome with
      | true => rw [hinline e he hc]; rfl
      | false => rw [hb]; simp

/-! ## Relabelled parts -/

theorem mapM_some {α β : Type} {f : α → Option β} {l : List α} {bs : List β}
    (h : l.mapM f = some bs) : List.Forall₂ (fun a b => f a = some b) l bs := by
  induction l generalizing bs with
  | nil =>
      rw [List.mapM_nil] at h
      cases Option.some.inj h
      exact List.Forall₂.nil
  | cons a l ih =>
      rw [List.mapM_cons] at h
      obtain ⟨b, hb, hrest⟩ := Option.bind_eq_some_iff.1 h
      obtain ⟨bs', hbs, hcons⟩ := Option.bind_eq_some_iff.1 hrest
      cases Option.some.inj hcons
      exact List.Forall₂.cons hb (ih hbs)

theorem isPart_verified {stored : List CachedAttachment} {e : EnvelopeAttachment}
    {a : CachedAttachment} (hnormal : Normal e)
    (hinline : e.contentId.isSome = true → e.isInline = some true)
    (h : verifiedPart x stored e = some a) : some a.seq = e.seq ∧ IsPart x e a := by
  obtain ⟨s, hs, rfl⟩ := Option.map_eq_some_iff.1 h
  obtain ⟨hfind, hmatch⟩ := Option.filter_eq_some_iff.1 hs
  have hseq : some s.seq = e.seq := by simpa using List.find?_some hfind
  obtain ⟨inline, hb⟩ := hnormal.isInline
  unfold storedAttachmentMatches at hmatch
  cases hsha : e.sha256 with
  | none =>
      rw [hsha] at hmatch
      exact absurd hmatch Bool.false_ne_true
  | some expected =>
      rw [hsha] at hmatch
      dsimp only at hmatch
      rw [Bool.and_eq_true] at hmatch
      refine ⟨hseq, rfl, fun n hn => ?_, fun t ht => ?_, fun f hf => ?_, rfl, rfl, ?_⟩
      · rw [Option.mem_def.1 hn, Option.all_some, decide_eq_true_eq] at hmatch
        exact hmatch.1
      · rw [← Option.some.inj (hsha.symm.trans ht)]
        exact hmatch.2
      · change e.filename.getD _ = f
        rw [Option.mem_def.1 hf]
        rfl
      · change some (e.isInline.getD false || e.contentId.isSome) = e.isInline
        cases hc : e.contentId.isSome with
        | true => rw [hinline hc]; rfl
        | false => rw [hb]; simp

theorem forall₂_verified {stored list : List CachedAttachment} (hm : Manifest listed)
    (hinline : InlineMarked listed)
    (h : List.Forall₂ (fun e a => verifiedPart x stored e = some a) listed list) :
    List.Forall₂ (fun e a => some a.seq = e.seq ∧ IsPart x e a) listed list := by
  rw [List.forall₂_iff_zip] at h ⊢
  refine ⟨h.1, fun {e a} hmem => ?_⟩
  have he := (List.of_mem_zip hmem).1
  exact isPart_verified (hm.normal e he) (hinline e he) (h.2 hmem)

/-- Parts that correspond to the list one by one are in its order. -/
theorem numbers_of_forall₂ {list : List CachedAttachment}
    (h : List.Forall₂ (fun e a => some a.seq = e.seq ∧ IsPart x e a) listed list) :
    list.map (fun a => some a.seq) = listed.map (·.seq) := by
  induction h with
  | nil => rfl
  | cons hhead _ ih => rw [List.map_cons, List.map_cons, hhead.1, ih]

theorem numbered_of_numbers {list : List CachedAttachment} (hm : Manifest listed)
    (h : list.map (fun a => some a.seq) = listed.map (·.seq)) : Numbered list := by
  have hseqs : list.map (·.seq) = listed.map fun e => e.seq.getD 0 := by
    have hgetD := congrArg (List.map fun s => Option.getD s 0) h
    rw [List.map_map, List.map_map] at hgetD
    exact hgetD
  have hordered : (listed.map fun e => e.seq.getD 0).Pairwise (· < ·) :=
    List.pairwise_map.2 hm.ordered
  rw [← hseqs] at hordered
  exact List.pairwise_map.1 hordered

/-- **Relabelled parts are exactly the listed ones**, and nothing else is left stored. -/
theorem reconcile_spec {p : Parts} (hm : Manifest listed) (hinline : InlineMarked listed) :
    ((reconcileListedAttachments x p listed).state = .stored →
        StoredExactly x listed (reconcileListedAttachments x p listed).attachments) ∧
      ((reconcileListedAttachments x p listed).state = .onDemand →
        Advertised listed (reconcileListedAttachments x p listed).attachments) := by
  unfold reconcileListedAttachments
  split
  · cases hstore : p.storeOnDemandAttachments (onDemandParts listed listed.length) with
    | none => exact ⟨nofun, nofun⟩
    | some p' =>
        obtain ⟨hstate, hadvertised⟩ := advertised_storeOnDemand hm _ hstore
        refine ⟨fun h => ?_, fun _ => hadvertised⟩
        exact absurd (hstate.symm.trans h) (by decide)
  · rename_i hstate
    dsimp only
    split
    · rename_i list hverified
      split at hverified
      · have hall := forall₂_verified hm hinline (mapM_some hverified)
        have hnumbers := numbers_of_forall₂ hall
        have hnumbered := numbered_of_numbers hm hnumbers
        have hreplaced : p.replaceMessageAttachments list = ⟨.stored, list, 0⟩ := by
          rw [Parts.replaceMessageAttachments, if_pos hnumbered.nodup,
            sortParts_of_numbered hnumbered]
        rw [hreplaced]
        refine ⟨fun _ => ⟨hnumbers, fun e he a ha hseq => ?_⟩, nofun⟩
        obtain ⟨i, hi⟩ := List.mem_iff_getElem?.1 ha
        rw [List.forall₂_iff_get] at hall
        obtain ⟨hlt, rfl⟩ := List.getElem?_eq_some_iff.1 hi
        obtain ⟨hi', hpart⟩ := hall.2 i (hall.1 ▸ hlt) hlt
        have hsame := hm.eq_of_seq he (List.get_mem _ _) (hseq.trans hi')
        rw [hsame]
        exact hpart
      · exact nomatch hverified
    · exact ⟨nofun, nofun⟩

end OnDemand

end AsterBridge.Sync.Attachments
