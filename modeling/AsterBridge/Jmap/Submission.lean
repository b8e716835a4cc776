import AsterBridge.Address
import AsterBridge.Smtp.Payload

/-!
# The recipients of a JMAP submission

`submission_body` of `jmap/methods/submission.rs`. The texts of a stored draft are split at
every comma, and the pieces are sent as they stand, display names included.
-/

set_option autoImplicit false

namespace AsterBridge.Jmap

open AsterBridge.Lib AsterBridge.Lib.Text AsterBridge.Lib.Unicode AsterBridge.Address
open AsterBridge.Crypto AsterBridge.Smtp

/-! ## The body of a submission -/

/-- `strip_header_chars` -/
def stripHeaderChars (s : List Char) : List Char := s.filter fun c => !isHeaderBreak c

/-- The entries of an address text in `submission_body` and `meta_address_list`. -/
def addressEntries (text : List Char) : List (List Char) :=
  ((text.splitOn ',').map fun s => stripHeaderChars (trim s)).filter (· ≠ [])

/-- `meta_address_list` -/
def metaAddressList (metadata : Json) (key : String) : List (List Char) :=
  addressEntries ((((metadata.get? key).bind Json.asStr).getD "").toList)

/-- What `submission_body` reads of a cached message. `metadata` is the JSON of its headers, or
`null`; `attachments` are its sealed attachments, or why there are none of them. -/
structure Draft where
  recipients : Option String
  subject : Option String
  bodyText : Option String
  metadata : Json
  attachments : Except String (Option (List Json))

/-- The sender of a submission. -/
structure SubmissionSender where
  email : String
  aliasHash : Option String
  displayName : Option String

/-- The entries of a list as JSON, unless there are none. -/
def entriesOrNone (entries : List (List Char)) : Option Json :=
  if entries.isEmpty then none else some (.strings (entries.map String.ofList))

/-- `submission_body` -/
def submissionBody (draft : Draft) (sender : SubmissionSender) : Except String Json :=
  let toList := addressEntries (draft.recipients.getD "").toList
  let isHtml := ((draft.metadata.get? "is_html").bind Json.asBool).getD false
  let bodyContent := draft.bodyText.getD ""
  let finalBody := if bodyContent.isEmpty then " " else bodyContent
  let body := Json.object [
    ("to", .strings (toList.map String.ofList)),
    ("subject", .string (String.ofList (stripHeaderChars (draft.subject.getD "").toList))),
    ("body", .string finalBody),
    ("is_html", .bool isHtml),
    ("sender_email", .string sender.email),
    ("is_e2e_encrypted", .bool false),
    ("client_source", .string "bridge")]
  let body := setSome body "body_html" (if isHtml then some (.string finalBody) else none)
  let body := setSome body "cc" (entriesOrNone (metaAddressList draft.metadata "cc"))
  let body := setSome body "bcc" (entriesOrNone (metaAddressList draft.metadata "bcc"))
  let body := setSome body "sender_alias_hash" (sender.aliasHash.map Json.string)
  let body := setSome body "sender_display_name" (sender.displayName.map Json.string)
  draft.attachments.map fun list => setSome body "attachments" (list.map Json.array)

/-! ## The lists of a body -/

/-- The three lists of a body. -/
structure BodyLists (toList ccList bccList : List String) (body : Json) : Prop where
  object : body.IsObject
  toTexts : fieldTexts body "to" = toList
  ccTexts : fieldTexts body "cc" = ccList
  bccTexts : fieldTexts body "bcc" = bccList

namespace BodyLists

variable {toList ccList bccList : List String} {body : Json}

/-- A member that is set changes no other. -/
theorem fieldTexts_setSome (hbody : body.IsObject) {name field : String} (hne : field ≠ name)
    (value : Option Json) :
    fieldTexts (setSome body name value) field = fieldTexts body field := by
  cases value with
  | none => rfl
  | some v =>
      apply fieldTexts_congr
      rw [setSome, Json.get?_set hbody, if_neg hne]

theorem isObject_setSome (hbody : body.IsObject) (name : String) (value : Option Json) :
    (setSome body name value).IsObject := by
  cases value with
  | none => exact hbody
  | some v => exact Json.isObject_set hbody name v

theorem other (h : BodyLists toList ccList bccList body) {name : String}
    (hname : name ∉ ["to", "cc", "bcc"]) (value : Option Json) :
    BodyLists toList ccList bccList (setSome body name value) := by
  simp only [List.mem_cons, List.not_mem_nil, or_false, not_or, ← ne_eq] at hname
  refine ⟨isObject_setSome h.object name value, ?_, ?_, ?_⟩
  · rw [fieldTexts_setSome h.object hname.1.symm, h.toTexts]
  · rw [fieldTexts_setSome h.object hname.2.1.symm, h.ccTexts]
  · rw [fieldTexts_setSome h.object hname.2.2.symm, h.bccTexts]

/-- The entries of a list that is set, also if there are none. -/
theorem fieldTexts_entriesOrNone (hbody : body.IsObject) {name : String}
    (habsent : fieldTexts body name = []) (entries : List (List Char)) :
    fieldTexts (setSome body name (entriesOrNone entries)) name = entries.map String.ofList := by
  unfold entriesOrNone
  split
  · rename_i hempty
    rw [List.isEmpty_iff.1 hempty]
    exact habsent
  · apply fieldTexts_strings
    exact (Json.get?_set hbody _ _ _).trans (if_pos rfl)

theorem setCc (h : BodyLists toList [] bccList body) (entries : List (List Char)) :
    BodyLists toList (entries.map String.ofList) bccList
      (setSome body "cc" (entriesOrNone entries)) where
  object := isObject_setSome h.object _ _
  toTexts := (fieldTexts_setSome h.object (by decide) _).trans h.toTexts
  ccTexts := fieldTexts_entriesOrNone h.object h.ccTexts entries
  bccTexts := (fieldTexts_setSome h.object (by decide) _).trans h.bccTexts

theorem setBcc (h : BodyLists toList ccList [] body) (entries : List (List Char)) :
    BodyLists toList ccList (entries.map String.ofList)
      (setSome body "bcc" (entriesOrNone entries)) where
  object := isObject_setSome h.object _ _
  toTexts := (fieldTexts_setSome h.object (by decide) _).trans h.toTexts
  ccTexts := (fieldTexts_setSome h.object (by decide) _).trans h.ccTexts
  bccTexts := fieldTexts_entriesOrNone h.object h.bccTexts entries

end BodyLists

/-- The lists of a body are the entries of the stored texts. -/
theorem submissionBody_lists {draft : Draft} {sender : SubmissionSender} {body : Json}
    (h : submissionBody draft sender = .ok body) :
    BodyLists ((addressEntries (draft.recipients.getD "").toList).map String.ofList)
      ((metaAddressList draft.metadata "cc").map String.ofList)
      ((metaAddressList draft.metadata "bcc").map String.ofList) body := by
  unfold submissionBody at h
  cases hattachments : draft.attachments with
  | error e =>
      rw [hattachments] at h
      exact absurd h (by simp [Except.map])
  | ok list =>
      rw [hattachments] at h
      obtain rfl := Except.ok.inj h
      apply BodyLists.other _ (by decide)
      apply BodyLists.other _ (by decide)
      apply BodyLists.other _ (by decide)
      apply BodyLists.setBcc
      apply BodyLists.setCc
      apply BodyLists.other _ (by decide)
      exact ⟨trivial, fieldTexts_strings rfl, rfl, rfl⟩

/-! ## The entries of a stored text -/

section Entries

variable {a b text name email : List Char} {c : Char}

/-- A comma always splits. -/
theorem addressEntries_append_comma :
    addressEntries (a ++ ',' :: b) = addressEntries a ++ addressEntries b := by
  rw [addressEntries, List.splitOn_append_cons_self, List.map_append, List.filter_append]
  rfl

/-- A blank at the start belongs to no entry. -/
theorem addressEntries_blank : addressEntries (' ' :: b) = addressEntries b := by
  rw [addressEntries, List.splitOn_cons_eq_if_modifyHead, if_neg (by decide), addressEntries]
  cases hpieces : b.splitOn ',' with
  | nil => exact absurd hpieces (List.splitOn_ne_nil ',' b)
  | cons first rest =>
      rw [List.modifyHead_cons, List.map_cons, List.map_cons,
        trim_cons_of_whitespace (by decide)]

/-- The entries of a list are those of its mailboxes, one after the other. -/
theorem addressEntries_join (mailboxes : List (List Char × List Char)) :
    addressEntries (joinMailboxes mailboxes) =
      mailboxes.flatMap fun m => addressEntries (formatMailbox m.1 m.2) := by
  induction mailboxes with
  | nil => rfl
  | cons m rest ih =>
      rw [List.flatMap_cons, ← ih]
      cases rest with
      | nil =>
          rw [joinMailboxes, List.map_singleton, List.intercalate_singleton]
          exact (List.append_nil _).symm
      | cons next rest =>
          rw [joinMailboxes, List.map_cons, List.map_cons, List.intercalate_cons_cons,
            List.append_assoc, List.cons_append, List.cons_append, List.nil_append,
            addressEntries_append_comma, addressEntries_blank]
          rfl

/-- A character that is neither cut off nor taken out makes an entry. -/
theorem addressEntries_ne_nil (h : c ∈ text) (hcomma : c ≠ ',') (hwhite : isWhitespace c = false)
    (hbreak : isHeaderBreak c = false) : addressEntries text ≠ [] := by
  obtain ⟨piece, hpiece, hc⟩ := exists_mem_splitOn h hcomma
  have hentry : c ∈ stripHeaderChars (trim piece) :=
    List.mem_filter.2 ⟨mem_trim_of_mem hc hwhite, by rw [hbreak]; rfl⟩
  apply List.ne_nil_of_mem (a := stripHeaderChars (trim piece))
  refine List.mem_filter.2 ⟨List.mem_map_of_mem hpiece, ?_⟩
  exact decide_eq_true (List.ne_nil_of_mem hentry)

/-- A text that is neither split nor changed is its own entry. -/
theorem addressEntries_of_kept (hcomma : ',' ∉ text) (htrim : trim text = text) (hne : text ≠ [])
    (hbreak : ∀ c ∈ text, isHeaderBreak c = false) : addressEntries text = [text] := by
  have hstrip : stripHeaderChars text = text := by
    rw [stripHeaderChars, List.filter_eq_self]
    intro c hc
    rw [hbreak c hc]
    rfl
  rw [addressEntries, List.splitOn_eq_singleton hcomma, List.map_singleton, htrim, hstrip,
    List.filter_singleton, decide_eq_true hne, cond_true]

/-- A mailbox without a comma in its name is one entry. -/
theorem addressEntries_mailbox (h : PlainAddress email) (hcomma : ',' ∉ name) :
    addressEntries (formatMailbox name email) = [formatMailbox name email] := by
  obtain ⟨htrim, hne⟩ := @trim_formatMailbox name email h
  refine addressEntries_of_kept ?_ htrim hne fun c hc => isHeaderBreak_of_mem_formatMailbox h hc
  exact fun hmem => hcomma ((comma_mem_formatMailbox h).1 hmem)

/-- A comma in the name makes at least two entries: one before it, one with the address. -/
theorem addressEntries_mailbox_comma (h : PlainAddress email) (hcomma : ',' ∈ name) :
    2 ≤ (addressEntries (formatMailbox name email)).length := by
  have hnamed : ¬ Bare name email := not_bare_of_comma h hcomma
  have hspecial : (clean name).any nameSpecials.contains = true := by
    rw [List.any_eq_true]
    exact ⟨',', mem_clean_of_mem hcomma (by decide) (by decide), by decide⟩
  have hshown : shownName name = '"' :: (escapeName (clean name) ++ ['"']) := by
    rw [shownName, if_pos hspecial]
    rfl
  obtain ⟨before, after, hsplit⟩ := List.append_of_mem
    (comma_mem_escapeName (mem_clean_of_mem hcomma (by decide) (by decide)))
  have hformat : formatMailbox name email = ('"' :: before) ++ ',' ::
      (after ++ '"' :: ' ' :: '<' :: email ++ ['>']) := by
    rw [formatMailbox_named h hnamed, hshown, hsplit]
    simp
  have hquote := @addressEntries_ne_nil ('"' :: before) '"' List.mem_cons_self (by decide)
    (by decide) (by decide)
  have hclose := @addressEntries_ne_nil (after ++ '"' :: ' ' :: '<' :: email ++ ['>']) '>'
    (List.mem_append_right _ (List.mem_singleton_self _)) (by decide) (by decide) (by decide)
  rw [hformat, addressEntries_append_comma, List.length_append]
  exact Nat.add_le_add (List.length_pos_iff.2 hquote) (List.length_pos_iff.2 hclose)

end Entries

/-! ## What reaches the stored mailboxes -/

/-- A mailbox: its name and its address. -/
abbrev Mailbox := List Char × List Char

/-- A stored text is the join of mailboxes, or is missing where there are none. -/
def Stores (text : Option String) (mailboxes : List Mailbox) : Prop :=
  text.map String.toList = some (joinMailboxes mailboxes) ∨ text = none ∧ mailboxes = []

/-- The fields that name recipients. -/
def recipientFields : List String := ["to", "cc", "bcc"]

/-- The texts of a draft that the lists of a submission are made from. -/
def Draft.text (draft : Draft) (field : String) : Option String :=
  if field = "to" then draft.recipients else (draft.metadata.get? field).bind Json.asStr

/-- The address of an entry, as the bridge reads a mailbox. -/
def entryEmail (entry : String) : String := String.ofList (parseMailbox entry.toList).2

/-- The lists of a submission have the mailboxes that JMAP reports for the stored texts, one
entry each, and every internal address among them is an internal recipient. -/
structure ReachesMailboxes (T : CaseTables) (draft : Draft) (mailboxes : List Mailbox)
    (body : Json) : Prop where
  entries : ∀ field ∈ recipientFields, (fieldTexts body field).map entryEmail =
    reportedEmails (jmapAddresses ((draft.text field).map String.toList))
  internal : ∀ m ∈ mailboxes, isInternalAddress T (String.ofList m.2) = true →
    ∃ a ∈ (splitRecipients T body).internal, sameAddress a (String.ofList m.2) = true

section Reached

variable {T : CaseTables} {text : Option String} {mailboxes : List Mailbox} {name email : List Char}

theorem Stores.entries (h : Stores text mailboxes) :
    addressEntries (text.getD "").toList =
        mailboxes.flatMap fun m => addressEntries (formatMailbox m.1 m.2) := by
  rw [← addressEntries_join]
  rcases h with htext | ⟨rfl, rfl⟩
  · obtain ⟨s, rfl, hs⟩ := Option.map_eq_some_iff.1 htext
    rw [Option.getD_some, hs]
  · rfl

theorem Stores.reported (h : Stores text mailboxes) (hplain : ∀ m ∈ mailboxes, PlainAddress m.2) :
    reportedEmails (jmapAddresses (text.map String.toList)) =
      mailboxes.map fun m => String.ofList m.2 := by
  rcases h with htext | ⟨rfl, rfl⟩
  · rw [htext, jmapAddresses_join hplain]
  · rfl

/-- The entries have the addresses of the mailboxes exactly where no name has a comma. -/
theorem entries_eq_iff (hplain : ∀ m ∈ mailboxes, PlainAddress m.2) :
    ((mailboxes.flatMap fun m => addressEntries (formatMailbox m.1 m.2)).map
        fun e => entryEmail (String.ofList e)) = mailboxes.map (fun m => String.ofList m.2) ↔
      ∀ m ∈ mailboxes, ',' ∉ m.1 := by
  constructor
  · -- each mailbox has an entry, and one with a comma has two
    intro heq
    have hlength := congrArg List.length heq
    rw [List.length_map, List.length_map, List.length_flatMap] at hlength
    have hone : ∀ m ∈ mailboxes, 1 ≤ (addressEntries (formatMailbox m.1 m.2)).length := by
      intro m hm
      by_cases hcomma : ',' ∈ m.1
      · exact le_trans one_le_two (addressEntries_mailbox_comma (hplain m hm) hcomma)
      · rw [addressEntries_mailbox (hplain m hm) hcomma, List.length_singleton]
    clear heq
    induction mailboxes with
    | nil => exact fun m hm => absurd hm List.not_mem_nil
    | cons m rest ih =>
        rw [List.map_cons, List.sum_cons, List.length_cons] at hlength
        have hrest : rest.length ≤
            (rest.map fun m => (addressEntries (formatMailbox m.1 m.2)).length).sum := by
          have hsum := List.length_le_sum_of_one_le
            (rest.map fun m => (addressEntries (formatMailbox m.1 m.2)).length) (by
              intro n hn
              obtain ⟨m', hm', rfl⟩ := List.mem_map.1 hn
              exact hone m' (List.mem_cons_of_mem _ hm'))
          rwa [List.length_map] at hsum
        have hm := hone m List.mem_cons_self
        intro m' hm'
        rcases List.mem_cons.1 hm' with rfl | hm'
        · intro hcomma
          have htwo := addressEntries_mailbox_comma (hplain m' List.mem_cons_self) hcomma
          omega
        · exact ih (fun m hm => hplain m (List.mem_cons_of_mem _ hm)) (by omega)
            (fun m hm => hone m (List.mem_cons_of_mem _ hm)) m' hm'
  · intro hcomma
    induction mailboxes with
    | nil => rfl
    | cons m rest ih =>
        have hm := hplain m List.mem_cons_self
        rw [List.flatMap_cons, List.map_append, List.map_cons,
          ih (fun m hm => hplain m (List.mem_cons_of_mem _ hm))
            (fun m hm => hcomma m (List.mem_cons_of_mem _ hm)),
          addressEntries_mailbox hm (hcomma m List.mem_cons_self), List.map_singleton, entryEmail,
          String.toList_ofList, parseMailbox_formatMailbox hm]
        rfl

/-- A named mailbox ends with a bracket, so in no internal domain. -/
theorem not_internal_of_named (h : PlainAddress email) (hnamed : ¬ Bare name email) :
    isInternalAddress T (String.ofList (formatMailbox name email)) = false := by
  have hlower : T.toLowercase (trim (formatMailbox name email)) =
      T.toLowercase (shownName name ++ ' ' :: '<' :: email) ++ ['>'] := by
    rw [(trim_formatMailbox h).1, formatMailbox_named h hnamed]
    have hsplit := T.toLowercase_separator (c := '>')
      (T.separator_of_ascii (by decide) (by decide) (by decide))
      (shownName name ++ ' ' :: '<' :: email) []
    rw [hsplit]
    rfl
  rw [isInternalAddress, String.toList_ofList, hlower, List.any_eq_false]
  intro domain hdomain hsuffix
  rw [List.isSuffixOf_iff_suffix] at hsuffix
  obtain ⟨before, hbefore⟩ := hsuffix
  have hlast : ('@' :: domain.toList).getLast? = some '>' := by
    have hends := congrArg List.getLast? hbefore
    rwa [List.getLast?_append_of_ne_nil _ (List.cons_ne_nil _ _), List.getLast?_concat] at hends
  have hall : internalDomains.all (fun d => ('@' :: d.toList).getLast? != some '>') = true := by
    decide +kernel
  have hdomain' := List.all_eq_true.1 hall domain hdomain
  rw [hlast] at hdomain'
  exact absurd hdomain' (by decide)

end Reached

/-! ## Exactly when they are reached -/

section Exact

variable {T : CaseTables} {draft : Draft} {sender : SubmissionSender} {body : Json}
  {mailboxes : String → List Mailbox} {field a : String} {m : Mailbox}

/-- The list of a field has the entries of the text that is stored for it. -/
theorem fieldTexts_of_stored (hbody : submissionBody draft sender = .ok body)
    (hfield : field ∈ recipientFields) (h : Stores (draft.text field) (mailboxes field)) :
    fieldTexts body field = ((mailboxes field).flatMap fun m =>
      addressEntries (formatMailbox m.1 m.2)).map String.ofList := by
  have hlists := submissionBody_lists hbody
  rw [← h.entries]
  simp only [recipientFields, List.mem_cons, List.not_mem_nil, or_false] at hfield
  rcases hfield with rfl | rfl | rfl
  · exact hlists.toTexts
  · exact hlists.ccTexts
  · exact hlists.bccTexts

/-- The lists have the reported addresses exactly where no name has a comma. -/
theorem entries_iff (hbody : submissionBody draft sender = .ok body)
    (hplain : ∀ m ∈ recipientFields.flatMap mailboxes, PlainAddress m.2)
    (hstores : ∀ field ∈ recipientFields, Stores (draft.text field) (mailboxes field)) :
    (∀ field ∈ recipientFields, (fieldTexts body field).map entryEmail =
        reportedEmails (jmapAddresses ((draft.text field).map String.toList))) ↔
      ∀ m ∈ recipientFields.flatMap mailboxes, ',' ∉ m.1 := by
  have hone : ∀ field ∈ recipientFields, (fieldTexts body field).map entryEmail =
      reportedEmails (jmapAddresses ((draft.text field).map String.toList)) ↔
        ∀ m ∈ mailboxes field, ',' ∉ m.1 := by
    intro field hfield
    have hplain' : ∀ m ∈ mailboxes field, PlainAddress m.2 := fun m hm =>
      hplain m (List.mem_flatMap.2 ⟨field, hfield, hm⟩)
    rw [(hstores field hfield).reported hplain',
      fieldTexts_of_stored hbody hfield (hstores field hfield), List.map_map]
    exact entries_eq_iff hplain'
  constructor
  · intro h m hm
    obtain ⟨field, hfield, hm⟩ := List.mem_flatMap.1 hm
    exact (hone field hfield).1 (h field hfield) m hm
  · intro h field hfield
    exact (hone field hfield).2 fun m hm => h m (List.mem_flatMap.2 ⟨field, hfield, hm⟩)

/-- Without commas the addresses of a field are its mailboxes. -/
theorem mem_fieldAddresses_iff (hbody : submissionBody draft sender = .ok body)
    (hfield : field ∈ recipientFields) (h : Stores (draft.text field) (mailboxes field))
    (hplain : ∀ m ∈ mailboxes field, PlainAddress m.2) (hcomma : ∀ m ∈ mailboxes field, ',' ∉ m.1) :
    a ∈ fieldAddresses body field ↔
      ∃ m ∈ mailboxes field, String.ofList (formatMailbox m.1 m.2) = a := by
  have hentries : ((mailboxes field).flatMap fun m => addressEntries (formatMailbox m.1 m.2)) =
      (mailboxes field).map fun m => formatMailbox m.1 m.2 := by
    rw [List.map_eq_flatMap]
    exact List.flatMap_congr fun m hm => addressEntries_mailbox (hplain m hm) (hcomma m hm)
  have htrimmed : ∀ m ∈ mailboxes field, trimmed (String.ofList (formatMailbox m.1 m.2)) =
      String.ofList (formatMailbox m.1 m.2) := by
    intro m hm
    rw [trimmed, String.toList_ofList, (trim_formatMailbox (hplain m hm)).1]
  rw [fieldAddresses, fieldTexts_of_stored hbody hfield h, hentries, List.map_map, List.map_map,
    List.mem_filter, List.mem_map]
  constructor
  · rintro ⟨⟨m, hm, rfl⟩, -⟩
    exact ⟨m, hm, (htrimmed m hm).symm⟩
  · rintro ⟨m, hm, rfl⟩
    refine ⟨⟨m, hm, htrimmed m hm⟩, ?_⟩
    have hne := (@trim_formatMailbox m.1 m.2 (hplain m hm)).2
    simpa using hne

theorem isAster_none (a : String) : isAster T ⟨[], []⟩ a = isInternalAddress T a :=
  Bool.or_false _

/-- An internal recipient is a mailbox without a name. -/
theorem bare_of_internal (hbody : submissionBody draft sender = .ok body)
    (hplain : ∀ m ∈ recipientFields.flatMap mailboxes, PlainAddress m.2)
    (hstores : ∀ field ∈ recipientFields, Stores (draft.text field) (mailboxes field))
    (hcomma : ∀ m ∈ recipientFields.flatMap mailboxes, ',' ∉ m.1)
    (ha : a ∈ (splitRecipients T body).internal) :
    ∃ m ∈ recipientFields.flatMap mailboxes, Bare m.1 m.2 ∧ String.ofList m.2 = a := by
  obtain ⟨-, -, haster, field, hfield, hmem⟩ := mem_internal ha
  have hall : ∀ m ∈ mailboxes field, m ∈ recipientFields.flatMap mailboxes := fun m hm =>
    List.mem_flatMap.2 ⟨field, hfield, hm⟩
  obtain ⟨m, hm, rfl⟩ := (mem_fieldAddresses_iff hbody hfield (hstores field hfield)
    (fun m hm => hplain m (hall m hm)) fun m hm => hcomma m (hall m hm)).1 hmem
  have hmplain := hplain m (hall m hm)
  by_cases hbare : Bare m.1 m.2
  · exact ⟨m, hall m hm, hbare, by rw [formatMailbox_bare hmplain hbare]⟩
  · rw [isAster_none, not_internal_of_named hmplain hbare] at haster
    exact absurd haster Bool.false_ne_true

/-- An internal mailbox without a name is an internal recipient. -/
theorem internal_of_bare (hbody : submissionBody draft sender = .ok body)
    (hplain : ∀ m ∈ recipientFields.flatMap mailboxes, PlainAddress m.2)
    (hstores : ∀ field ∈ recipientFields, Stores (draft.text field) (mailboxes field))
    (hcomma : ∀ m ∈ recipientFields.flatMap mailboxes, ',' ∉ m.1)
    (hm : m ∈ recipientFields.flatMap mailboxes) (hbare : Bare m.1 m.2)
    (hinternal : isInternalAddress T (String.ofList m.2) = true) :
    ∃ a ∈ (splitRecipients T body).internal, sameAddress a (String.ofList m.2) = true := by
  obtain ⟨field, hfield, hmem⟩ := List.mem_flatMap.1 hm
  have hall : ∀ m ∈ mailboxes field, m ∈ recipientFields.flatMap mailboxes := fun m hm =>
    List.mem_flatMap.2 ⟨field, hfield, hm⟩
  refine internal_cover hfield ?_ ((isAster_none _).trans hinternal)
  refine (mem_fieldAddresses_iff hbody hfield (hstores field hfield)
    (fun m hm => hplain m (hall m hm)) fun m hm => hcomma m (hall m hm)).2 ⟨m, hmem, ?_⟩
  rw [formatMailbox_bare (hplain m hm) hbare]

/-- Addresses that differ in ASCII case alone are both internal or both not. -/
theorem isInternalAddress_congr {email email' : List Char} (h : PlainAddress email)
    (h' : PlainAddress email')
    (hsame : sameAddress (String.ofList email) (String.ofList email') = true) :
    isInternalAddress T (String.ofList email) = isInternalAddress T (String.ofList email') := by
  have htrimmed : ∀ {email}, PlainAddress email →
      trimmed (String.ofList email) = String.ofList email := by
    intro email h
    rw [trimmed, String.toList_ofList, h.trim_eq]
  rw [← isAster_none, ← isAster_none, isAster_congr (htrimmed h) (htrimmed h') hsame]

end Exact

/-- **A submission reaches the stored mailboxes exactly where no name has a comma and every
internal address also stands without a name.** The draft may store any lists of mailboxes, with
arbitrary names and plain addresses. -/
theorem submission_reaches_mailboxes_iff (T : CaseTables) (draft : Draft)
    (sender : SubmissionSender) (body : Json) (mailboxes : String → List Mailbox)
    (hbody : submissionBody draft sender = .ok body)
    (hplain : ∀ m ∈ recipientFields.flatMap mailboxes, PlainAddress m.2)
    (hstores : ∀ field ∈ recipientFields, Stores (draft.text field) (mailboxes field)) :
    ReachesMailboxes T draft (recipientFields.flatMap mailboxes) body ↔
      (∀ m ∈ recipientFields.flatMap mailboxes, ',' ∉ m.1) ∧
        ∀ m ∈ recipientFields.flatMap mailboxes,
          isInternalAddress T (String.ofList m.2) = true →
            ∃ m' ∈ recipientFields.flatMap mailboxes, Bare m'.1 m'.2 ∧
              sameAddress (String.ofList m'.2) (String.ofList m.2) = true := by
  have hentries := entries_iff hbody hplain hstores
  constructor
  · rintro ⟨hall, hinternal⟩
    have hcomma := hentries.1 hall
    refine ⟨hcomma, fun m hm hm' => ?_⟩
    obtain ⟨a, ha, hsame⟩ := hinternal m hm hm'
    obtain ⟨m', hm'mem, hbare, rfl⟩ := bare_of_internal hbody hplain hstores hcomma ha
    exact ⟨m', hm'mem, hbare, hsame⟩
  · rintro ⟨hcomma, hbare⟩
    refine ⟨hentries.2 hcomma, fun m hm hinternal => ?_⟩
    obtain ⟨m', hm', hm'bare, hsame⟩ := hbare m hm hinternal
    rw [← isInternalAddress_congr (hplain m' hm') (hplain m hm) hsame] at hinternal
    obtain ⟨a, ha, hsame'⟩ :=
      internal_of_bare hbody hplain hstores hcomma hm' hm'bare hinternal
    exact ⟨a, ha, sameAddress_trans hsame' hsame⟩

/-! ## A named mailbox inside Aster -/

/-- A draft to Ann, whose address is inside Aster. -/
def annDraft (name : String) : Draft where
  recipients := some (String.ofList (formatMailbox name.toList "ann@astermail.org".toList))
  subject := some "hi"
  bodyText := some "text"
  metadata := .null
  attachments := .ok none

/-- Its mailboxes. -/
def annMailboxes (name : String) (field : String) : List Mailbox :=
  if field = "to" then [(name.toList, "ann@astermail.org".toList)] else []

theorem annMailboxes_plain {name : String} :
    ∀ m ∈ recipientFields.flatMap (annMailboxes name), PlainAddress m.2 := by
  intro m hm
  obtain ⟨field, -, hm⟩ := List.mem_flatMap.1 hm
  unfold annMailboxes at hm
  split at hm
  · obtain rfl := List.mem_singleton.1 hm
    have hall : ("ann@astermail.org".toList.all fun c => !isWhitespace c && !isHeaderBreak c &&
        !([',', ';', '<', '>', '"'] : List Char).contains c) = true := by
      decide +kernel
    rw [List.all_eq_true] at hall
    simp only [Bool.and_eq_true, Bool.not_eq_true', List.contains_eq_mem,
      decide_eq_false_iff_not] at hall
    have hne : "ann@astermail.org".toList ≠ [] := by decide
    exact ⟨hne, fun c hc => (hall c hc).1.1, fun c hc => (hall c hc).1.2,
      fun c hc => (hall c hc).2⟩
  · exact absurd hm List.not_mem_nil

theorem annDraft_stores {name : String} :
    ∀ field ∈ recipientFields, Stores ((annDraft name).text field) (annMailboxes name field) := by
  intro field hfield
  simp only [recipientFields, List.mem_cons, List.not_mem_nil, or_false] at hfield
  rcases hfield with rfl | rfl | rfl
  · refine Or.inl ?_
    simp [Draft.text, annDraft, annMailboxes, joinMailboxes, List.intercalate_singleton]
  · exact Or.inr ⟨rfl, rfl⟩
  · exact Or.inr ⟨rfl, rfl⟩

/-- Without her name Ann is reached. -/
theorem submission_reaches_mailboxes_iff_ann :
    ∃ body, submissionBody (annDraft "") ⟨"me@astermail.org", none, none⟩ = .ok body ∧
      ReachesMailboxes CaseTables.ascii (annDraft "")
        (recipientFields.flatMap (annMailboxes "")) body := by
  refine ⟨_, rfl, (submission_reaches_mailboxes_iff CaseTables.ascii (annDraft "") _ _
    (annMailboxes "") rfl annMailboxes_plain annDraft_stores).2 ⟨?_, ?_⟩⟩
  · intro m hm
    obtain rfl := List.mem_singleton.1 hm
    exact List.not_mem_nil
  · intro m hm _
    obtain rfl := List.mem_singleton.1 hm
    exact ⟨_, hm, Or.inl rfl, sameAddress_refl _⟩

/-- With her name she is not an internal recipient, and her body stays unsealed. -/
theorem named_mailbox_is_not_reached :
    ¬ ∀ (T : CaseTables) (draft : Draft) (sender : SubmissionSender) (body : Json)
        (mailboxes : String → List Mailbox),
      submissionBody draft sender = .ok body →
      (∀ m ∈ recipientFields.flatMap mailboxes, PlainAddress m.2) →
      (∀ field ∈ recipientFields, Stores (draft.text field) (mailboxes field)) →
      ReachesMailboxes T draft (recipientFields.flatMap mailboxes) body := by
  intro h
  have hreached := h CaseTables.ascii (annDraft "Ann") ⟨"me@astermail.org", none, none⟩ _
    (annMailboxes "Ann") rfl annMailboxes_plain annDraft_stores
  obtain ⟨a, ha, -⟩ := hreached.internal _ (List.mem_singleton_self _) (by decide +kernel)
  -- an internal recipient would be a mailbox without a name
  have hcomma : ∀ m ∈ recipientFields.flatMap (annMailboxes "Ann"), ',' ∉ m.1 := by
    intro m hm
    obtain rfl := List.mem_singleton.1 hm
    have hname : ',' ∉ "Ann".toList := by decide
    exact hname
  obtain ⟨m, hm, hbare, -⟩ := bare_of_internal rfl annMailboxes_plain annDraft_stores hcomma ha
  obtain rfl := List.mem_singleton.1 hm
  have hnamed : ¬ Bare "Ann".toList "ann@astermail.org".toList := by decide +kernel
  exact hnamed hbare

end AsterBridge.Jmap
