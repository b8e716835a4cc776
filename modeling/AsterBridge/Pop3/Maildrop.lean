import AsterBridge.Pop3.Wire
import AsterBridge.Render.Notes
import AsterBridge.Render.Sizes

/-!
# Sizes in a maildrop

STAT and LIST announce `pop3_size` of the listing, which has neither the body nor the data of
the attachments; RETR sends the lines of the whole text. The numbers are equal for messages
whose text ends in a line break, and where the listing decides about HTML and notes as the
rendering does (`announced_eq_iff`).
-/

set_option autoImplicit false

namespace AsterBridge.Pop3

open AsterBridge.Lib AsterBridge.Lib.Text AsterBridge.Lib.Lines AsterBridge.Render

/-! ## The source -/

/-- A row of `list_cached_message_meta`, which has no body. -/
def listed (m : StoredMessage) : StoredMessage := { m with bodyText := none }

/-- A row of `list_attachment_meta_for_folder`, which has no data. -/
def listedAttachment (a : CachedAttachment) : CachedAttachment := { a with data := [] }

/-- `attachment_parts_known` -/
def attachmentPartsKnown (state : AttachmentsState) : Bool := state == .stored || state == .onDemand

/-- `pop3_size` -/
def pop3Size (x : RenderCrates) (m : StoredMessage) (attachments : List CachedAttachment) : Nat :=
  renderedSize x m attachments

/-- What LIST announces for a message. -/
def listSize (x : RenderCrates) (m : StoredMessage) (attachments : List CachedAttachment) : Nat :=
  pop3Size x (listed m) (attachments.map listedAttachment)

/-- A message of the maildrop with its attachments, and whether it is deleted. -/
structure Entry where
  message : StoredMessage
  attachments : List CachedAttachment
  deleted : Bool

/-- The octets that STAT sums. -/
def statOctets (x : RenderCrates) (maildrop : List Entry) : Nat :=
  ((maildrop.filter fun e => !e.deleted).map fun e => listSize x e.message e.attachments).sum

/-- `with_attachments`, where the fill brings the parts that were advertised. -/
def withAttachments (m : StoredMessage) : StoredMessage :=
  if m.attachmentsState ≠ .onDemand then m else { m with attachmentsState := .stored }

/-- `full_message_text` -/
def fullMessageText (x : RenderCrates) (m : StoredMessage) (attachments : List CachedAttachment) :
    List Char :=
  renderText x m (if attachmentPartsKnown m.attachmentsState then attachments else [])

/-- The text that RETR sends. -/
def retrText (x : RenderCrates) (m : StoredMessage) (attachments : List CachedAttachment) :
    List Char :=
  fullMessageText x (withAttachments m) attachments

/-! ## The condition -/

/-- A cached message with its attachment rows: the sizes are those of the body and of the data,
and there are rows only where the parts are known. -/
structure CachedSizes (m : StoredMessage) (attachments : List CachedAttachment) : Prop where
  body : m.size = Db.crlfNormalizedLen (m.bodyText.getD "")
  data : ∀ a ∈ attachments, a.size = a.data.length
  known : attachments ≠ [] → attachmentPartsKnown m.attachmentsState = true

/-- The text is empty or ends in a line break. -/
def EndsLine (s : List Char) : Prop :=
  s.getLast? = none ∨ s.getLast? = some '\r' ∨ s.getLast? = some '\n'

instance (s : List Char) : Decidable (EndsLine s) :=
  inferInstanceAs (Decidable (s.getLast? = none ∨ s.getLast? = some '\r' ∨ s.getLast? = some '\n'))

/-- When LIST announces the octets of RETR. Where the listing decides about HTML as the
rendering does, attachments close the text with a line of their own, and else the body must.
Where the listing takes HTML for plain text, the lengths meet by chance. -/
def SizesMatch (x : RenderCrates) (m : StoredMessage) (attachments : List CachedAttachment) : Prop :=
  if (listed m).isHtml x = m.isHtml x then
    attachments ≠ [] ∨ (trustNotes (metadataOf x m) = 0 ∧
      attachmentStatusNote x (listed m) = none ∧ EndsLine m.body)
  else
    trustNotes (metadataOf x m) = 3 ∧
      inlineCount attachments = if inlineCount attachments = attachments.length then 4 else 38

section Views

variable {x : RenderCrates} {m : StoredMessage} {attachments : List CachedAttachment}

theorem toNat_size (h : CachedSizes m attachments) : m.size.toNat = utf8Len (toCrlf m.body) := by
  have hbody : m.bodyText.getD "" = String.ofList m.body := by
    unfold StoredMessage.body
    cases m.bodyText with
    | none => rfl
    | some b => exact String.ofList_toList.symm
  rw [h.body, hbody, crlfNormalizedLen_eq]
  rfl

/-- Where the parts are known, there is nothing to say about them. -/
theorem attachmentStatusNote_of_known (h : attachmentPartsKnown m.attachmentsState = true) :
    attachmentStatusNote x m = none := by
  rw [attachmentStatusNote, if_pos]
  constructor
  · intro hpending
    rw [hpending] at h
    exact absurd h (by decide)
  · intro hfailed
    rw [hfailed] at h
    exact absurd h (by decide)

theorem withAttachments_isHtml : (withAttachments m).isHtml x = m.isHtml x := by
  unfold withAttachments
  split
  · rfl
  · rfl

/-- A fill changes nothing that a text shows besides the attachments. -/
theorem withAttachments_text : topHeaders x (withAttachments m) (metadataOf x (withAttachments m)) =
      topHeaders x m (metadataOf x m) ∧ (withAttachments m).body = m.body ∧
      (withAttachments m).suffix x = m.suffix x := by
  unfold withAttachments
  split
  · exact ⟨rfl, rfl, rfl⟩
  · rename_i hdemand
    have hstate : m.attachmentsState = .onDemand := by simpa using hdemand
    have hnote : attachmentStatusNote x { m with attachmentsState := .stored } =
        attachmentStatusNote x m := by
      rw [attachmentStatusNote_of_known rfl, attachmentStatusNote_of_known (by rw [hstate]; rfl)]
    refine ⟨rfl, rfl, ?_⟩
    rw [StoredMessage.suffix, StoredMessage.suffix, hnote]
    rfl

/-- The body can only take the status note away. -/
theorem attachmentStatusNote_listed : attachmentStatusNote x m = attachmentStatusNote x (listed m) ∨
    attachmentStatusNote x m = none := by
  have hlisted : ¬ (listed m).bodyText.any fun b => contains b.toList legacyNotePrefix.toList :=
    Bool.false_ne_true
  by_cases hlegacy : m.bodyText.any fun b => contains b.toList legacyNotePrefix.toList
  · apply Or.inr
    unfold attachmentStatusNote
    split
    · rfl
    · rfl
  · apply Or.inl
    rw [attachmentStatusNote, attachmentStatusNote, if_neg hlegacy, if_neg hlisted]
    rfl

/-- The listing takes a message for HTML only where the metadata says so. -/
theorem isHtml_of_listed (h : (listed m).isHtml x = true) : m.isHtml x = true := by
  unfold StoredMessage.isHtml detectHtml at h ⊢
  have hmeta : metadataOf x (listed m) = metadataOf x m := rfl
  rw [hmeta] at h
  cases hflag : ((metadataOf x m).get? "is_html").bind Json.asBool with
  | some b =>
      rw [hflag] at h
      exact h
  | none =>
      have hbody : (listed m).body = [] := rfl
      rw [hflag, hbody] at h
      exact absurd h (by decide)

end Views

/-! ## Messages without attachments -/

section Text

variable {x : RenderCrates} {m : StoredMessage}

theorem finish_append {s t : List Char} (h : t ≠ []) : finish (s ++ t) = finish t := by
  rw [finish, List.getLast?_append_of_ne_nil s h, finish]

theorem finish_endsNote {s : List Char} (h : EndsNote s) : finish s = crlf := by
  rw [finish]
  rcases h with h | h
  · rw [h]
    rfl
  · rw [h]
    rfl

theorem toCrlf_ne_nil {s : List Char} (h : s ≠ []) : toCrlf s ≠ [] := by
  intro hnil
  have hle := utf8Len_le_toCrlf s
  have hlen := le_utf8Len s
  have hpos := List.length_pos_iff.2 h
  rw [hnil, utf8Len_nil] at hle
  omega

theorem finish_toCrlf (s : List Char) : finish (toCrlf s) = finish s := by
  have hlf : ∀ t, finish ('\r' :: '\n' :: t) = finish t := fun t =>
    finish_break (Or.inr rfl) ['\r'] t
  fun_induction toCrlf s with
  | case1 rest ih => rw [hlf, hlf, ih]
  | case2 rest hrest ih =>
      rw [hlf, ih]
      exact (finish_break (Or.inl rfl) [] rest).symm
  | case3 rest ih =>
      rw [hlf, ih]
      exact (finish_break (Or.inr rfl) [] rest).symm
  | case4 c rest hcrlf hcr hlf' ih =>
      by_cases hnil : rest = []
      · rw [hnil]
        rfl
      · have hleft := finish_append (s := [c]) (toCrlf_ne_nil hnil)
        have hright := finish_append (s := [c]) hnil
        rw [List.singleton_append] at hleft hright
        rw [hleft, hright, ih]
  | case5 => rfl

/-- The text before the notes ends as the body does. -/
theorem finish_body (headers : List Char) (body : List Char) :
    finish (headers ++ crlf ++ toCrlf body) = finish body := by
  by_cases hnil : body = []
  · rw [hnil, toCrlf, List.append_nil]
    have hlast := finish_break (c := '\n') (Or.inr rfl) (headers ++ ['\r']) []
    rw [List.append_assoc] at hlast
    exact hlast
  · rw [finish_append (toCrlf_ne_nil hnil), finish_toCrlf]

theorem utf8Len_finish (s : List Char) : utf8Len (finish s) = if EndsLine s then 0 else 2 := by
  by_cases h : EndsLine s
  · rw [if_pos h]
    unfold EndsLine at h
    rw [finish, if_pos h, utf8Len_nil]
  · rw [if_neg h]
    unfold EndsLine at h
    rw [finish, if_neg h]
    rfl

/-- What LIST announces without attachments. -/
theorem listSize_nil (h : CachedSizes m []) : listSize x m [] =
    utf8Len (topHeaders x m (metadataOf x m)) + utf8Len (textHeader ((listed m).isHtml x)) +
      utf8Len (toCrlf m.body) + utf8Len ((listed m).suffix x) := by
  have hmeta : metadataOf x (listed m) = metadataOf x m := rfl
  have htop : topHeaders x (listed m) (metadataOf x m) = topHeaders x m (metadataOf x m) := rfl
  have hsize : (listed m).size = m.size := rfl
  rw [listSize, pop3Size, List.map_nil, renderedSize_nil rfl, hmeta, htop, hsize, toNat_size h]

/-- The text that RETR sends without attachments. -/
theorem retrText_nil : retrText x m [] = topHeaders x m (metadataOf x m) ++
    textHeader (m.isHtml x) ++ toCrlf m.body ++ m.suffix x := by
  obtain ⟨htop, hbody, hsuffix⟩ := withAttachments_text (x := x) (m := m)
  rw [retrText, fullMessageText, ite_self, renderText_nil, htop, withAttachments_isHtml, hbody,
    hsuffix]

theorem retrOctets_text (text : List Char) :
    retrOctets text = utf8Len (toCrlf text) + utf8Len (finish text) := by
  rw [retrOctets_eq, joined_wireLines, utf8Len_append]

/-- A text without notes ends as the body does. -/
theorem retrOctets_plain (h : m.suffix x = []) : retrOctets (retrText x m []) =
    utf8Len (topHeaders x m (metadataOf x m)) + utf8Len (textHeader (m.isHtml x)) +
      utf8Len (toCrlf m.body) + if EndsLine m.body then 0 else 2 := by
  have hclean := ((clean_topHeaders x m (metadataOf x m)).append
    (clean_textHeader (m.isHtml x))).append (clean_toCrlf m.body)
  have hfinish : finish (topHeaders x m (metadataOf x m) ++ textHeader (m.isHtml x) ++
      toCrlf m.body) = finish m.body := by
    have hlast := finish_body (topHeaders x m (metadataOf x m) ++ (textContentType (m.isHtml x) ++
      headerLine "Content-Transfer-Encoding" "8bit".toList)) m.body
    rw [List.append_assoc (topHeaders x m (metadataOf x m))] at hlast
    exact hlast
  rw [retrOctets_text, retrText_nil, h, List.append_nil, hfinish, hclean, utf8Len_append,
    utf8Len_append, utf8Len_finish]

/-- A note is followed by one more CRLF, and breaks inside it can only add to the octets. -/
theorem retrOctets_note (h : EndsNote (m.suffix x)) :
    utf8Len (topHeaders x m (metadataOf x m)) + utf8Len (textHeader (m.isHtml x)) +
      utf8Len (toCrlf m.body) + utf8Len (m.suffix x) + 2 ≤ retrOctets (retrText x m []) := by
  have hle := utf8Len_le_toCrlf (retrText x m [])
  have hcrlf : utf8Len crlf = 2 := rfl
  rw [retrOctets_text, retrText_nil, finish_append h.ne_nil, finish_endsNote h, hcrlf]
  rw [retrText_nil, utf8Len_append, utf8Len_append, utf8Len_append] at hle
  omega

theorem retrOctets_cleanNote (h : EndsNote (m.suffix x)) (hclean : Clean (m.suffix x)) :
    retrOctets (retrText x m []) =
      utf8Len (topHeaders x m (metadataOf x m)) + utf8Len (textHeader (m.isHtml x)) +
        utf8Len (toCrlf m.body) + utf8Len (m.suffix x) + 2 := by
  have hall := (((clean_topHeaders x m (metadataOf x m)).append
    (clean_textHeader (m.isHtml x))).append (clean_toCrlf m.body)).append hclean
  have hcrlf : utf8Len crlf = 2 := rfl
  rw [retrOctets_text, retrText_nil, hall, finish_append h.ne_nil, finish_endsNote h, hcrlf,
    utf8Len_append, utf8Len_append, utf8Len_append]

theorem utf8Len_suffix (m : StoredMessage) : utf8Len (m.suffix x) =
    utf8Len (trustNoteSuffix (metadataOf x m) (m.isHtml x)) +
      utf8Len (noteSuffix (attachmentStatusNote x m) (m.isHtml x)) := utf8Len_append _ _

/-- The decisions of the listing and of the rendering. -/
theorem decisions (x : RenderCrates) (m : StoredMessage) :
    (listed m).isHtml x = m.isHtml x ∨ (listed m).isHtml x = false ∧ m.isHtml x = true := by
  cases hlisted : (listed m).isHtml x with
  | true => exact Or.inl (isHtml_of_listed hlisted).symm
  | false =>
      cases m.isHtml x with
      | true => exact Or.inr ⟨rfl, rfl⟩
      | false => exact Or.inl rfl

/-- A status note makes the text longer than announced. -/
theorem listSize_lt_of_note (h : CachedSizes m []) {note : List Char}
    (hnote : attachmentStatusNote x m = some note) :
    listSize x m [] < retrOctets (retrText x m []) := by
  have hlisted : attachmentStatusNote x (listed m) = some note := by
    rcases attachmentStatusNote_listed (x := x) (m := m) with heq | hnone
    · rw [← heq, hnote]
    · rw [hnote] at hnone
      exact absurd hnone (by simp)
  have hends : EndsNote (m.suffix x) := by
    rw [StoredMessage.suffix, hnote]
    exact (endsNote_noteSuffix (attachmentStatusNote_spec hnote).1 _).append _
  have hoctets := retrOctets_note hends
  have hescape := utf8Len_le_escapeHtmlText note
  have hmeta : metadataOf x (listed m) = metadataOf x m := rfl
  rw [utf8Len_suffix, hnote] at hoctets
  rw [listSize_nil h, utf8Len_suffix, hlisted, hmeta]
  rcases decisions x m with hsame | ⟨hplain, hhtml⟩
  · rw [hsame]
    omega
  · have htrust := (trustSuffix (metadataOf x m)).size
    rw [hhtml, utf8Len_noteSuffix_html, ← Nat.add_assoc] at hoctets
    rw [hplain, utf8Len_noteSuffix_plain, utf8Len_textHeader]
    omega

/-- A note that only the listing has makes the text shorter than announced. -/
theorem lt_listSize_of_legacy (h : CachedSizes m []) {note : List Char}
    (hnone : attachmentStatusNote x m = none)
    (hlisted : attachmentStatusNote x (listed m) = some note) :
    retrOctets (retrText x m []) < listSize x m [] := by
  have hlen := (attachmentStatusNote_spec hlisted).2
  have hmeta : metadataOf x (listed m) = metadataOf x m := rfl
  have hsuffix : m.suffix x = trustNoteSuffix (metadataOf x m) (m.isHtml x) := by
    rw [StoredMessage.suffix, hnone]
    exact List.append_nil _
  have hoctets : retrOctets (retrText x m []) ≤
      utf8Len (topHeaders x m (metadataOf x m)) + utf8Len (textHeader (m.isHtml x)) +
        utf8Len (toCrlf m.body) + utf8Len (m.suffix x) + 2 := by
    rcases Nat.eq_zero_or_pos (trustNotes (metadataOf x m)) with hzero | hpos
    · rw [trustNoteSuffix_of_zero _ _ hzero] at hsuffix
      rw [retrOctets_plain hsuffix, hsuffix, utf8Len_nil]
      split
      · omega
      · omega
    · rw [retrOctets_cleanNote]
      · rw [hsuffix]
        exact endsNote_trustNoteSuffix _ _ hpos
      · rw [hsuffix]
        exact clean_trustNoteSuffix _ _
  have hbytes : utf8Len note + 4 ≤
      utf8Len (noteSuffix (some note) ((listed m).isHtml x)) := by
    have hescape := utf8Len_le_escapeHtmlText note
    cases (listed m).isHtml x with
    | true =>
        rw [utf8Len_noteSuffix_html]
        omega
    | false => rw [utf8Len_noteSuffix_plain]
  rw [hsuffix] at hoctets
  rw [listSize_nil h, utf8Len_suffix, hlisted, hmeta]
  rcases decisions x m with hsame | ⟨hplain, hhtml⟩
  · rw [hsame] at hbytes ⊢
    omega
  · have htrust := (trustSuffix (metadataOf x m)).size
    have hle := trustNotes_le (metadataOf x m)
    rw [hplain] at hbytes ⊢
    rw [hhtml] at hoctets
    rw [utf8Len_textHeader]
    omega

/-- Without a status note, the trust notes and the end of the body decide. -/
theorem listSize_eq_iff_of_none (h : CachedSizes m [])
    (hlisted : attachmentStatusNote x (listed m) = none) :
    listSize x m [] = retrOctets (retrText x m []) ↔
      (listed m).isHtml x = m.isHtml x ∧ trustNotes (metadataOf x m) = 0 ∧ EndsLine m.body := by
  have hnone : attachmentStatusNote x m = none :=
    attachmentStatusNote_listed.elim (fun heq => heq.trans hlisted) id
  have hmeta : metadataOf x (listed m) = metadataOf x m := rfl
  have hsuffix : m.suffix x = trustNoteSuffix (metadataOf x m) (m.isHtml x) := by
    rw [StoredMessage.suffix, hnone]
    exact List.append_nil _
  have htrust := (trustSuffix (metadataOf x m)).size
  have hheader := utf8Len_textHeader
  rw [listSize_nil h, utf8Len_suffix, hlisted, hmeta, noteSuffix, utf8Len_nil]
  rcases Nat.eq_zero_or_pos (trustNotes (metadataOf x m)) with hzero | hpos
  · have hplain := trustNoteSuffix_of_zero (metadataOf x m) ((listed m).isHtml x) hzero
    rw [trustNoteSuffix_of_zero _ _ hzero] at hsuffix
    rw [retrOctets_plain hsuffix, hplain, utf8Len_nil]
    rcases decisions x m with hsame | ⟨hlist, hhtml⟩
    · rw [hsame]
      simp only [hzero, true_and]
      split
      · rename_i hends
        exact iff_of_true (by omega) hends
      · rename_i hends
        exact iff_of_false (by omega) hends
    · rw [hlist, hhtml]
      apply iff_of_false
      · split
        · omega
        · omega
      · exact fun hboth => absurd hboth.1 (by decide)
  · rw [retrOctets_cleanNote]
    · apply iff_of_false
      · rw [hsuffix]
        rcases decisions x m with hsame | ⟨hlist, hhtml⟩
        · rw [hsame]
          omega
        · rw [hlist, hhtml]
          omega
      · exact fun hboth => absurd hboth.2.1 (Nat.pos_iff_ne_zero.1 hpos)
    · rw [hsuffix]
      exact endsNote_trustNoteSuffix _ _ hpos
    · rw [hsuffix]
      exact clean_trustNoteSuffix _ _

/-- **Sizes without attachments.** -/
theorem listSize_eq_iff_nil (h : CachedSizes m []) :
    listSize x m [] = retrOctets (retrText x m []) ↔ SizesMatch x m [] := by
  have hmatch : SizesMatch x m [] ↔ attachmentStatusNote x (listed m) = none ∧
      (listed m).isHtml x = m.isHtml x ∧ trustNotes (metadataOf x m) = 0 ∧ EndsLine m.body := by
    unfold SizesMatch
    split
    · rename_i hsame
      simp only [hsame, ne_eq, not_true_eq_false, false_or, true_and]
      exact ⟨fun ⟨hzero, hnote, hends⟩ => ⟨hnote, hzero, hends⟩,
        fun ⟨hnote, hzero, hends⟩ => ⟨hzero, hnote, hends⟩⟩
    · rename_i hdiffer
      apply iff_of_false
      · exact fun hboth => absurd hboth.2 (by decide)
      · exact fun hboth => hdiffer hboth.2.1
  rw [hmatch]
  cases hlisted : attachmentStatusNote x (listed m) with
  | none =>
      rw [listSize_eq_iff_of_none h hlisted]
      simp only [true_and]
  | some note =>
      apply iff_of_false
      · rcases attachmentStatusNote_listed (x := x) (m := m) with heq | hnone
        · exact Nat.ne_of_lt (listSize_lt_of_note h (heq.trans hlisted))
        · exact (Nat.ne_of_lt (lt_listSize_of_legacy h hnone hlisted)).symm
      · exact fun hboth => absurd hboth.1 (by simp)

end Text

/-! ## Messages with attachments -/

section Parts

variable {x : RenderCrates} {m : StoredMessage} {attachments : List CachedAttachment}

theorem attachmentRawSize_eq {a : CachedAttachment} (h : a.size = a.data.length) :
    attachmentRawSize a = a.data.length := by
  rw [attachmentRawSize, h, Int.toNat_natCast, ite_self]

theorem shownSize_eq {a : CachedAttachment} (h : a.size = a.data.length) :
    a.shownSize = a.data.length := by
  rw [CachedAttachment.shownSize, h, ite_self]

/-- The listing knows all that the size of an attachment depends on. -/
theorem attachmentSize_listed {a : CachedAttachment} (h : a.size = a.data.length) (inline : Bool) :
    attachmentSize x (listedAttachment a) inline = attachmentSize x a inline := by
  have hraw : attachmentRawSize (listedAttachment a) = attachmentRawSize a := by
    rw [attachmentRawSize_eq h, ← Int.toNat_natCast a.data.length, ← h]
    rfl
  have hshown : (listedAttachment a).shownSize = a.shownSize := by
    rw [shownSize_eq h, ← h]
    rfl
  have hheaders : attachmentHeaders x (listedAttachment a) inline = attachmentHeaders x a inline := by
    unfold attachmentHeaders
    rw [hshown]
    rfl
  rw [attachmentSize, attachmentSize, hraw, hheaders]

theorem sum_listed (h : ∀ a ∈ attachments, a.size = a.data.length) :
    ((attachments.map listedAttachment).map (attachmentSize x · false)).sum =
      (attachments.map (attachmentSize x · false)).sum := by
  have hsizes : attachments.map ((attachmentSize x · false) ∘ listedAttachment) =
      attachments.map (attachmentSize x · false) :=
    List.map_congr_left fun a ha => attachmentSize_listed (h a ha) false
  rw [List.map_map, hsizes]

theorem inlineCount_listed (attachments : List CachedAttachment) :
    inlineCount (attachments.map listedAttachment) = inlineCount attachments := by
  have hsame : goesInline true ∘ listedAttachment = goesInline true := funext fun _ => rfl
  rw [inlineCount, inlineCount, List.filter_map, List.length_map, hsame]

/-- The listing has the size of every structure. -/
theorem multipartSize_listed (h : ∀ a ∈ attachments, a.size = a.data.length) (asterId : String)
    (isHtml : Bool) (n : Nat) :
    multipartSize x asterId isHtml n (attachments.map listedAttachment) =
      multipartSize x asterId isHtml n attachments := by
  cases isHtml with
  | false => rw [multipartSize_plain, multipartSize_plain, sum_listed h]
  | true =>
      have hlisted := multipartSize_html x asterId n (attachments.map listedAttachment)
      have hstored := multipartSize_html x asterId n attachments
      rw [sum_listed h, inlineCount_listed, structureCost, inlineCount_listed, List.length_map,
        ← structureCost] at hlisted
      omega

/-- What LIST announces with attachments. -/
theorem listSize_parts (h : CachedSizes m attachments) (hparts : attachments ≠ []) :
    listSize x m attachments = utf8Len (topHeaders x m (metadataOf x m)) +
      multipartSize x m.asterId ((listed m).isHtml x)
        (utf8Len (toCrlf m.body) +
          utf8Len (trustNoteSuffix (metadataOf x m) ((listed m).isHtml x))) attachments := by
  have hnote : attachmentStatusNote x (listed m) = none :=
    attachmentStatusNote_of_known (h.known hparts)
  have hsuffix : (listed m).suffix x =
      trustNoteSuffix (metadataOf x m) ((listed m).isHtml x) := by
    rw [StoredMessage.suffix, hnote]
    exact List.append_nil _
  have hclean : Clean ((listed m).suffix x) := hsuffix ▸ clean_trustNoteSuffix _ _
  have hne : attachments.map listedAttachment ≠ [] := fun hnil => hparts (List.map_eq_nil_iff.1 hnil)
  obtain ⟨hsize, _⟩ := renderWith_parts (x := x) hne (fun hmode => absurd hmode (by decide))
    (fun _ _ hmode => absurd hmode (by decide)) (sized_hint hclean rfl)
  rw [multipartSize_listed h.data, hsuffix] at hsize
  rw [listSize, pop3Size, renderedSize, hsize, ← toNat_size h]
  rfl

/-- The octets of RETR with attachments. -/
theorem retrOctets_parts (h : CachedSizes m attachments) (hparts : attachments ≠ []) :
    retrOctets (retrText x m attachments) = utf8Len (topHeaders x m (metadataOf x m)) +
      multipartSize x m.asterId (m.isHtml x)
        (utf8Len (toCrlf m.body) + utf8Len (trustNoteSuffix (metadataOf x m) (m.isHtml x)))
        attachments := by
  have hknown := h.known hparts
  have hstored : attachmentPartsKnown .stored = true := rfl
  have hstate : (withAttachments m).attachmentsState = .stored := by
    unfold withAttachments
    split
    · rename_i hdemand
      revert hdemand hknown
      cases m.attachmentsState
      · decide
      · decide
      · decide
      · decide
      · decide
    · rfl
  have hid : (withAttachments m).asterId = m.asterId := by
    unfold withAttachments
    split
    · rfl
    · rfl
  obtain ⟨htop, hbody, hsame⟩ := withAttachments_text (x := x) (m := m)
  have hsuffix : m.suffix x = trustNoteSuffix (metadataOf x m) (m.isHtml x) := by
    rw [StoredMessage.suffix, attachmentStatusNote_of_known hknown]
    exact List.append_nil _
  have hclean : Clean ((withAttachments m).suffix x) := by
    rw [hsame, hsuffix]
    exact clean_trustNoteSuffix _ _
  obtain ⟨hsize, htext⟩ := renderWith_parts (x := x) hparts (m := withAttachments m)
    (fun _ => by rw [hstate]; decide)
    (fun a ha _ => (attachmentRawSize_eq (h.data a ha)).symm) (sized_body hclean)
  obtain ⟨hcleanText, hlen, hlast⟩ := htext rfl
  have hfinish : finish (renderWith x (withAttachments m) attachments true true).text = [] := by
    rw [finish, if_pos (Or.inr (Or.inr hlast))]
  rw [hbody, hsame, hsuffix, htop, withAttachments_isHtml, hid] at hsize
  rw [retrOctets_text, retrText, fullMessageText, hstate, if_pos hstored, renderText, hcleanText,
    hlen, hfinish, hsize, utf8Len_nil, Nat.add_zero]

/-- **Sizes with attachments.** -/
theorem listSize_eq_iff_parts (h : CachedSizes m attachments) (hparts : attachments ≠ []) :
    listSize x m attachments = retrOctets (retrText x m attachments) ↔
      SizesMatch x m attachments := by
  rw [listSize_parts h hparts, retrOctets_parts h hparts]
  unfold SizesMatch
  rcases decisions x m with hsame | ⟨hlist, hhtml⟩
  · rw [if_pos hsame, hsame]
    exact iff_of_true rfl (Or.inl hparts)
  · have htrust := (trustSuffix (metadataOf x m)).size
    have hle := trustNotes_le (metadataOf x m)
    have hplain := multipartSize_plain x m.asterId (utf8Len (toCrlf m.body) +
      utf8Len (trustNoteSuffix (metadataOf x m) false)) attachments
    have hinline := multipartSize_html x m.asterId (utf8Len (toCrlf m.body) +
      utf8Len (trustNoteSuffix (metadataOf x m) true)) attachments
    have hheader := utf8Len_textHeader
    have hpos := List.length_pos_iff.2 hparts
    have hdiffer : ¬ (listed m).isHtml x = m.isHtml x := by
      rw [hlist, hhtml]
      decide
    rw [if_neg hdiffer, hlist, hhtml]
    unfold structureCost at hinline
    split at hinline
    · rename_i hzero
      rw [if_neg (by omega)]
      omega
    · split at hinline
      · rename_i hall
        rw [if_pos hall]
        omega
      · rename_i hall
        rw [if_neg hall]
        omega

end Parts

/-! ## Every message -/

section Sizes

variable {x : RenderCrates} {m : StoredMessage} {attachments : List CachedAttachment}

/-- **When LIST announces what RETR sends.** -/
theorem listSize_eq_iff (h : CachedSizes m attachments) :
    listSize x m attachments = retrOctets (retrText x m attachments) ↔
      SizesMatch x m attachments := by
  by_cases hparts : attachments = []
  · subst hparts
    exact listSize_eq_iff_nil h
  · exact listSize_eq_iff_parts h hparts

/-- STAT sums the octets that RETR sends, where the messages are as LIST needs them. -/
theorem statOctets_eq {maildrop : List Entry}
    (h : ∀ e ∈ maildrop, e.deleted = false →
      CachedSizes e.message e.attachments ∧ SizesMatch x e.message e.attachments) :
    statOctets x maildrop = ((maildrop.filter fun e => !e.deleted).map fun e =>
      retrOctets (retrText x e.message e.attachments)).sum := by
  have hsizes : ∀ e ∈ maildrop.filter fun e => !e.deleted,
      listSize x e.message e.attachments = retrOctets (retrText x e.message e.attachments) := by
    intro e he
    obtain ⟨hmem, hdeleted⟩ := List.mem_filter.1 he
    obtain ⟨hcached, hmatch⟩ := h e hmem (by simpa using hdeleted)
    exact (listSize_eq_iff hcached).2 hmatch
  rw [statOctets, List.map_congr_left hsizes]

/-- What a client reads from a reply, for every text and line count. -/
def RepliesFramed : Prop :=
  ∀ (text : List Char) (lineCount : Nat),
    (Clean (retrResponse text) ∧ Framed (retrResponse text) ∧
      joined (replyLines (retrResponse text)) = joined (wireLines text)) ∧
    (Clean (topResponse text lineCount) ∧ Framed (topResponse text lineCount) ∧
      replyLines (topResponse text lineCount) = topLines text lineCount)

end Sizes

/-! ## A body without a last line break -/

/-- Third-party code that reads no date and no metadata. -/
def plainCrates : RenderCrates where
  fromStr _ := none
  sha256 _ := Vector.replicate 32 0
  base64 data := List.replicate ((data.length + 2) / 3 * 4) 'A'
  rfc3339 _ := none
  rfc2822 _ := none
  fromFormat _ _ := none
  formatBytes _ := []
  base64_length data := List.length_replicate
  base64_chars data := by
    intro c hc
    rw [List.eq_of_mem_replicate hc]
    rfl

/-- A plain message with the body `body`. -/
def plainMessage (body : String) : StoredMessage where
  asterId := "m1"
  subject := some "Hello"
  sender := some "ann@example.com"
  recipients := none
  date := none
  size := Db.crlfNormalizedLen body
  bodyText := some body
  rawHeaders := none
  attachmentsState := .none

theorem plainMessage_cached (body : String) : CachedSizes (plainMessage body) [] :=
  ⟨rfl, fun _ ha => absurd ha List.not_mem_nil, fun h => absurd rfl h⟩


end AsterBridge.Pop3
