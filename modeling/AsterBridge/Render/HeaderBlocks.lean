import AsterBridge.Lib.Multipart
import AsterBridge.Render.Sizes

/-!
# Blocks of headers

The headers that `message_render.rs` writes are lines that begin with its own names, in its order
and each at most once. No value has a break in it, whatever the fields of a message contain.
-/

set_option autoImplicit false

namespace AsterBridge.Render

open AsterBridge.Lib AsterBridge.Lib.Text AsterBridge.Lib.Lines AsterBridge.Lib.Multipart
open AsterBridge.Address

/-! ## Blocks of headers -/

/-- A header line without its CRLF. -/
def fieldLine (field : String × List Char) : Line := field.1.toList ++ ": ".toList ++ field.2

/-- Lines that begin with the names, in their order and each at most once, and no break in them. -/
def NamedOnce (names : List String) (lines : List Line) : Prop :=
  ∃ fields : List (String × List Char), lines = fields.map fieldLine ∧
    (fields.map Prod.fst).Sublist names ∧ ∀ field ∈ fields, NoBreak field.2

/-- The text of such lines. -/
def HeaderBlock (names : List String) (s : List Char) : Prop :=
  ∃ lines, NamedOnce names lines ∧ s = joined lines

/-- A name of a header: not empty, no break in it, and no hyphen at its beginning. -/
def IsName (name : String) : Prop :=
  NoBreak name.toList ∧ name.toList ≠ [] ∧ name.toList.head? ≠ some '-'

instance (name : String) : Decidable (IsName name) := inferInstanceAs (Decidable (_ ∧ _ ∧ _))

section Blocks

variable {names names' : List String} {s t value : List Char} {lines : List Line}

theorem HeaderBlock.append (h : HeaderBlock names s) (h' : HeaderBlock names' t) :
    HeaderBlock (names ++ names') (s ++ t) := by
  obtain ⟨_, ⟨fields, rfl, hnames, hvalues⟩, rfl⟩ := h
  obtain ⟨_, ⟨fields', rfl, hnames', hvalues'⟩, rfl⟩ := h'
  refine ⟨_, ⟨fields ++ fields', rfl, ?_, ?_⟩, ?_⟩
  · rw [List.map_append]
    exact hnames.append hnames'
  · intro field hfield
    rcases List.mem_append.1 hfield with hfield | hfield
    · exact hvalues field hfield
    · exact hvalues' field hfield
  · rw [List.map_append, joined_append]

theorem headerBlock_line (name : String) (h : NoBreak value) :
    HeaderBlock [name] (headerLine name value) := by
  refine ⟨_, ⟨[(name, value)], rfl, List.Sublist.refl _, ?_⟩, ?_⟩
  · intro field hfield
    rw [List.mem_singleton.1 hfield]
    exact h
  · rw [List.map_singleton, joined_cons, joined_nil, List.append_nil]
    rfl

theorem headerBlock_nil (names : List String) : HeaderBlock names [] :=
  ⟨[], ⟨[], rfl, List.nil_sublist _, fun _ hfield => (nomatch hfield)⟩, rfl⟩

theorem headerBlock_optional (name : String) {value : Option (List Char)}
    (h : ∀ v, value = some v → NoBreak v) : HeaderBlock [name] (optionalHeader name value) := by
  cases value with
  | none => exact headerBlock_nil _
  | some v => exact headerBlock_line name (h v rfl)

theorem headerBlock_messageId (metadata : Json) (asterId : String) :
    HeaderBlock ["Message-ID"] (messageIdHeader metadata asterId) := by
  unfold messageIdHeader
  split
  case h_1 mid hmid =>
    have hplain := noBreak_metadataText hmid
    split
    · exact headerBlock_line _ hplain
    · exact headerBlock_line _ ((hplain.cons (by decide)).append (by decide))
  case h_2 =>
    exact headerBlock_line _ (((noBreak_sanitizeHeader _).cons (by decide)).append (by decide))

theorem headerBlock_reference (metadata : Json) (key label : String) :
    HeaderBlock [label] (referenceHeader metadata key label) := by
  unfold referenceHeader
  split
  case h_1 value hvalue => exact headerBlock_line _ (noBreak_metadataText hvalue)
  case h_2 => exact headerBlock_nil _

/-- The names of `top_headers`. -/
def topNames : List String :=
  ["Date", "From", "To", "Cc", "Bcc", "Reply-To", "Subject", "Message-ID", "In-Reply-To",
    "References", "MIME-Version"]

/-- The names of a text part. -/
def textNames : List String := ["Content-Type", "Content-Transfer-Encoding"]

/-- The names of an attachment. -/
def attachmentNames : List String :=
  ["Content-Type", "Content-Transfer-Encoding", "Content-Disposition", "Content-ID"]

theorem headerBlock_topHeaders (x : RenderCrates) (m : StoredMessage) (metadata : Json) :
    HeaderBlock topNames (topHeaders x m metadata) := by
  have haddress : ∀ key v, (metaAddressText metadata key).map sanitizeHeader = some v →
      NoBreak v := by
    intro key v hv
    obtain ⟨s, _, rfl⟩ := Option.map_eq_some_iff.1 hv
    exact noBreak_sanitizeHeader s
  have hto : ∀ v, (if sanitizeHeader (m.recipients.getD "").toList = [] then none
      else some (sanitizeHeader (m.recipients.getD "").toList)) = some v → NoBreak v := by
    intro v hv
    split at hv
    · exact absurd hv (by simp)
    · exact Option.some.inj hv ▸ noBreak_sanitizeHeader _
  have hplain := fun name s => headerBlock_line name (noBreak_sanitizeHeader s)
  have hoptional := fun name key => headerBlock_optional name (haddress key)
  unfold topHeaders
  -- one block after the other, in the order of the names
  exact ((((((((((hplain "Date" _).append (hplain "From" _)).append
    (headerBlock_optional "To" hto)).append (hoptional "Cc" "cc")).append
    (hoptional "Bcc" "bcc")).append (hoptional "Reply-To" "reply_to")).append
    (hplain "Subject" _)).append (headerBlock_messageId metadata m.asterId)).append
    (headerBlock_reference metadata _ "In-Reply-To")).append
    (headerBlock_reference metadata _ "References")).append (headerBlock_line _ (by decide))

theorem textHeader_eq (isHtml : Bool) : ∃ s, HeaderBlock textNames s ∧
    textHeader isHtml = s ++ crlf := by
  have htype : HeaderBlock ["Content-Type"] (textContentType isHtml) := by
    cases isHtml
    · exact headerBlock_line _ (by decide)
    · exact headerBlock_line _ (by decide)
  have hencoding : HeaderBlock ["Content-Transfer-Encoding"]
      (headerLine "Content-Transfer-Encoding" "8bit".toList) := headerBlock_line _ (by decide)
  exact ⟨_, htype.append hencoding, rfl⟩

/-- A text in three pieces, with more text after it. -/
theorem append_of_split {u v : List Char} (h : s = t ++ (u ++ v)) (w : List Char) :
    s ++ w = t ++ (u ++ (v ++ w)) := by
  rw [h, List.append_assoc, List.append_assoc]

theorem multipartHeader_eq {subtype : String} {boundary : List Char}
    (hsubtype : NoBreak subtype.toList) (hboundary : NoBreak boundary) :
    ∃ s, HeaderBlock ["Content-Type"] s ∧ multipartHeader subtype boundary = s ++ crlf := by
  have hname : "Content-Type: multipart/".toList =
      "Content-Type".toList ++ (": ".toList ++ "multipart/".toList) := by decide
  have hvalue : NoBreak ("multipart/".toList ++ subtype.toList ++ "; boundary=\"".toList ++
      boundary ++ ['"']) := by
    apply NoBreak.append _ (by decide)
    apply NoBreak.append _ hboundary
    exact (NoBreak.append (by decide) hsubtype).append (by decide)
  refine ⟨_, headerBlock_line "Content-Type" hvalue, ?_⟩
  unfold multipartHeader headerLine
  simp only [List.append_assoc]
  exact append_of_split hname _

theorem relatedHeader_eq {boundary : List Char} (hboundary : NoBreak boundary) :
    ∃ s, HeaderBlock ["Content-Type"] s ∧ Ctx.relatedHeader boundary = s ++ crlf := by
  have hname : "Content-Type: multipart/related; boundary=\"".toList =
      "Content-Type: multipart/".toList ++ ("related".toList ++ "; boundary=\"".toList) := by
    decide
  obtain ⟨s, hs, heq⟩ := @multipartHeader_eq "related" _ (by decide) hboundary
  refine ⟨s, hs, Eq.trans ?_ heq⟩
  unfold multipartHeader Ctx.relatedHeader
  simp only [List.append_assoc]
  exact append_of_split hname _

theorem attachmentHeaders_eq (x : RenderCrates) (a : CachedAttachment) (inline : Bool) :
    ∃ s, HeaderBlock attachmentNames s ∧ attachmentHeaders x a inline = s ++ crlf := by
  obtain ⟨hname, hfilename⟩ := noBreak_headerNameParams x a.name
  have hkind : NoBreak (if inline then "inline" else "attachment").toList := by
    cases inline
    · decide
    · decide
  have htype : HeaderBlock ["Content-Type"] (headerLine "Content-Type"
      (cleanContentType a.contentType ++ "; ".toList ++ (headerNameParams x a.name).1)) :=
    headerBlock_line _ (((noBreak_cleanContentType _).append (by decide)).append hname)
  have hencoding : HeaderBlock ["Content-Transfer-Encoding"]
      (headerLine "Content-Transfer-Encoding" "base64".toList) := headerBlock_line _ (by decide)
  have hdisposition : HeaderBlock ["Content-Disposition"] (headerLine "Content-Disposition"
      ((if inline then "inline" else "attachment").toList ++ "; ".toList ++
        (headerNameParams x a.name).2 ++ "; size=".toList ++
        (toString (max a.shownSize 0).toNat).toList)) := by
    apply headerBlock_line
    apply NoBreak.append _ (noBreak_toString _)
    exact ((hkind.append (by decide)).append hfilename).append (by decide)
  have hid : HeaderBlock ["Content-ID"] (optionalHeader "Content-ID"
      (((a.contentId.map cleanContentId).filter (· ≠ [])).map fun cid => '<' :: cid ++ ['>'])) :=
    headerBlock_optional _ fun v => noBreak_contentIdValue
  exact ⟨_, ((htype.append hencoding).append hdisposition).append hid, rfl⟩

/-- A block of headers before an empty line and a body. -/
theorem HeaderBlock.pieces (h : HeaderBlock names s) (hnames : ∀ name ∈ names, IsName name)
    (t : List Char) :
    NamedOnce names (headerLines (pieces (s ++ (crlf ++ t)))) ∧
      bodyLines (pieces (s ++ (crlf ++ t))) = Multipart.pieces t ∧
      ∃ lines, (∀ line ∈ lines, line ≠ [] ∧ line.head? ≠ some '-') ∧
        Multipart.pieces (s ++ (crlf ++ t)) = lines ++ [] :: Multipart.pieces t := by
  obtain ⟨_, ⟨fields, rfl, hsub, hvalues⟩, rfl⟩ := h
  have hname : ∀ field ∈ fields, IsName field.1 :=
    fun field hfield => hnames _ (hsub.subset (List.mem_map_of_mem hfield))
  have hbreak : ∀ line ∈ fields.map fieldLine, NoBreak line := by
    intro line hline
    obtain ⟨field, hfield, rfl⟩ := List.mem_map.1 hline
    exact ((hname field hfield).1.append (by decide)).append (hvalues field hfield)
  have hstart : ∀ line ∈ fields.map fieldLine, line ≠ [] ∧ line.head? ≠ some '-' := by
    intro line hline
    obtain ⟨field, hfield, rfl⟩ := List.mem_map.1 hline
    obtain ⟨-, hne, hhead⟩ := hname field hfield
    obtain ⟨c, cs, hcons⟩ := List.exists_cons_of_ne_nil hne
    rw [fieldLine, hcons]
    rw [hcons] at hhead
    exact ⟨List.cons_ne_nil _ _, hhead⟩
  have hall : Multipart.pieces (joined (fields.map fieldLine) ++ (crlf ++ t)) =
      fields.map fieldLine ++ [] :: Multipart.pieces t := by
    rw [pieces_joined hbreak, pieces_crlf]
  rw [hall, headerLines_append fun line hline => (hstart line hline).1,
    bodyLines_append fun line hline => (hstart line hline).1]
  exact ⟨⟨fields, rfl, hsub, hvalues⟩, rfl, _, hstart, rfl⟩

end Blocks

end AsterBridge.Render
