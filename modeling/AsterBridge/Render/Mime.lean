import AsterBridge.Lib.Base64
import AsterBridge.Render.HeaderBlocks
import AsterBridge.Render.MessageSizes

/-!
# Rendered mail as MIME

A rendered message is read back: split into its headers and its parts at its two boundaries, of
which one is inside the other. Each part has the text or the bytes that were put into it.
-/

set_option autoImplicit false

namespace AsterBridge.Render

open AsterBridge.Lib AsterBridge.Lib.Text AsterBridge.Lib.Lines AsterBridge.Lib.Multipart
open AsterBridge.Pop3

/-! ## The text of a message -/

mutual

/-- What `write_multipart` writes for a child, where `text` is the text of the message. -/
def childText (x : RenderCrates) (text : List Char) : Child → List Char
  | .text header => header ++ text
  | .attachment a inline => attachmentHeaders x a inline ++ base64Lines (x.base64 a.data)
  | .related boundary children =>
      Ctx.relatedHeader boundary ++ childrenText x text boundary children ++
        Ctx.closingLine boundary

/-- What the loop of `write_multipart` writes. -/
def childrenText (x : RenderCrates) (text boundary : List Char) : List Child → List Char
  | [] => []
  | child :: rest =>
      Ctx.boundaryLine boundary ++ childText x text child ++ crlf ++
        childrenText x text boundary rest

end

/-- The writer writes, and no data is missing so far. -/
structure Out.Writing (o : Out) : Prop where
  materialize : o.materialize = true
  attachmentData : o.attachmentData = true
  gap : o.gap = none

/-- A writer that writes `s` and goes on writing. -/
structure Appends (o o' : Out) (s : List Char) : Prop where
  buf : o'.buf = o.buf ++ s
  writing : o'.Writing
  onDemand : o'.onDemand = o.onDemand

section Writer

variable {x : RenderCrates} {t : TextPart} {o o' o'' : Out} {s s' body : List Char}

theorem Appends.trans (h : Appends o o' s) (h' : Appends o' o'' s') : Appends o o'' (s ++ s') where
  buf := by rw [h'.buf, h.buf, List.append_assoc]
  writing := h'.writing
  onDemand := h'.onDemand.trans h.onDemand

theorem Out.Writing.push (h : o.Writing) (s : List Char) : Appends o (o.push s) s where
  buf := if_pos ⟨h.materialize, h.gap⟩
  writing := ⟨h.materialize, h.attachmentData, h.gap⟩
  onDemand := rfl

theorem Appends.push (h : Appends o o' s) (s' : List Char) : Appends o (o'.push s') (s ++ s') :=
  h.trans (h.writing.push s')

theorem Out.Writing.pushBase64 (h : o.Writing) {data : Bytes} (hint : Nat)
    (hdata : o.onDemand = true → data ≠ []) :
    Appends o (o.pushBase64 x data hint) (base64Lines (x.base64 data)) := by
  have hthere : ¬(o.materialize = true ∧ ((!o.attachmentData) = true ∨
      o.onDemand = true ∧ data = [])) := by
    rintro ⟨-, hmissing | ⟨hdemand, hnil⟩⟩
    · rw [h.attachmentData] at hmissing
      exact absurd hmissing (by decide)
    · exact hdata hdemand hnil
  unfold Out.pushBase64
  rw [if_neg hthere, if_pos ⟨h.materialize, h.gap⟩]
  exact ⟨rfl, ⟨h.materialize, h.attachmentData, h.gap⟩, rfl⟩

/-- The text part is the body with CRLFs and the notes. -/
theorem Out.Writing.write (h : o.Writing) (hbody : t.body = some body) :
    Appends o (t.write o) (toCrlf body ++ t.suffix) := by
  unfold TextPart.write
  rw [hbody]
  dsimp only
  rw [if_pos h.materialize]
  exact (h.push _).push _

mutual

/-- A child is written as its text. -/
theorem appends_child (hbody : t.body = some body) : ∀ (child : Child) (c : Ctx)
    (section_ : List Char), c.out.Writing →
    (c.out.onDemand = true → ∀ a ∈ child.attachments, a.data ≠ []) →
    Appends c.out (c.writeChild x t section_ child).1.out
      (childText x (toCrlf body ++ t.suffix) child)
  | .text header, c, section_, h, hdata => by
      rw [Ctx.writeChild, childText]
      exact (h.push header).trans ((h.push header).writing.write hbody)
  | .attachment a inline, c, section_, h, hdata => by
      rw [Ctx.writeChild, childText]
      exact (h.push _).trans ((h.push _).writing.pushBase64 _
        fun hdemand => hdata hdemand a List.mem_cons_self)
  | .related boundary children, c, section_, h, hdata => by
      have hheader := h.push (Ctx.relatedHeader boundary)
      have hchildren := appends_children hbody children
        { c with out := c.out.push (Ctx.relatedHeader boundary) } section_ boundary 0
        hheader.writing hdata
      have hclosed := (hheader.trans hchildren).push (Ctx.closingLine boundary)
      rw [Ctx.writeChild, childText]
      dsimp only
      unfold Ctx.closeMultipart
      split
      · exact hclosed
      · exact hclosed

/-- The children are written one after the other. -/
theorem appends_children (hbody : t.body = some body) : ∀ (children : List Child) (c : Ctx)
    (section_ boundary : List Char) (idx : Nat), c.out.Writing →
    (c.out.onDemand = true → ∀ a ∈ childrenAttachments children, a.data ≠ []) →
    Appends c.out (c.writeChildren x t section_ boundary idx children).1.out
      (childrenText x (toCrlf body ++ t.suffix) boundary children)
  | [], c, section_, boundary, idx, h, hdata => ⟨(List.append_nil _).symm, h, rfl⟩
  | child :: rest, c, section_, boundary, idx, h, hdata => by
      have hline := h.push (Ctx.boundaryLine boundary)
      have hone := (hline.trans (appends_child hbody child
        { c with out := c.out.push (Ctx.boundaryLine boundary) } (Ctx.childSection section_ idx)
        hline.writing fun hdemand a ha =>
          hdata hdemand a (List.mem_append_left _ ha))).push crlf
      let d := (Ctx.writeChild x t { c with out := c.out.push (Ctx.boundaryLine boundary) }
        (Ctx.childSection section_ idx) child).1
      have hmore := appends_children hbody rest { d with out := d.out.push crlf } section_ boundary
        (idx + 1) hone.writing fun hdemand a ha =>
          hdata (hone.onDemand.symm.trans hdemand) a (List.mem_append_right _ ha)
      rw [Ctx.writeChildren, childrenText]
      exact hone.trans hmore

end

end Writer

/-! ## Renderings -/

/-- The text of a message with its notes. -/
def StoredMessage.wholeText (x : RenderCrates) (m : StoredMessage) : List Char :=
  toCrlf m.body ++ m.suffix x

section Renderings

variable {x : RenderCrates} {m : StoredMessage} {attachments : List CachedAttachment}
  {t : TextPart}

mutual

/-- What is written stays written. -/
theorem prefix_child : ∀ (child : Child) (c : Ctx) (section_ : List Char),
    c.out.buf <+: (c.writeChild x t section_ child).1.out.buf
  | .text header, c, section_ => by
      rw [Ctx.writeChild]
      refine (c.out.buf_push header).trans ?_
      change _ <+: (t.write (c.out.push header)).buf
      unfold TextPart.write
      refine List.IsPrefix.trans ?_ (Out.buf_push _ _)
      split
      · split
        · exact Out.buf_push _ _
        · exact List.prefix_refl _
      · exact List.prefix_refl _
  | .attachment a inline, c, section_ => by
      rw [Ctx.writeChild]
      exact (c.out.buf_push _).trans (Out.buf_pushBase64 _ _ _)
  | .related boundary children, c, section_ => by
      have hchildren := prefix_children children
        { c with out := c.out.push (Ctx.relatedHeader boundary) } section_ boundary 0
      rw [Ctx.writeChild]
      dsimp only
      unfold Ctx.closeMultipart
      split
      · exact ((c.out.buf_push _).trans hchildren).trans (Out.buf_push _ _)
      · exact ((c.out.buf_push _).trans hchildren).trans (Out.buf_push _ _)

theorem prefix_children : ∀ (children : List Child) (c : Ctx) (section_ boundary : List Char)
    (idx : Nat), c.out.buf <+: (c.writeChildren x t section_ boundary idx children).1.out.buf
  | [], c, section_, boundary, idx => List.prefix_refl _
  | child :: rest, c, section_, boundary, idx => by
      have hone := prefix_child child { c with out := c.out.push (Ctx.boundaryLine boundary) }
        (Ctx.childSection section_ idx)
      let d := (Ctx.writeChild x t { c with out := c.out.push (Ctx.boundaryLine boundary) }
        (Ctx.childSection section_ idx) child).1
      have hmore := prefix_children rest { d with out := d.out.push crlf } section_ boundary
        (idx + 1)
      rw [Ctx.writeChildren]
      exact (((c.out.buf_push _).trans hone).trans (Out.buf_push _ crlf)).trans hmore

end

/-- The text begins with the headers, whatever is missing after them. -/
theorem prefix_renderText (hparts : attachments ≠ []) :
    topHeaders x m (metadataOf x m) ++ multipartHeader
        (outerParts x m.asterId (m.isHtml x) attachments).1 (boundaryFor x m.asterId 0) <+:
      renderText x m attachments := by
  rw [renderText, (renderWith_eq (x := x) (m := m) hparts true).1]
  unfold Ctx.writeMultipart Ctx.closeMultipart
  dsimp only
  rw [if_pos rfl]
  refine List.IsPrefix.trans ?_ (Out.buf_push _ _)
  refine List.IsPrefix.trans ?_ (prefix_children _ _ _ _ _)
  exact List.prefix_refl _

/-- **The text of a message with attachments**, where nothing is missing. -/
theorem renderText_parts (hparts : attachments ≠ []) (hall : AllThere m attachments) :
    let parts := outerParts x m.asterId (m.isHtml x) attachments
    let boundary := boundaryFor x m.asterId 0
    renderText x m attachments =
      topHeaders x m (metadataOf x m) ++ multipartHeader parts.1 boundary ++
      (childrenText x (m.wholeText x) boundary parts.2 ++ Ctx.closingLine boundary) := by
  intro parts boundary
  have hstart : (m.writer true).Writing := ⟨rfl, rfl, rfl⟩
  have hheader := hstart.push (topHeaders x m (metadataOf x m) ++ multipartHeader parts.1 boundary)
  have hdata : (m.writer true).onDemand = true →
      ∀ a ∈ childrenAttachments parts.2, a.data ≠ [] := by
    intro hdemand a ha
    exact hall (of_decide_eq_true hdemand) a ((mem_outerParts _ _ a).1 ha)
  have hchildren := @appends_children x (m.textPart x true) m.body rfl parts.2
    ⟨(m.writer true).push (topHeaders x m (metadataOf x m) ++ multipartHeader parts.1 boundary), []⟩
    [] boundary 0 hheader.writing hdata
  have hclosed := (hheader.trans hchildren).push (Ctx.closingLine boundary)
  rw [renderText, (renderWith_eq (x := x) (m := m) hparts true).1]
  unfold Ctx.writeMultipart Ctx.closeMultipart
  dsimp only
  rw [if_pos rfl]
  refine hclosed.buf.trans ?_
  simp only [StoredMessage.writer, List.nil_append, List.append_assoc]
  rfl

end Renderings

/-! ## Reading a rendering -/

section Reading

variable {x : RenderCrates} {boundary boundary' : List Char} {line : Line} {encoded : List Char}

/-- A line that begins otherwise is no boundary line. -/
theorem isDelimiter_of_head (h : line.head? ≠ some '-') : isDelimiter boundary line = false := by
  rw [← Bool.not_eq_true]
  intro hdelimiter
  obtain ⟨rest, rfl⟩ := List.isPrefixOf_iff_prefix.1 hdelimiter
  exact h rfl

theorem boundaryFor_eq (x : RenderCrates) (asterId : String) : ∃ base,
    boundaryFor x asterId 0 = base ++ ['0'] ∧ boundaryFor x asterId 1 = base ++ ['1'] := by
  refine ⟨"=_aster_".toList ++
    ((x.sha256 (Utf8.encode asterId)).toList.take 8).flatMap (hexDigits false) ++ ['_'], ?_, ?_⟩
  · unfold boundaryFor
    rw [List.append_assoc _ ['_']]
    rfl
  · unfold boundaryFor
    rw [List.append_assoc _ ['_']]
    rfl

/-- The lines at the inner boundary are no lines at the outer one. -/
theorem isDelimiter_inner (x : RenderCrates) (asterId : String) (rest : List Char) :
    isDelimiter (boundaryFor x asterId 0) (opening (boundaryFor x asterId 1) ++ rest) = false := by
  obtain ⟨base, houter, hinner⟩ := boundaryFor_eq x asterId
  rw [← Bool.not_eq_true, houter, hinner]
  intro hdelimiter
  have hprefix := List.isPrefixOf_iff_prefix.1 hdelimiter
  rw [opening, opening, ← List.append_assoc, ← List.append_assoc, List.append_assoc _ ['1'],
    List.prefix_append_right_inj, List.singleton_append, List.cons_prefix_cons] at hprefix
  exact absurd hprefix.1 (by decide)

/-- The lines of `push_base64`. -/
theorem base64Lines_eq (encoded : List Char) : ∃ chunks, base64Lines encoded = joined chunks ∧
    chunks.flatten = encoded ∧ ∀ chunk ∈ chunks, chunk.length ≤ base64Line := by
  fun_induction base64Lines encoded with
  | case1 => exact ⟨[], rfl, rfl, fun _ hchunk => absurd hchunk List.not_mem_nil⟩
  | case2 encoded hne ih =>
      obtain ⟨chunks, hlines, hflat, hlen⟩ := ih
      refine ⟨encoded.take base64Line :: chunks, ?_, ?_, ?_⟩
      · rw [joined_cons, hlines]
      · rw [List.flatten_cons, hflat, List.take_append_drop]
      · intro chunk hchunk
        rcases List.mem_cons.1 hchunk with rfl | hchunk
        · exact List.length_take_le _ _
        · exact hlen chunk hchunk

/-- The body of an attachment: its lines make its base64 text, none is too long, and none is a
boundary line. -/
theorem pieces_base64 (x : RenderCrates) (data : Bytes) :
    (pieces (base64Lines (x.base64 data))).flatten = x.base64 data ∧
      ∀ line ∈ pieces (base64Lines (x.base64 data)),
        line.length ≤ base64Line ∧ line.head? ≠ some '-' := by
  obtain ⟨chunks, hlines, hflat, hlen⟩ := base64Lines_eq (x.base64 data)
  have hmem : ∀ chunk ∈ chunks, ∀ c ∈ chunk, c ∈ x.base64 data :=
    fun chunk hchunk c hc => hflat ▸ List.mem_flatten_of_mem hchunk hc
  have hbreak : ∀ chunk ∈ chunks, NoBreak chunk :=
    fun chunk hchunk => (noBreak_base64 x data).mono (hmem chunk hchunk)
  have hpieces : pieces (joined chunks) = chunks ++ [[]] := by
    have hall := pieces_joined hbreak []
    rwa [List.append_nil] at hall
  rw [hlines, hpieces]
  constructor
  · rw [List.flatten_append, hflat]
    exact List.append_nil _
  · intro line hline
    rcases List.mem_append.1 hline with hchunk | hlast
    · refine ⟨hlen line hchunk, fun hhead => ?_⟩
      have hbase := x.base64_chars data '-' (hmem line hchunk _ (List.mem_of_head? hhead))
      exact absurd hbase (by decide)
    · rw [List.mem_singleton.1 hlast]
      exact ⟨Nat.zero_le _, by decide⟩

/-- The lines of the children of a part, and of what follows them. -/
theorem pieces_children (text : List Char) (hboundary : NoBreak boundary) (children : List Child) :
    pieces (childrenText x text boundary children ++ Ctx.closingLine boundary) =
      (children.map fun child => pieces (childText x text child)).flatMap (opening boundary :: ·) ++
        closing boundary :: [[]] := by
  have hopening : NoBreak (opening boundary) := NoBreak.append (by decide) hboundary
  have hclosing : NoBreak (closing boundary) := hopening.append (by decide)
  induction children with
  | nil =>
      have hline : Ctx.closingLine boundary = closing boundary ++ (crlf ++ []) := rfl
      rw [childrenText, List.nil_append, hline, pieces_append, pieces_of_noBreak hclosing]
      rfl
  | cons child children ih =>
      have hline : childrenText x text boundary (child :: children) ++ Ctx.closingLine boundary =
          opening boundary ++ (crlf ++ (childText x text child ++
            (crlf ++ (childrenText x text boundary children ++ Ctx.closingLine boundary)))) := by
        have hopen : Ctx.boundaryLine boundary = opening boundary ++ crlf := rfl
        rw [childrenText, hopen]
        simp only [List.append_assoc]
      rw [hline, pieces_append, pieces_append, ih, pieces_of_noBreak hopening, List.map_cons,
        List.flatMap_cons]
      simp only [List.cons_append, List.nil_append, List.append_assoc]

end Reading

/-! ## The leaves of a rendering -/

/-- No line is at one of the boundaries. -/
def Quiet (boundaries : List (List Char)) (lines : List Line) : Prop :=
  ∀ boundary ∈ boundaries, ∀ line ∈ lines, isDelimiter boundary line = false

instance (boundaries : List (List Char)) (lines : List Line) :
    Decidable (Quiet boundaries lines) :=
  inferInstanceAs (Decidable (∀ b ∈ boundaries, ∀ line ∈ lines, isDelimiter b line = false))

/-- A text of headers with the names and a body, and no line at one of the boundaries. -/
structure IsPart (names : List String) (boundaries : List (List Char)) (s body : List Char) :
    Prop where
  named : NamedOnce names (headerLines (pieces s))
  quiet : Quiet boundaries (pieces s)
  leaf : ∀ bs, (∀ b ∈ bs, b ∈ boundaries) →
    leaves bs (pieces s) = [(headerLines (pieces s), pieces body)]

/-- What the reader of a message finds of an attachment. -/
structure AttachmentLeaf (a : CachedAttachment) (leaf : List Line × List Line) : Prop where
  named : NamedOnce attachmentNames leaf.1
  data : Base64.decode leaf.2.flatten = some a.data
  short : ∀ line ∈ leaf.2, line.length ≤ base64Line

/-- The attachments as they are rendered: those in the text first. -/
def renderedOrder (isHtml : Bool) (attachments : List CachedAttachment) : List CachedAttachment :=
  attachments.filter (goesInline isHtml) ++ attachments.filter fun a => !goesInline isHtml a

section Leaves

variable {x : RenderCrates} {names : List String} {boundaries bs : List (List Char)}
  {s body text boundary : List Char} {a : CachedAttachment}

theorem NamedOnce.mono {names' : List String} {lines : List Line} (h : NamedOnce names lines)
    (hsub : names.Sublist names') : NamedOnce names' lines := by
  obtain ⟨fields, rfl, hnames, hvalues⟩ := h
  exact ⟨fields, rfl, hnames.trans hsub, hvalues⟩

theorem isPart_block (h : HeaderBlock names s) (hnames : ∀ name ∈ names, IsName name)
    (hbody : Quiet boundaries (pieces body)) :
    IsPart names boundaries (s ++ (crlf ++ body)) body := by
  obtain ⟨hnamed, hlines, lines, hstart, hpieces⟩ := h.pieces hnames body
  refine ⟨hnamed, ?_, ?_⟩
  · intro b hb line hline
    rw [hpieces] at hline
    rcases List.mem_append.1 hline with hheader | hline
    · exact isDelimiter_of_head (hstart line hheader).2
    · rcases List.mem_cons.1 hline with rfl | hline
      · exact isDelimiter_of_head (by decide)
      · exact hbody b hb line hline
  · intro bs hsub
    rw [leaves_of_no_delimiter, hlines]
    rw [hlines]
    exact fun b hb => hbody b (hsub b hb)

theorem textNames_isName : ∀ name ∈ textNames, IsName name := by decide

theorem attachmentNames_isName : ∀ name ∈ attachmentNames, IsName name := by decide

theorem topNames_isName : ∀ name ∈ topNames, IsName name := by decide

theorem isPart_text (isHtml : Bool) (htext : Quiet boundaries (pieces text)) :
    IsPart textNames boundaries (childText x text (.text (textHeader isHtml))) text := by
  obtain ⟨s, hs, heq⟩ := textHeader_eq isHtml
  rw [childText, heq, List.append_assoc]
  exact isPart_block hs textNames_isName htext

theorem isPart_attachment (boundaries : List (List Char)) (text : List Char) (a : CachedAttachment)
    (inline : Bool) : IsPart attachmentNames boundaries (childText x text (.attachment a inline))
      (base64Lines (x.base64 a.data)) := by
  obtain ⟨s, hs, heq⟩ := attachmentHeaders_eq x a inline
  rw [childText, heq, List.append_assoc]
  refine isPart_block hs attachmentNames_isName fun b _ line hline => ?_
  exact isDelimiter_of_head ((pieces_base64 x a.data).2 line hline).2

/-- The leaf of an attachment. -/
theorem attachmentLeaf_read (hbase : ∀ data, x.base64 data = Base64.encode data)
    {headers : List Line} (h : NamedOnce attachmentNames headers) :
    AttachmentLeaf a (headers, pieces (base64Lines (x.base64 a.data))) where
  named := h
  data := (congrArg Base64.decode (pieces_base64 x a.data).1).trans
    ((congrArg Base64.decode (hbase a.data)).trans (Base64.decode_encode a.data))
  short line hline := ((pieces_base64 x a.data).2 line hline).1

/-- The attachments of a part are read in their order. -/
theorem leaves_attachments (hbase : ∀ data, x.base64 data = Base64.encode data)
    (boundaries : List (List Char)) (text : List Char) (inline : Bool)
    (l : List CachedAttachment) : ∃ read,
      (l.map (Child.attachment · inline)).flatMap
        (fun child => leaves boundaries (pieces (childText x text child))) = read ∧
      List.Forall₂ AttachmentLeaf l read := by
  induction l with
  | nil => exact ⟨[], rfl, .nil⟩
  | cons a l ih =>
      obtain ⟨read, hread, hall⟩ := ih
      have hpart := @isPart_attachment x boundaries text a inline
      refine ⟨_, ?_, .cons (attachmentLeaf_read hbase hpart.named) hall⟩
      rw [List.map_cons, List.flatMap_cons, hread, hpart.leaf boundaries fun _ hb => hb]
      rfl

/-- The parts of a message or of its related part: the text and some attachments. -/
theorem leaves_flat (hbase : ∀ data, x.base64 data = Base64.encode data) (isHtml inline : Bool)
    (htext : Quiet boundaries (pieces text)) (hsub : ∀ b ∈ bs, b ∈ boundaries)
    (l : List CachedAttachment) : ∃ textLeaf read,
      (Child.text (textHeader isHtml) :: l.map (Child.attachment · inline)).flatMap
        (fun child => leaves bs (pieces (childText x text child))) = textLeaf :: read ∧
      NamedOnce textNames textLeaf.1 ∧ textLeaf.2 = pieces text ∧
      List.Forall₂ AttachmentLeaf l read := by
  have hpart := isPart_text (x := x) isHtml htext
  obtain ⟨read, hread, hall⟩ := leaves_attachments hbase bs text inline l
  refine ⟨(headerLines (pieces (childText x text (.text (textHeader isHtml)))), pieces text), read,
    ?_, hpart.named, rfl, hall⟩
  rw [List.flatMap_cons, hread, hpart.leaf bs hsub, List.singleton_append]

theorem quiet_flat (isHtml inline : Bool) (htext : Quiet boundaries (pieces text))
    (l : List CachedAttachment) :
    ∀ child ∈ Child.text (textHeader isHtml) :: l.map (Child.attachment · inline),
      Quiet boundaries (pieces (childText x text child)) := by
  intro child hchild
  rcases List.mem_cons.1 hchild with rfl | hchild
  · exact (isPart_text isHtml htext).quiet
  · obtain ⟨a, -, rfl⟩ := List.mem_map.1 hchild
    exact (isPart_attachment boundaries text a inline).quiet

/-- The leaves of a text with children are those of the children. -/
theorem leaves_children (hs : HeaderBlock names s) (hnames : ∀ name ∈ names, IsName name)
    (hboundary : NoBreak boundary) {children : List Child}
    (hquiet : ∀ child ∈ children, Quiet [boundary] (pieces (childText x text child))) :
    leaves (boundary :: bs) (pieces (s ++ (crlf ++
        (childrenText x text boundary children ++ Ctx.closingLine boundary)))) =
      children.flatMap fun child => leaves bs (pieces (childText x text child)) := by
  obtain ⟨-, -, lines, hstart, hpieces⟩ := hs.pieces hnames
    (childrenText x text boundary children ++ Ctx.closingLine boundary)
  rw [hpieces, pieces_children text hboundary, leaves_written (fun line hline =>
    (hstart line hline).1), List.flatMap_map]
  intro part hpart line hline
  obtain ⟨child, hchild, rfl⟩ := List.mem_map.1 hpart
  exact hquiet child hchild boundary List.mem_cons_self line hline

/-- The related part is quiet at the outer boundary. -/
theorem quiet_related (asterId : String) {children : List Child}
    (hquiet : ∀ child ∈ children,
      Quiet [boundaryFor x asterId 0] (pieces (childText x text child))) :
    Quiet [boundaryFor x asterId 0]
      (pieces (childText x text (.related (boundaryFor x asterId 1) children))) := by
  intro b hb line hline
  obtain rfl := List.mem_singleton.1 hb
  have hboundary := noBreak_boundaryFor x asterId 1
  obtain ⟨s, hs, heq⟩ := relatedHeader_eq hboundary
  obtain ⟨-, -, lines, hstart, hpieces⟩ := hs.pieces (by decide)
    (childrenText x text (boundaryFor x asterId 1) children ++
      Ctx.closingLine (boundaryFor x asterId 1))
  have hopening := isDelimiter_inner x asterId []
  rw [List.append_nil] at hopening
  rw [childText, heq, List.append_assoc, List.append_assoc, hpieces,
    pieces_children text hboundary] at hline
  rcases List.mem_append.1 hline with hheader | hline
  · exact isDelimiter_of_head (hstart line hheader).2
  · rcases List.mem_cons.1 hline with rfl | hline
    · exact isDelimiter_of_head (by decide)
    · rcases List.mem_append.1 hline with hpart | hlast
      · obtain ⟨part, hpart, hline⟩ := List.mem_flatMap.1 hpart
        obtain ⟨child, hchild, rfl⟩ := List.mem_map.1 hpart
        rcases List.mem_cons.1 hline with rfl | hline
        · exact hopening
        · exact hquiet child hchild _ List.mem_cons_self line hline
      · rcases List.mem_cons.1 hlast with rfl | hlast
        · exact isDelimiter_inner x asterId "--".toList
        · rw [List.mem_singleton.1 hlast]
          exact isDelimiter_of_head (by decide)

/-- The related part is read at the inner boundary. -/
theorem leaves_related (asterId : String) {children : List Child}
    (hquiet : ∀ child ∈ children,
      Quiet [boundaryFor x asterId 1] (pieces (childText x text child))) :
    leaves [boundaryFor x asterId 1]
        (pieces (childText x text (.related (boundaryFor x asterId 1) children))) =
      children.flatMap fun child => leaves [] (pieces (childText x text child)) := by
  have hboundary := noBreak_boundaryFor x asterId 1
  obtain ⟨s, hs, heq⟩ := relatedHeader_eq hboundary
  rw [childText, heq, List.append_assoc, List.append_assoc]
  exact leaves_children hs (by decide) hboundary hquiet

end Leaves

/-- The two boundaries of a message. -/
def StoredMessage.boundaries (x : RenderCrates) (m : StoredMessage) : List (List Char) :=
  [boundaryFor x m.asterId 0, boundaryFor x m.asterId 1]

/-- What is read of a message: a leaf of the text, and the leaves of the attachments. -/
def ReadsBack (x : RenderCrates) (m : StoredMessage) (attachments : List CachedAttachment)
    (leaves : List (List Line × List Line)) : Prop :=
  ∃ textLeaf read, leaves = textLeaf :: read ∧
    NamedOnce (topNames ++ textNames) textLeaf.1 ∧
    crlf.intercalate textLeaf.2 = m.wholeText x ∧
    List.Forall₂ AttachmentLeaf (renderedOrder (m.isHtml x) attachments) read

section Messages

variable {x : RenderCrates} {m : StoredMessage} {attachments : List CachedAttachment}

/-- The headers of a message, up to the empty line. -/
theorem headers_eq (x : RenderCrates) (m : StoredMessage) {subtype : String}
    (hsubtype : NoBreak subtype.toList) : ∃ s, HeaderBlock (topNames ++ ["Content-Type"]) s ∧
      topHeaders x m (metadataOf x m) ++ multipartHeader subtype (boundaryFor x m.asterId 0) =
        s ++ crlf := by
  obtain ⟨s, hs, heq⟩ := multipartHeader_eq hsubtype (noBreak_boundaryFor x m.asterId 0)
  refine ⟨_, (headerBlock_topHeaders x m (metadataOf x m)).append hs, ?_⟩
  rw [heq, List.append_assoc]

theorem contentType_isName : ∀ name ∈ topNames ++ ["Content-Type"], IsName name := by decide

theorem allNames_isName : ∀ name ∈ topNames ++ textNames, IsName name := by decide

/-- A message without attachments is one leaf. -/
theorem readsBack_nil (h : Quiet (m.boundaries x) (pieces (m.wholeText x))) :
    ReadsBack x m [] (leaves (m.boundaries x) (pieces (renderText x m []))) := by
  obtain ⟨s, hs, heq⟩ := textHeader_eq (m.isHtml x)
  have htext : renderText x m [] =
      topHeaders x m (metadataOf x m) ++ s ++ (crlf ++ m.wholeText x) := by
    rw [renderText_nil, heq, StoredMessage.wholeText]
    simp only [List.append_assoc]
  have hpart := isPart_block ((headerBlock_topHeaders x m (metadataOf x m)).append hs)
    allNames_isName h
  have hleaf := hpart.leaf _ fun _ hb => hb
  have hnamed := hpart.named
  rw [← htext] at hleaf hnamed
  rw [hleaf]
  generalize headerLines (pieces (renderText x m [])) = headers at hnamed
  exact ⟨(headers, pieces (m.wholeText x)), [], rfl, hnamed, intercalate_pieces _, .nil⟩

/-- The children of a message with attachments are read back. -/
theorem readsBack_children {subtype : String} {children : List Child}
    (hparts : attachments ≠ []) (hall : AllThere m attachments)
    (houter : outerParts x m.asterId (m.isHtml x) attachments = (subtype, children))
    (hsubtype : NoBreak subtype.toList)
    (hquiet : ∀ child ∈ children,
      Quiet [boundaryFor x m.asterId 0] (pieces (childText x (m.wholeText x) child))) :
    leaves (m.boundaries x) (pieces (renderText x m attachments)) =
      children.flatMap fun child =>
        leaves [boundaryFor x m.asterId 1] (pieces (childText x (m.wholeText x) child)) := by
  obtain ⟨s, hs, heq⟩ := headers_eq x m hsubtype
  have htext := renderText_parts (x := x) hparts hall
  rw [houter] at htext
  dsimp only at htext
  rw [heq, List.append_assoc] at htext
  rw [htext, StoredMessage.boundaries]
  exact leaves_children hs contentType_isName (noBreak_boundaryFor x m.asterId 0) hquiet

/-- **A rendered message is read back**, where nothing is missing and no line of its text is a
boundary line. -/
theorem renderText_readsBack (hbase : ∀ data, x.base64 data = Base64.encode data)
    (hall : AllThere m attachments) (h : Quiet (m.boundaries x) (pieces (m.wholeText x))) :
    ReadsBack x m attachments
      (leaves (m.boundaries x) (pieces (renderText x m attachments))) := by
  by_cases hparts : attachments = []
  · rw [hparts]
    exact readsBack_nil h
  have hmixed : NoBreak "mixed".toList := by decide
  have hrelated : NoBreak "related".toList := by decide
  have houter : Quiet [boundaryFor x m.asterId 0] (pieces (m.wholeText x)) :=
    fun b hb => h b (List.mem_cons.2 (.inl (List.mem_singleton.1 hb)))
  have hinner : Quiet [boundaryFor x m.asterId 1] (pieces (m.wholeText x)) :=
    fun b hb => h b (List.mem_cons_of_mem _ hb)
  have hnames : textNames.Sublist (topNames ++ textNames) := List.sublist_append_right _ _
  by_cases hinline : attachments.filter (goesInline (m.isHtml x)) = []
  · have htree : outerParts x m.asterId (m.isHtml x) attachments = _ := if_pos hinline
    rw [readsBack_children hparts hall htree hmixed (quiet_flat _ _ houter _)]
    obtain ⟨textLeaf, read, hread, hnamed, htext, hleaves⟩ := leaves_flat hbase (m.isHtml x) false
      hinner (fun _ hb => hb) (attachments.filter fun a => !goesInline (m.isHtml x) a)
    refine ⟨textLeaf, read, hread, hnamed.mono hnames, ?_, ?_⟩
    · rw [htext, intercalate_pieces]
    · rw [renderedOrder, hinline, List.nil_append]
      exact hleaves
  · by_cases hregular : (attachments.filter fun a => !goesInline (m.isHtml x) a) = []
    · have htree : outerParts x m.asterId (m.isHtml x) attachments = _ :=
        (if_neg hinline).trans (if_pos hregular)
      rw [readsBack_children hparts hall htree hrelated (quiet_flat _ _ houter _)]
      obtain ⟨textLeaf, read, hread, hnamed, htext, hleaves⟩ := leaves_flat hbase (m.isHtml x) true
        hinner (fun _ hb => hb) (attachments.filter (goesInline (m.isHtml x)))
      refine ⟨textLeaf, read, hread, hnamed.mono hnames, ?_, ?_⟩
      · rw [htext, intercalate_pieces]
      · rw [renderedOrder, hregular, List.append_nil]
        exact hleaves
    · have htree : outerParts x m.asterId (m.isHtml x) attachments = _ :=
        (if_neg hinline).trans (if_neg hregular)
      have hquiet := quiet_related m.asterId
        (quiet_flat (m.isHtml x) true houter (attachments.filter (goesInline (m.isHtml x))))
      rw [readsBack_children hparts hall htree hmixed, List.flatMap_cons, leaves_related m.asterId
        (quiet_flat _ _ hinner _)]
      · obtain ⟨textLeaf, read, hread, hnamed, htext, hleaves⟩ := @leaves_flat x _ [] _ hbase
          (m.isHtml x) true hinner (fun _ hb => (nomatch hb))
          (attachments.filter (goesInline (m.isHtml x)))
        obtain ⟨read', hread', hleaves'⟩ := leaves_attachments hbase [boundaryFor x m.asterId 1]
          (m.wholeText x) false (attachments.filter fun a => !goesInline (m.isHtml x) a)
        refine ⟨textLeaf, read ++ read', ?_, hnamed.mono hnames, ?_, ?_⟩
        · rw [hread, hread', List.cons_append]
        · rw [htext, intercalate_pieces]
        · exact List.rel_append hleaves hleaves'
      · -- the related part, and the other attachments
        intro child hchild
        rcases List.mem_cons.1 hchild with rfl | hchild
        · exact hquiet
        · obtain ⟨a, -, rfl⟩ := List.mem_map.1 hchild
          exact (isPart_attachment _ _ a false).quiet

/-- The headers of a message are lines with its names, whatever is missing after them. -/
theorem named_headers (x : RenderCrates) (m : StoredMessage) (attachments : List CachedAttachment) :
    NamedOnce (topNames ++ textNames) (headerLines (pieces (renderText x m attachments))) := by
  by_cases hparts : attachments = []
  · obtain ⟨s, hs, heq⟩ := textHeader_eq (m.isHtml x)
    have htext : renderText x m attachments =
        topHeaders x m (metadataOf x m) ++ s ++ (crlf ++ m.wholeText x) := by
      rw [hparts, renderText_nil, heq, StoredMessage.wholeText]
      simp only [List.append_assoc]
    rw [htext]
    exact (((headerBlock_topHeaders x m (metadataOf x m)).append hs).pieces allNames_isName _).1
  · have hsubtype := (@ready_outerParts x attachments m.asterId (m.isHtml x) false
      fun _ _ hmode => absurd hmode Bool.false_ne_true).1
    obtain ⟨s, hs, heq⟩ := headers_eq x m hsubtype
    obtain ⟨rest, hrest⟩ := prefix_renderText (x := x) (m := m) hparts
    rw [← hrest, heq, List.append_assoc]
    exact (hs.pieces contentType_isName _).1.mono
      ((List.Sublist.refl topNames).append (by decide))

end Messages

/-! ## Rendered mail -/

theorem isBase64_digit {n : Nat} (h : n < 64) : isBase64 (Base64.digit n) = true :=
  (show ∀ n : Fin 64, isBase64 (Base64.digit n) = true by decide) ⟨n, h⟩

/-- The third-party code of `plainCrates`, with the standard base64. -/
def standardCrates : RenderCrates :=
  { plainCrates with
    base64 := Base64.encode
    base64_length := Base64.length_encode
    base64_chars := by
      intro data c hc
      rcases Base64.mem_encode hc with rfl | ⟨n, hn, rfl⟩
      · rfl
      · exact isBase64_digit hn }

/-- An attachment of two bytes. -/
def twoBytes : CachedAttachment := ⟨1, "a\r\nb.txt", "text/plain", none, false, 2, [104, 105]⟩

/-- An image of one byte that is shown in the text. -/
def shownImage : CachedAttachment := ⟨2, "i.png", "image/png", some "i@x", true, 1, [7]⟩

/-- A message of HTML. -/
def htmlMessage : StoredMessage := plainMessage "<p >hi</p>"

theorem htmlMessage_quiet :
    Quiet (htmlMessage.boundaries standardCrates)
      (pieces (htmlMessage.wholeText standardCrates)) := by
  decide +kernel

/-- A message whose attachments are looked for when they are asked for. -/
def onDemandMessage : StoredMessage := { plainMessage "hi" with attachmentsState := .onDemand }

/-- The attachment of two bytes before they are there. -/
def notThere : CachedAttachment := { twoBytes with data := [] }

end AsterBridge.Render
