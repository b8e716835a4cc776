import AsterBridge.Render.Layout

/-!
# RFC822.SIZE

Three renderings say how long a message is: FETCH of a size renders the row of the listing without
making the text, a fetch of headers makes the layout, and BODY[] is the full text. All of them count
the same tree (`counts_children`); what the trees are made of can differ, and the full text can
have a gap of its own (`sizes_are_equal_iff`).
-/

set_option autoImplicit false

namespace AsterBridge.Render

open AsterBridge.Lib AsterBridge.Lib.Text AsterBridge.Lib.Lines AsterBridge.Pop3

/-! ## What a writer counts -/

/-- The text so far is as long as counted, up to the gap. -/
def Out.Told (o : Out) : Prop :=
  match o.gap with
  | none => utf8Len o.buf = o.len
  | some gap => utf8Len o.buf = gap ∧ gap ≤ o.len

/-- The attachment has its bytes, or they are not looked for. -/
def Out.Has (o : Out) (a : CachedAttachment) : Prop := o.onDemand = true → a.data ≠ []

/-- From `o`, the writer has come to `o'` over `n` bytes and the attachments. -/
structure Counts (o o' : Out) (n : Nat) (attachments : List CachedAttachment) : Prop where
  materialize : o'.materialize = o.materialize
  attachmentData : o'.attachmentData = o.attachmentData
  onDemand : o'.onDemand = o.onDemand
  len : o'.len = o.len + n
  told : o.materialize = true → o.attachmentData = true → o.Told → o'.Told
  gap : o.materialize = true → o.attachmentData = true →
    (o'.gap = none ↔ o.gap = none ∧ ∀ a ∈ attachments, o.Has a)

/-- The sizes of the data are known, where the data is written. -/
def Out.Sized (o : Out) (attachments : List CachedAttachment) : Prop :=
  o.materialize = true → o.attachmentData = true →
    ∀ a ∈ attachments, a.data.length = attachmentRawSize a

/-- The bytes of the text part. -/
def TextPart.size (t : TextPart) : Nat :=
  (match t.body with
    | some b => utf8Len (toCrlf b)
    | none => t.bodyLenHint) + utf8Len t.suffix

mutual

/-- The attachments of a child. -/
def Child.attachments : Child → List CachedAttachment
  | .text _ => []
  | .attachment a _ => [a]
  | .related _ children => childrenAttachments children

def childrenAttachments : List Child → List CachedAttachment
  | [] => []
  | child :: rest => child.attachments ++ childrenAttachments rest

end

section Counting

variable {x : RenderCrates} {t : TextPart} {o o' o'' : Out} {n n' : Nat}
  {l l' : List CachedAttachment} {s : List Char}

theorem Counts.refl (o : Out) : Counts o o 0 [] where
  materialize := rfl
  attachmentData := rfl
  onDemand := rfl
  len := rfl
  told := fun _ _ h => h
  gap := fun _ _ => ⟨fun h => ⟨h, fun _ ha => nomatch ha⟩, And.left⟩

theorem Counts.trans (h : Counts o o' n l) (h' : Counts o' o'' n' l') :
    Counts o o'' (n + n') (l ++ l') where
  materialize := h'.materialize.trans h.materialize
  attachmentData := h'.attachmentData.trans h.attachmentData
  onDemand := h'.onDemand.trans h.onDemand
  len := by rw [h'.len, h.len, Nat.add_assoc]
  told := fun hmode hdata htold =>
    h'.told (h.materialize.trans hmode) (h.attachmentData.trans hdata) (h.told hmode hdata htold)
  gap := by
    intro hmode hdata
    have hhas : ∀ a, o'.Has a ↔ o.Has a := fun a => by rw [Out.Has, Out.Has, h.onDemand]
    rw [h'.gap (h.materialize.trans hmode) (h.attachmentData.trans hdata), h.gap hmode hdata,
      and_assoc]
    simp only [hhas, List.forall_mem_append]

theorem Out.told_push (h : o.Told) (hmode : o.materialize = true) : (o.push s).Told := by
  unfold Out.Told at h ⊢
  have hgap : (o.push s).gap = o.gap := rfl
  have hlen : (o.push s).len = o.len + utf8Len s := rfl
  rw [hgap, hlen]
  cases hcase : o.gap with
  | none =>
      rw [hcase] at h
      have hbuf : (o.push s).buf = o.buf ++ s := if_pos ⟨hmode, hcase⟩
      rw [hbuf, utf8Len_append, h]
  | some gap =>
      rw [hcase] at h
      have hbuf : (o.push s).buf = o.buf := if_neg fun hboth => by
        rw [hcase] at hboth
        cases hboth.2
      rw [hbuf]
      exact ⟨h.1, h.2.trans (Nat.le_add_right _ _)⟩

theorem counts_push (o : Out) (s : List Char) : Counts o (o.push s) (utf8Len s) [] where
  materialize := rfl
  attachmentData := rfl
  onDemand := rfl
  len := rfl
  told := fun hmode _ htold => Out.told_push htold hmode
  gap := (Counts.refl o).gap

theorem Counts.push (h : Counts o o' n l) (s : List Char) :
    Counts o (o'.push s) (n + utf8Len s) l := by
  have hall := h.trans (counts_push o' s)
  rwa [List.append_nil] at hall

/-- At an attachment without its bytes, the full text has a gap. -/
theorem counts_pushBase64 (o : Out) (a : CachedAttachment) (hsized : o.Sized [a]) :
    Counts o (o.pushBase64 x a.data (attachmentRawSize a)) (base64EncodedLen (attachmentRawSize a))
      [a] := by
  have hlen := Out.len_pushBase64 (x := x) o
    fun hmode hdata => hsized hmode hdata a (List.mem_singleton_self a)
  by_cases habsent : o.materialize = true ∧ ((!o.attachmentData) = true ∨ o.onDemand ∧ a.data = [])
  · have hpush : o.pushBase64 x a.data (attachmentRawSize a) =
        { o with
          gap := some (o.gap.getD o.len)
          len := o.len + base64EncodedLen (attachmentRawSize a) } := if_pos habsent
    rw [hpush] at hlen ⊢
    refine ⟨rfl, rfl, rfl, hlen, ?_, ?_⟩
    · intro hmode hdata htold
      unfold Out.Told at htold ⊢
      dsimp only
      cases hgap : o.gap with
      | none =>
          rw [hgap] at htold
          exact ⟨htold, Nat.le_add_right _ _⟩
      | some gap =>
          rw [hgap] at htold
          exact ⟨htold.1, htold.2.trans (Nat.le_add_right _ _)⟩
    · intro hmode hdata
      have hempty : o.onDemand ∧ a.data = [] := by
        rcases habsent.2 with hnot | hempty
        · rw [hdata] at hnot
          cases hnot
        · exact hempty
      refine iff_of_false (fun hnone => (nomatch hnone)) ?_
      exact fun hboth => hboth.2 a (List.mem_singleton_self a) hempty.1 hempty.2
  · have hhas : o.materialize = true → o.attachmentData = true → o.Has a := fun hmode _ hdemand hnil =>
      habsent ⟨hmode, Or.inr ⟨hdemand, hnil⟩⟩
    by_cases hwrite : o.materialize = true ∧ o.gap = none
    · have hpush : o.pushBase64 x a.data (attachmentRawSize a) =
          { o with
            buf := o.buf ++ base64Lines (x.base64 a.data)
            len := o.len + utf8Len (base64Lines (x.base64 a.data)) } := by
        unfold Out.pushBase64
        rw [if_neg habsent, if_pos hwrite]
      rw [hpush] at hlen ⊢
      refine ⟨rfl, rfl, rfl, hlen, ?_, ?_⟩
      · intro _ _ htold
        unfold Out.Told at htold ⊢
        dsimp only
        rw [hwrite.2] at htold ⊢
        dsimp only at htold ⊢
        rw [utf8Len_append, htold]
      · intro hmode hdata
        refine iff_of_true hwrite.2 ⟨hwrite.2, fun b hb => ?_⟩
        exact List.mem_singleton.1 hb ▸ hhas hmode hdata
    · have hpush : o.pushBase64 x a.data (attachmentRawSize a) =
          { o with len := o.len + base64EncodedLen (attachmentRawSize a) } := by
        unfold Out.pushBase64
        rw [if_neg habsent, if_neg hwrite]
      rw [hpush] at hlen ⊢
      refine ⟨rfl, rfl, rfl, hlen, ?_, ?_⟩
      · intro hmode _ htold
        unfold Out.Told at htold ⊢
        dsimp only
        cases hgap : o.gap with
        | none => exact absurd ⟨hmode, hgap⟩ hwrite
        | some gap =>
            rw [hgap] at htold
            exact ⟨htold.1, htold.2.trans (Nat.le_add_right _ _)⟩
      · intro hmode hdata
        refine ⟨fun hgap => ⟨hgap, fun b hb => ?_⟩, And.left⟩
        exact List.mem_singleton.1 hb ▸ hhas hmode hdata

/-- The text part counts its size in every mode. -/
theorem counts_write (o : Out) (ht : o.materialize = true → t.body.isSome) :
    Counts o (t.write o) t.size [] := by
  have hbody : Counts o (match t.body with
      | some b =>
          if o.materialize then o.push (toCrlf b)
          else { o with len := o.len + Db.crlfNormalizedLen (String.ofList b) }
      | none => { o with len := o.len + t.bodyLenHint })
      (match t.body with
        | some b => utf8Len (toCrlf b)
        | none => t.bodyLenHint) [] := by
    have hcount : o.materialize ≠ true → ∀ k, Counts o { o with len := o.len + k } k [] := by
      intro hmode k
      exact ⟨rfl, rfl, rfl, rfl, fun h => absurd h hmode, fun h => absurd h hmode⟩
    cases hcase : t.body with
    | none =>
        refine hcount ?_ _
        intro hmode
        have hsome := ht hmode
        rw [hcase] at hsome
        cases hsome
    | some b =>
        dsimp only
        split
        · exact counts_push o (toCrlf b)
        · rename_i hmode
          rw [crlfNormalizedLen_eq]
          exact hcount hmode _
  exact hbody.push t.suffix

theorem counts_textPart (c : Ctx) (section_ header : List Char)
    (ht : c.out.materialize = true → t.body.isSome) :
    Counts c.out (c.writeTextPart t section_ header).1.out (utf8Len header + t.size) [] :=
  (counts_push c.out header).trans (counts_write (c.out.push header) ht)

theorem counts_attachment (c : Ctx) (section_ : List Char) (a : CachedAttachment) (inline : Bool)
    (hsized : c.out.Sized [a]) :
    Counts c.out (c.writeAttachment x section_ a inline).1.out
      (utf8Len (attachmentHeaders x a inline) + base64EncodedLen (attachmentRawSize a)) [a] :=
  (counts_push c.out (attachmentHeaders x a inline)).trans
    (counts_pushBase64 (c.out.push (attachmentHeaders x a inline)) a hsized)

theorem counts_closeMultipart {c : Ctx} (section_ : List Char) (subtype : String)
    (boundary : List Char) (headerStart headerEnd : Nat) (structures : List (List Char))
    (h : Counts o c.out n l) :
    Counts o (c.closeMultipart section_ subtype boundary headerStart headerEnd structures).1.out
      (n + utf8Len (Ctx.closingLine boundary)) l := by
  have hall := h.push (Ctx.closingLine boundary)
  unfold Ctx.closeMultipart
  dsimp only
  split
  · exact hall
  · exact hall

theorem Counts.sized (h : Counts o o' n l) (hsized : o.Sized l') : o'.Sized l' := by
  unfold Out.Sized at hsized ⊢
  rw [h.materialize, h.attachmentData]
  exact hsized

theorem Out.Sized.split (h : o.Sized (l ++ l')) : o.Sized l ∧ o.Sized l' :=
  ⟨fun hmode hdata a ha => h hmode hdata a (List.mem_append_left _ ha),
    fun hmode hdata a ha => h hmode hdata a (List.mem_append_right _ ha)⟩

mutual

/-- **A child counts its size**, in every mode. -/
theorem counts_child : ∀ (child : Child) (c : Ctx) (section_ : List Char),
    (c.out.materialize = true → t.body.isSome) → c.out.Sized child.attachments →
    Counts c.out (c.writeChild x t section_ child).1.out (childSize x t.size child)
      child.attachments
  | .text header, c, section_, ht, hsized => by
      rw [Ctx.writeChild, childSize, Child.attachments]
      exact counts_textPart c section_ header ht
  | .attachment a inline, c, section_, ht, hsized => by
      rw [Ctx.writeChild, childSize, Child.attachments]
      exact counts_attachment c section_ a inline hsized
  | .related boundary children, c, section_, ht, hsized => by
      have hheader := counts_push c.out (Ctx.relatedHeader boundary)
      have hchildren := counts_children children
        { c with out := c.out.push (Ctx.relatedHeader boundary) } section_ boundary 0 ht hsized
      rw [Ctx.writeChild, childSize, Child.attachments]
      exact counts_closeMultipart section_ _ _ _ _ _ (hheader.trans hchildren)

/-- The children count their sizes. -/
theorem counts_children : ∀ (children : List Child) (c : Ctx) (section_ boundary : List Char)
    (idx : Nat), (c.out.materialize = true → t.body.isSome) →
    c.out.Sized (childrenAttachments children) →
    Counts c.out (c.writeChildren x t section_ boundary idx children).1.out
      (childrenSize x t.size boundary children) (childrenAttachments children)
  | [], c, section_, boundary, idx, ht, hsized => Counts.refl c.out
  | child :: rest, c, section_, boundary, idx, ht, hsized => by
      obtain ⟨hchild, hrest⟩ := hsized.split
      have hline := counts_push c.out (Ctx.boundaryLine boundary)
      have hone := (hline.trans (counts_child child
        { c with out := c.out.push (Ctx.boundaryLine boundary) } (Ctx.childSection section_ idx) ht
        hchild)).push crlf
      rw [List.nil_append] at hone
      let d := (Ctx.writeChild x t { c with out := c.out.push (Ctx.boundaryLine boundary) }
        (Ctx.childSection section_ idx) child).1
      have hmore := counts_children rest { d with out := d.out.push crlf } section_ boundary (idx + 1)
        (fun hmode => ht (hone.materialize.symm.trans hmode)) (hone.sized hrest)
      rw [Ctx.writeChildren, childrenSize, childrenAttachments]
      exact hone.trans hmore

end

end Counting

/-! ## Renderings -/

/-- The bytes of a message, where its text part has `n`. -/
def messageSize (x : RenderCrates) (m : StoredMessage) (isHtml : Bool) (n : Nat)
    (attachments : List CachedAttachment) : Nat :=
  utf8Len (topHeaders x m (metadataOf x m)) +
    if attachments = [] then utf8Len (textHeader isHtml) + n
    else multipartSize x m.asterId isHtml n attachments

/-- No attachment is one whose bytes are still looked for. -/
def AllThere (m : StoredMessage) (attachments : List CachedAttachment) : Prop :=
  m.attachmentsState = .onDemand → ∀ a ∈ attachments, a.data ≠ []

section Renderings

variable {x : RenderCrates} {m : StoredMessage} {attachments : List CachedAttachment}

theorem childrenAttachments_shown (inline : Bool) (l : List CachedAttachment) :
    childrenAttachments (shown inline l) = l := by
  induction l with
  | nil => rfl
  | cons a l ih => exact congrArg (a :: ·) ih

/-- The tree has the attachments of the message. -/
theorem mem_outerParts (asterId : String) (isHtml : Bool) (a : CachedAttachment) :
    a ∈ childrenAttachments (outerParts x asterId isHtml attachments).2 ↔ a ∈ attachments := by
  have hregular := childrenAttachments_shown false (attachments.filter fun a => !goesInline isHtml a)
  have hinline := childrenAttachments_shown true (attachments.filter (goesInline isHtml))
  unfold shown at hregular hinline
  unfold outerParts
  dsimp only
  by_cases hnone : attachments.filter (goesInline isHtml) = []
  · rw [if_pos hnone]
    have hplain : ∀ b ∈ attachments, goesInline isHtml b = false := by
      simpa using List.filter_eq_nil_iff.1 hnone
    simp only [childrenAttachments, Child.attachments, List.nil_append, hregular, List.mem_filter,
      Bool.not_eq_true']
    exact ⟨And.left, fun ha => ⟨ha, hplain a ha⟩⟩
  · rw [if_neg hnone]
    by_cases hall : (attachments.filter fun a => !goesInline isHtml a) = []
    · rw [if_pos hall]
      have hshown : ∀ b ∈ attachments, goesInline isHtml b = true := by
        simpa using List.filter_eq_nil_iff.1 hall
      simp only [childrenAttachments, Child.attachments, List.nil_append, hinline, List.mem_filter]
      exact ⟨And.left, fun ha => ⟨ha, hshown a ha⟩⟩
    · rw [if_neg hall]
      simp only [childrenAttachments, Child.attachments, List.nil_append, hinline, hregular,
        List.mem_append, List.mem_filter, Bool.not_eq_true']
      cases goesInline isHtml a <;> simp

/-- The writer that `render_with` starts with, in each mode. -/
def StoredMessage.start (m : StoredMessage) (materialize attachmentData : Bool) : Out :=
  { buf := [], len := 0, materialize, attachmentData
    onDemand := m.attachmentsState = .onDemand, gap := none }

theorem start_told (materialize attachmentData : Bool) :
    (m.start materialize attachmentData).Told := rfl

/-- What a message has to be longer than, for its text to end in a gap. -/
theorem Out.Told.gap_iff {o : Out} {s : List Char} (h : o.Told) (hmode : o.materialize = true)
    (hs : 0 < utf8Len s) : utf8Len (o.push s).buf = (o.push s).len ↔ o.gap = none := by
  have hlen : (o.push s).len = o.len + utf8Len s := rfl
  unfold Out.Told at h
  cases hgap : o.gap with
  | none =>
      rw [hgap] at h
      have hbuf : (o.push s).buf = o.buf ++ s := if_pos ⟨hmode, hgap⟩
      rw [hbuf, hlen, utf8Len_append, h]
      exact iff_of_true rfl rfl
  | some gap =>
      rw [hgap] at h
      have hbuf : (o.push s).buf = o.buf := if_neg fun hboth => by
        rw [hgap] at hboth
        cases hboth.2
      rw [hbuf, hlen]
      refine iff_of_false ?_ (fun hnone => (nomatch hnone))
      obtain ⟨hcount, hle⟩ := h
      omega

/-- **The size of a rendering, in every mode**, and when the full text is as long. -/
theorem renderWith_size {materialize attachmentData : Bool}
    (hsized : materialize = true → attachmentData = true →
      ∀ a ∈ attachments, a.size = a.data.length) :
    (renderWith x m attachments materialize attachmentData).size =
        messageSize x m (m.isHtml x) (m.textPart x materialize).size attachments ∧
      (materialize = true → attachmentData = true →
        (utf8Len (renderWith x m attachments materialize attachmentData).text =
            (renderWith x m attachments materialize attachmentData).size ↔
          AllThere m attachments)) := by
  have htold : (m.start materialize attachmentData).Told := rfl
  have hpresent : materialize = true → (m.textPart x materialize).body.isSome := by
    rintro rfl
    rfl
  let c : Ctx := ⟨m.start materialize attachmentData, []⟩
  have hzero : c.out.len = 0 := rfl
  by_cases hnil : attachments = []
  · have htext := counts_textPart c ['1'] (topHeaders x m (metadataOf x m) ++ textHeader (m.isHtml x))
      hpresent
    have hlen := htext.len
    rw [utf8Len_append, hzero, Nat.zero_add, Nat.add_assoc] at hlen
    unfold renderWith messageSize
    extract_lets metadata bodyPresent isHtml note text ctx top plainTop boundary
    rw [if_pos hnil, if_pos hnil]
    refine ⟨hlen, fun hmode hdata => ?_⟩
    have hgap := (htext.gap hmode hdata).2 ⟨rfl, fun _ ha => nomatch ha⟩
    have hbuf := htext.told hmode hdata htold
    unfold Out.Told at hbuf
    rw [hgap] at hbuf
    refine iff_of_true hbuf fun _ a ha => ?_
    rw [hnil] at ha
    cases ha
  · let parts := outerParts x m.asterId (m.isHtml x) attachments
    let boundary := boundaryFor x m.asterId 0
    let header := topHeaders x m (metadataOf x m) ++ multipartHeader parts.1 boundary
    have hraw : c.out.Sized (childrenAttachments parts.2) := fun hmode hdata a ha =>
      (attachmentRawSize_eq (hsized hmode hdata a ((mem_outerParts _ _ a).1 ha))).symm
    have hchildren := (counts_push c.out header).trans (counts_children (x := x) parts.2
      { c with out := c.out.push header } [] boundary 0 hpresent hraw)
    have hlen := (hchildren.push (Ctx.closingLine boundary)).len
    have hheader : utf8Len header = utf8Len (topHeaders x m (metadataOf x m)) +
        utf8Len (multipartHeader parts.1 boundary) := utf8Len_append _ _
    rw [hheader] at hlen
    have hclosing : 0 < utf8Len (Ctx.closingLine boundary) := by
      rw [utf8Len_closingLine (utf8Len_boundaryFor x m.asterId (by decide))]
      decide
    have hsize : (Ctx.writeMultipart x (m.textPart x materialize) c [] parts.1.toUpper boundary
        header parts.2).1.out.len = utf8Len (topHeaders x m (metadataOf x m)) +
          multipartSize x m.asterId (m.isHtml x) (m.textPart x materialize).size attachments := by
      have hparts : multipartSize x m.asterId (m.isHtml x) (m.textPart x materialize).size
          attachments = utf8Len (multipartHeader parts.1 boundary) +
            childrenSize x (m.textPart x materialize).size boundary parts.2 +
              utf8Len (Ctx.closingLine boundary) := rfl
      refine hlen.trans ?_
      rw [hzero, hparts]
      omega
    unfold renderWith messageSize
    extract_lets metadata bodyPresent isHtml note text ctx top plainTop
    rw [if_neg hnil, if_neg hnil]
    refine ⟨hsize, fun hmode hdata => ?_⟩
    have hbuf := (hchildren.told hmode hdata htold).gap_iff
      (s := Ctx.closingLine boundary) (hchildren.materialize.trans hmode) hclosing
    refine hbuf.trans ((hchildren.gap hmode hdata).trans ?_)
    have hdemand : c.out.onDemand = true ↔ m.attachmentsState = .onDemand := decide_eq_true_iff
    constructor
    · rintro ⟨-, hhas⟩ hstate a ha
      exact hhas a ((mem_outerParts _ _ a).2 ha) (hdemand.2 hstate)
    · intro hthere
      refine ⟨rfl, fun a ha hd => ?_⟩
      exact hthere (hdemand.1 hd) a ((mem_outerParts _ _ a).1 ha)

end Renderings

/-! ## Three sizes -/

/-- The sizes that FETCH reports, from the listing, from the layout and from the full rendering, are
the length of what it sends. -/
def SizesEqual (x : RenderCrates) (m : StoredMessage) (attachments : List CachedAttachment) :
    Prop :=
  let full := renderWith x m attachments true true
  (renderWith x (listed m) (attachments.map listedAttachment) false true).size = utf8Len full.text ∧
    (renderLayout x m attachments).size = utf8Len full.text ∧ full.size = utf8Len full.text

/-- When they are: the full text has no gap, and the listing decides about HTML and about the status
note as the full rendering does. Where the listing takes HTML for plain text, the lengths can meet
by chance. -/
def SizesAgree (x : RenderCrates) (m : StoredMessage) (attachments : List CachedAttachment) :
    Prop :=
  AllThere m attachments ∧
    if (listed m).isHtml x = m.isHtml x then
      attachmentStatusNote x (listed m) = attachmentStatusNote x m
    else
      1 + utf8Len (noteSuffix (attachmentStatusNote x (listed m)) false) +
          4 * inlineCount attachments =
        5 * trustNotes (metadataOf x m) + utf8Len (noteSuffix (attachmentStatusNote x m) true) +
          structureCost attachments

section Sizes

variable {x : RenderCrates} {m : StoredMessage} {attachments : List CachedAttachment}

/-- What HTML adds to the size of a message. -/
theorem messageSize_html (n : Nat) :
    messageSize x m true n attachments + 1 + 4 * inlineCount attachments =
      messageSize x m false n attachments + structureCost attachments := by
  have hheader := utf8Len_textHeader
  unfold messageSize
  split
  · rename_i hnil
    have hzero : inlineCount [] = 0 := rfl
    rw [hnil, structureCost, if_pos hzero, hzero]
    omega
  · have hhtml := multipartSize_html x m.asterId n attachments
    have hplain := multipartSize_plain x m.asterId n attachments
    omega

theorem messageSize_add (isHtml : Bool) (n k : Nat) :
    messageSize x m isHtml (n + k) attachments = messageSize x m isHtml n attachments + k := by
  unfold messageSize
  split
  · omega
  · cases isHtml with
    | false =>
        have hleft := multipartSize_plain x m.asterId (n + k) attachments
        have hright := multipartSize_plain x m.asterId n attachments
        omega
    | true =>
        have hleft := multipartSize_html x m.asterId (n + k) attachments
        have hright := multipartSize_html x m.asterId n attachments
        omega

theorem messageSize_listed (hdata : ∀ a ∈ attachments, a.size = a.data.length) (isHtml : Bool)
    (n : Nat) :
    messageSize x (listed m) isHtml n (attachments.map listedAttachment) =
      messageSize x m isHtml n attachments := by
  unfold messageSize
  rw [multipartSize_listed hdata]
  simp only [List.map_eq_nil_iff]
  rfl

/-- The size that the listing has. -/
theorem listedSize (hsize : m.size.toNat = utf8Len (toCrlf m.body))
    (hdata : ∀ a ∈ attachments, a.size = a.data.length) :
    (renderWith x (listed m) (attachments.map listedAttachment) false true).size =
      messageSize x m ((listed m).isHtml x) (utf8Len (toCrlf m.body)) attachments +
        utf8Len ((listed m).suffix x) := by
  have hmodes : false = true → true = true →
      ∀ a ∈ attachments.map listedAttachment, a.size = a.data.length := fun hmode => nomatch hmode
  have hrender := (renderWith_size (x := x) (m := listed m) hmodes).1
  have htext : ((listed m).textPart x false).size = m.size.toNat + utf8Len ((listed m).suffix x) :=
    rfl
  rw [hrender, htext, messageSize_listed hdata, hsize, messageSize_add]

/-- The size of the full rendering. -/
theorem fullSize (hdata : ∀ a ∈ attachments, a.size = a.data.length) :
    (renderWith x m attachments true true).size =
      messageSize x m (m.isHtml x) (utf8Len (toCrlf m.body)) attachments +
        utf8Len (m.suffix x) := by
  have hmodes : true = true → true = true → ∀ a ∈ attachments, a.size = a.data.length :=
    fun _ _ => hdata
  have hrender := (renderWith_size (x := x) (m := m) hmodes).1
  have htext : (m.textPart x true).size = utf8Len (toCrlf m.body) + utf8Len (m.suffix x) := rfl
  rw [hrender, htext, messageSize_add]

theorem utf8Len_noteSuffix_pos (note : List Char) (isHtml : Bool) :
    0 < utf8Len (noteSuffix (some note) isHtml) := by
  cases isHtml with
  | false =>
      rw [utf8Len_noteSuffix_plain]
      omega
  | true =>
      rw [utf8Len_noteSuffix_html]
      omega

/-- The listing has the size of the full rendering where its decisions are the same or cost the
same. -/
theorem listedSize_eq_iff (hsize : m.size.toNat = utf8Len (toCrlf m.body))
    (hdata : ∀ a ∈ attachments, a.size = a.data.length) :
    (renderWith x (listed m) (attachments.map listedAttachment) false true).size =
        (renderWith x m attachments true true).size ↔
      if (listed m).isHtml x = m.isHtml x then
        attachmentStatusNote x (listed m) = attachmentStatusNote x m
      else
        1 + utf8Len (noteSuffix (attachmentStatusNote x (listed m)) false) +
            4 * inlineCount attachments =
          5 * trustNotes (metadataOf x m) + utf8Len (noteSuffix (attachmentStatusNote x m) true) +
            structureCost attachments := by
  have hmeta : metadataOf x (listed m) = metadataOf x m := rfl
  rw [listedSize hsize hdata, fullSize hdata, utf8Len_suffix, utf8Len_suffix, hmeta]
  rcases decisions x m with hsame | ⟨hlist, hhtml⟩
  · rw [if_pos hsame, hsame]
    constructor
    · intro hlen
      rcases attachmentStatusNote_listed (x := x) (m := m) with heq | hnone
      · exact heq.symm
      · -- a note that only the listing has makes it longer
        rw [hnone] at hlen ⊢
        cases hnote : attachmentStatusNote x (listed m) with
        | none => rfl
        | some note =>
            rw [hnote] at hlen
            have hpos := utf8Len_noteSuffix_pos note (m.isHtml x)
            have hnil : utf8Len (noteSuffix none (m.isHtml x)) = 0 := rfl
            omega
    · intro hnote
      rw [hnote]
  · have hdiffer : ¬(listed m).isHtml x = m.isHtml x := by
      rw [hlist, hhtml]
      decide
    have htrust := (trustSuffix (metadataOf x m)).size
    have hcost := @messageSize_html x m attachments (utf8Len (toCrlf m.body))
    rw [if_neg hdiffer, hlist, hhtml]
    omega

/-- **RFC822.SIZE is the length of BODY[]** exactly where `SizesAgree` says. -/
theorem sizes_are_equal_iff {body : String} (hbody : m.bodyText = some body)
    (hsize : m.size = Db.crlfNormalizedLen body)
    (hdata : ∀ a ∈ attachments, a.size = a.data.length) :
    SizesEqual x m attachments ↔ SizesAgree x m attachments := by
  have hcount : m.size.toNat = utf8Len (toCrlf m.body) := by
    have hchars : m.body = body.toList := by
      unfold StoredMessage.body
      rw [hbody]
      rfl
    rw [hsize, hchars, ← crlfNormalizedLen_eq, String.ofList_toList]
    rfl
  have hlayout := (layout_agrees (x := x) (m := m) hdata).size
  have hmodes : true = true → true = true → ∀ a ∈ attachments, a.size = a.data.length :=
    fun _ _ => hdata
  have hfull := (renderWith_size (x := x) (m := m) hmodes).2 rfl rfl
  have hlisted := listedSize_eq_iff (x := x) hcount hdata
  unfold SizesEqual SizesAgree
  dsimp only
  rw [hlayout, ← hlisted, ← hfull]
  constructor
  · rintro ⟨hlist, -, hsame⟩
    exact ⟨hsame.symm, hlist.trans hsame.symm⟩
  · rintro ⟨hsame, hlist⟩
    exact ⟨hlist.trans hsame.symm, hsame.symm, hsame.symm⟩

end Sizes

/-- A plain message with a picture has its sizes. -/
theorem sizes_are_equal_iff_picture :
    SizesEqual plainCrates (plainMessage "hi") [picture] := by
  have hdata : ∀ a ∈ [picture], a.size = a.data.length := by
    intro a ha
    rw [List.mem_singleton.1 ha]
    rfl
  refine (sizes_are_equal_iff rfl rfl hdata).2 ⟨?_, ?_⟩
  · intro hstate
    exact absurd hstate (by decide)
  · rw [if_pos (by decide +kernel)]
    decide +kernel

/-- **HTML that only the body shows**: FETCH reports one byte too many. -/
theorem html_body_is_listed_longer :
    ¬SizesEqual plainCrates (plainMessage "<div>hi</div>") [] ∧
      (renderWith plainCrates (listed (plainMessage "<div>hi</div>")) [] false true).size = 186 ∧
      utf8Len (renderWith plainCrates (plainMessage "<div>hi</div>") [] true true).text = 185 := by
  have hlisted :
      (renderWith plainCrates (listed (plainMessage "<div>hi</div>")) [] false true).size = 186 := by
    decide +kernel
  have htext :
      utf8Len (renderWith plainCrates (plainMessage "<div>hi</div>") [] true true).text = 185 := by
    decide +kernel
  refine ⟨fun hequal => ?_, hlisted, htext⟩
  have hsame := hequal.1
  rw [List.map_nil, hlisted, htext] at hsame
  exact absurd hsame (by decide)

end AsterBridge.Render
