import AsterBridge.Pop3.Maildrop
import AsterBridge.Render.Sections

/-!
# Layouts

`render_layout` writes a message up to the bytes of its first attachment and counts the rest. Its
text is a prefix of the full text, and its parts and structures are those of the full rendering
(`layout_agrees`), so that what it has of a part is what the full rendering has.
-/

set_option autoImplicit false

namespace AsterBridge.Render

open AsterBridge.Lib AsterBridge.Lib.Text AsterBridge.Lib.Lines AsterBridge.Pop3

/-! ## Reading a rendering -/

/-- The text before and after a byte offset, where a character starts there. -/
def splitBytes : Nat → List Char → Option (List Char × List Char)
  | 0, s => some ([], s)
  | _ + 1, [] => none
  | n + 1, c :: cs =>
      if c.utf8Size ≤ n + 1 then
        (splitBytes (n + 1 - c.utf8Size) cs).map fun (front, back) => (c :: front, back)
      else none

/-- `str::get` of a range of bytes. -/
def getBytes (s : List Char) (start stop : Nat) : Option (List Char) :=
  if start ≤ stop then
    (splitBytes stop s).bind fun (front, _) => (splitBytes start front).map Prod.snd
  else none

namespace Rendered

/-- `part` -/
def part (r : Rendered) (section_ : List Char) : Option RenderedPart :=
  r.parts.find? fun p => p.section_ = section_

/-- `part_body` -/
def partBody (r : Rendered) (section_ : List Char) : Option (List Char) :=
  (r.part section_).bind fun p => getBytes r.text p.bodyStart p.bodyEnd

/-- `part_header` -/
def partHeader (r : Rendered) (section_ : List Char) : Option (List Char) :=
  (r.part section_).bind fun p => getBytes r.text p.headerStart p.headerEnd

/-- `has_bytes` -/
def hasBytes (r : Rendered) (stop : Nat) : Bool := r.missingFrom.all (stop ≤ ·)

/-- `has_part_body` -/
def hasPartBody (r : Rendered) (section_ : List Char) : Bool :=
  (r.part section_).all fun p => r.hasBytes p.bodyEnd

/-- `has_part_header` -/
def hasPartHeader (r : Rendered) (section_ : List Char) : Bool :=
  (r.part section_).all fun p => r.hasBytes p.headerEnd

end Rendered

/-- `render_layout` for what the cache lists without the data. -/
def renderLayout (x : RenderCrates) (m : StoredMessage) (attachments : List CachedAttachment) :
    Rendered :=
  renderWith x m (attachments.map listedAttachment) true false

section Bytes

variable {n : Nat} {s t front back : List Char}

/-- A split is where it says. -/
theorem eq_of_splitBytes (h : splitBytes n s = some (front, back)) :
    s = front ++ back ∧ utf8Len front = n := by
  fun_induction splitBytes n s generalizing front back with
  | case1 s =>
      obtain ⟨rfl, rfl⟩ := Prod.mk.inj (Option.some.inj h)
      exact ⟨rfl, rfl⟩
  | case2 n => cases h
  | case3 n c cs hle ih =>
      obtain ⟨⟨front', back'⟩, hsplit, heq⟩ := Option.map_eq_some_iff.1 h
      obtain ⟨rfl, rfl⟩ := Prod.mk.inj heq
      obtain ⟨hcs, hlen⟩ := ih hsplit
      refine ⟨congrArg (c :: ·) hcs, ?_⟩
      rw [utf8Len_cons, hlen]
      omega
  | case4 n c cs hle => cases h

theorem splitBytes_append (front back : List Char) :
    splitBytes (utf8Len front) (front ++ back) = some (front, back) := by
  induction front with
  | nil => rw [utf8Len_nil, List.nil_append, splitBytes]
  | cons c front ih =>
      have hpos := Char.utf8Size_pos c
      obtain ⟨n, hn⟩ := Nat.exists_eq_add_one_of_ne_zero
        (show utf8Len (c :: front) ≠ 0 by rw [utf8Len_cons]; omega)
      rw [utf8Len_cons] at hn
      rw [utf8Len_cons, hn, List.cons_append, splitBytes, if_pos (by omega), ← hn,
        Nat.add_sub_cancel_left, ih]
      rfl

/-- Where a character starts is known from the text up to there. -/
theorem splitBytes_prefix (hle : n ≤ utf8Len s) :
    (splitBytes n (s ++ t)).map Prod.fst = (splitBytes n s).map Prod.fst := by
  cases hsplit : splitBytes n s with
  | some p =>
      obtain ⟨front, back⟩ := p
      obtain ⟨rfl, rfl⟩ := eq_of_splitBytes hsplit
      rw [List.append_assoc, splitBytes_append]
      rfl
  | none =>
      cases hlong : splitBytes n (s ++ t) with
      | none => rfl
      | some p =>
          obtain ⟨front, back⟩ := p
          obtain ⟨heq, hlen⟩ := eq_of_splitBytes hlong
          -- the front is no longer than `s`, so that `s` is split there as well
          rcases List.append_eq_append_iff.1 heq with ⟨more, hfront, -⟩ | ⟨more, hs, -⟩
          · have hmore : utf8Len more = 0 := by
              rw [hfront, utf8Len_append] at hlen
              omega
            have hnil : more = [] := by
              cases more with
              | nil => rfl
              | cons c more =>
                  have hpos := Char.utf8Size_pos c
                  rw [utf8Len_cons] at hmore
                  omega
            rw [hnil, List.append_nil] at hfront
            have hself := splitBytes_append s []
            rw [List.append_nil, ← hfront, hlen, hfront] at hself
            rw [hself] at hsplit
            cases hsplit
          · have hself := splitBytes_append front more
            rw [← hs, hlen, hsplit] at hself
            cases hself

/-- A range of bytes is read from any prefix that has it. -/
theorem getBytes_prefix {start stop : Nat} (hle : stop ≤ utf8Len s) :
    getBytes (s ++ t) start stop = getBytes s start stop := by
  unfold getBytes
  split
  · have hfront := splitBytes_prefix (t := t) hle
    cases hlong : splitBytes stop (s ++ t) with
    | none =>
        cases hshort : splitBytes stop s with
        | none => rfl
        | some p => simp [hlong, hshort] at hfront
    | some q =>
        cases hshort : splitBytes stop s with
        | none => simp [hlong, hshort] at hfront
        | some p =>
            have heq : q.1 = p.1 := by simpa [hlong, hshort] using hfront
            simp only [Option.bind_some, heq]
  · rfl

end Bytes

/-! ## Two writers -/

/-- `o` writes what `o'` writes, up to the first attachment, and counts as `o'` does. -/
structure Follows (o o' : Out) : Prop where
  materialize : o.materialize = true ∧ o'.materialize = true
  data : o.attachmentData = false ∧ o'.attachmentData = true
  len : o.len = o'.len
  text : match o.gap with
    | none => o'.gap = none ∧ o.buf = o'.buf ∧ utf8Len o.buf = o.len
    | some gap => o.buf <+: o'.buf ∧ utf8Len o.buf = gap

section Writers

variable {x : RenderCrates} {o o' : Out} {a : CachedAttachment}

theorem Out.buf_push (o : Out) (s : List Char) : o.buf <+: (o.push s).buf := by
  unfold Out.push
  dsimp only
  split
  · exact List.prefix_append _ _
  · exact List.prefix_refl _

theorem Out.buf_pushBase64 (o : Out) (data : Bytes) (hint : Nat) :
    o.buf <+: (o.pushBase64 x data hint).buf := by
  unfold Out.pushBase64
  split
  · exact List.prefix_refl _
  · split
    · exact List.prefix_append _ _
    · exact List.prefix_refl _

/-- `push_base64` counts by the size that it is told, where this is the size of the data. -/
theorem Out.len_pushBase64 (o : Out) {data : Bytes} {hint : Nat}
    (h : o.materialize = true → o.attachmentData = true → data.length = hint) :
    (o.pushBase64 x data hint).len = o.len + base64EncodedLen hint := by
  unfold Out.pushBase64
  split
  · rfl
  · rename_i hbytes
    split
    · rename_i hwrite
      have hdata : o.attachmentData = true := by
        cases hmode : o.attachmentData with
        | true => rfl
        | false => exact absurd ⟨hwrite.1, Or.inl (by rw [hmode]; rfl)⟩ hbytes
      dsimp only
      rw [utf8Len_base64, h hwrite.1 hdata]
    · rfl

theorem Follows.push (h : Follows o o') (s : List Char) : Follows (o.push s) (o'.push s) where
  materialize := h.materialize
  data := h.data
  len := congrArg (· + utf8Len s) h.len
  text := by
    have htext := h.text
    change match o.gap with
      | none => o'.gap = none ∧ (o.push s).buf = (o'.push s).buf ∧
          utf8Len (o.push s).buf = o.len + utf8Len s
      | some gap => (o.push s).buf <+: (o'.push s).buf ∧ utf8Len (o.push s).buf = gap
    cases hgap : o.gap with
    | none =>
        rw [hgap] at htext
        obtain ⟨hgap', hbuf, hlen⟩ := htext
        have hleft : (o.push s).buf = o.buf ++ s := if_pos ⟨h.materialize.1, hgap⟩
        have hright : (o'.push s).buf = o'.buf ++ s := if_pos ⟨h.materialize.2, hgap'⟩
        refine ⟨hgap', ?_, ?_⟩
        · rw [hleft, hright, hbuf]
        · rw [hleft, utf8Len_append, hlen]
    | some gap =>
        rw [hgap] at htext
        obtain ⟨hstarts, hlen⟩ := htext
        have hleft : (o.push s).buf = o.buf := if_neg fun hboth => by
          rw [hgap] at hboth
          cases hboth.2
        rw [hleft]
        exact ⟨hstarts.trans (o'.buf_push s), hlen⟩

/-- At an attachment, the layout leaves its gap and both count the same. -/
theorem Follows.pushBase64 (h : Follows o o') (ha : a.size = a.data.length) :
    Follows (o.pushBase64 x [] (attachmentRawSize (listedAttachment a)))
        (o'.pushBase64 x a.data (attachmentRawSize a)) ∧
      (o.pushBase64 x [] (attachmentRawSize (listedAttachment a))).gap ≠ none := by
  have hraw : attachmentRawSize (listedAttachment a) = a.size.toNat := if_pos rfl
  have hsize : attachmentRawSize a = a.size.toNat := by
    rw [attachmentRawSize_eq ha, ha, Int.toNat_natCast]
  have hleft : o.pushBase64 x [] (attachmentRawSize (listedAttachment a)) =
      { o with
        gap := some (o.gap.getD o.len)
        len := o.len + base64EncodedLen (attachmentRawSize (listedAttachment a)) } :=
    if_pos ⟨h.materialize.1, Or.inl (by rw [h.data.1]; rfl)⟩
  have hlen := Out.len_pushBase64 (x := x) o' (fun _ _ => (attachmentRawSize_eq ha).symm)
  refine ⟨⟨?_, ?_, ?_, ?_⟩, ?_⟩
  · refine ⟨by rw [hleft]; exact h.materialize.1, ?_⟩
    unfold Out.pushBase64
    split
    · exact h.materialize.2
    · split <;> exact h.materialize.2
  · refine ⟨by rw [hleft]; exact h.data.1, ?_⟩
    unfold Out.pushBase64
    split
    · exact h.data.2
    · split <;> exact h.data.2
  · rw [hlen, hleft, h.len, hraw, hsize]
  · have htext := h.text
    have hbuf := o'.buf_pushBase64 (x := x) a.data (attachmentRawSize a)
    rw [hleft]
    cases hgap : o.gap with
    | none =>
        rw [hgap] at htext
        obtain ⟨-, heq, hcount⟩ := htext
        exact ⟨heq ▸ hbuf, hcount⟩
    | some gap =>
        rw [hgap] at htext
        exact ⟨htext.1.trans hbuf, htext.2⟩
  · rw [hleft]
    exact fun hnone => nomatch hnone

/-- The text part is written by both. -/
theorem Follows.write (h : Follows o o') {t : TextPart} (ht : t.body.isSome) :
    Follows (t.write o) (t.write o') ∧ (t.write o).gap = o.gap := by
  obtain ⟨body, hbody⟩ := Option.isSome_iff_exists.1 ht
  have hleft : t.write o = (o.push (toCrlf body)).push t.suffix := by
    rw [TextPart.write, hbody]
    dsimp only
    rw [if_pos h.materialize.1]
  have hright : t.write o' = (o'.push (toCrlf body)).push t.suffix := by
    rw [TextPart.write, hbody]
    dsimp only
    rw [if_pos h.materialize.2]
  rw [hleft, hright]
  exact ⟨(h.push _).push _, rfl⟩

end Writers

/-! ## Two renderings -/

/-- The contexts of the two writers, with the same parts so far. -/
structure InStep (c c' : Ctx) : Prop where
  out : Follows c.out c'.out
  parts : c.parts = c'.parts

/-- Two results of a step: contexts in step, and the same structure. -/
structure SameStep {β : Type} (r r' : Ctx × β) : Prop where
  ctx : InStep r.1 r'.1
  result : r.2 = r'.2

/-- The list of attachments without the data. -/
def shown (inline : Bool) (l : List CachedAttachment) : List Child := l.map (.attachment · inline)

section Steps

variable {x : RenderCrates} {t : TextPart} {c c' : Ctx} {section_ boundary : List Char}

theorem InStep.push (h : InStep c c') (s : List Char) :
    InStep { c with out := c.out.push s } { c' with out := c'.out.push s } :=
  ⟨h.out.push s, h.parts⟩

theorem InStep.note (h : InStep c c') (section_ : List Char) (headerStart headerEnd : Nat) :
    InStep (c.note section_ headerStart headerEnd) (c'.note section_ headerStart headerEnd) := by
  refine ⟨h.out, ?_⟩
  unfold Ctx.note
  rw [h.parts, h.out.len]

/-- Before the gap both have the same text, and so the same structure of it. -/
theorem sameStep_textPart (h : InStep c c') (hgap : c.out.gap = none) (ht : t.body.isSome)
    (header : List Char) :
    SameStep (c.writeTextPart t section_ header) (c'.writeTextPart t section_ header) ∧
      (c.writeTextPart t section_ header).1.out.gap = none := by
  obtain ⟨hwrite, hkept⟩ := (h.out.push header).write ht
  have hgap' : (t.write (c.out.push header)).gap = none := hkept.trans hgap
  have htext := hwrite.text
  rw [hgap'] at htext
  obtain ⟨-, hbuf, -⟩ := htext
  have hstart := h.out.len
  have hmiddle := (h.out.push header).len
  have hstep : InStep ⟨t.write (c.out.push header), c.parts⟩
      ⟨t.write (c'.out.push header), c'.parts⟩ := ⟨hwrite, h.parts⟩
  have hnote := hstep.note section_ c.out.len (c.out.push header).len
  unfold Ctx.writeTextPart
  dsimp only
  refine ⟨⟨?_, ?_⟩, hgap'⟩
  · rw [← hstart, ← hmiddle]
    exact hnote
  · dsimp only
    rw [if_pos hwrite.materialize.1, if_pos hwrite.materialize.2, ← hmiddle, ← hwrite.len, Ctx.slice,
      Ctx.slice, hbuf]

theorem sameStep_attachment (h : InStep c c') {a : CachedAttachment} (ha : a.size = a.data.length)
    (inline : Bool) :
    SameStep (c.writeAttachment x section_ (listedAttachment a) inline)
      (c'.writeAttachment x section_ a inline) := by
  have hheaders : attachmentHeaders x (listedAttachment a) inline = attachmentHeaders x a inline := by
    have hshown : (listedAttachment a).shownSize = a.shownSize := by
      rw [shownSize_eq ha, ← ha]
      rfl
    unfold attachmentHeaders
    rw [hshown]
    rfl
  obtain ⟨hdata, -⟩ := (h.out.push (attachmentHeaders x a inline)).pushBase64 (x := x) ha
  have hstart := h.out.len
  have hmiddle := (h.out.push (attachmentHeaders x a inline)).len
  have hstep : InStep ⟨_, c.parts⟩ ⟨_, c'.parts⟩ := ⟨hdata, h.parts⟩
  have hnote := hstep.note section_ c.out.len (c.out.push (attachmentHeaders x a inline)).len
  unfold Ctx.writeAttachment
  dsimp only
  rw [hheaders]
  refine ⟨?_, ?_⟩
  · rw [← hstart, ← hmiddle]
    exact hnote
  · have hlen := hdata.len
    dsimp only at hlen ⊢
    rw [← hmiddle, ← hlen]
    rfl

/-- One child and the children after it. -/
theorem sameStep_cons (h : InStep c c') {child child' : Child} {rest rest' : List Child} (idx : Nat)
    (hchild : ∀ d d', InStep d d' → d.out.gap = c.out.gap →
      SameStep (d.writeChild x t (Ctx.childSection section_ idx) child)
        (d'.writeChild x t (Ctx.childSection section_ idx) child'))
    (hrest : ∀ d d', InStep d d' →
      SameStep (d.writeChildren x t section_ boundary (idx + 1) rest)
        (d'.writeChildren x t section_ boundary (idx + 1) rest')) :
    SameStep (c.writeChildren x t section_ boundary idx (child :: rest))
      (c'.writeChildren x t section_ boundary idx (child' :: rest')) := by
  have hone := hchild _ _ (h.push (Ctx.boundaryLine boundary)) rfl
  have hmore := hrest _ _ (hone.ctx.push crlf)
  unfold Ctx.writeChildren
  exact ⟨hmore.ctx, congrArg₂ List.cons hone.result hmore.result⟩

theorem sameStep_attachments (inline : Bool) (l : List CachedAttachment)
    (hl : ∀ a ∈ l, a.size = a.data.length) (idx : Nat) (h : InStep c c') :
    SameStep
      (c.writeChildren x t section_ boundary idx (shown inline (l.map listedAttachment)))
      (c'.writeChildren x t section_ boundary idx (shown inline l)) := by
  induction l generalizing c c' idx with
  | nil => exact ⟨h, rfl⟩
  | cons a l ih =>
      refine sameStep_cons h idx ?_ fun d d' hd =>
        ih (fun b hb => hl b (List.mem_cons_of_mem _ hb)) (idx + 1) hd
      intro d d' hd _
      rw [Ctx.writeChild, Ctx.writeChild]
      exact sameStep_attachment hd (hl a List.mem_cons_self) inline

/-- A text and attachments after it. -/
theorem sameStep_group (h : InStep c c') (hgap : c.out.gap = none) (ht : t.body.isSome)
    (header : List Char) (inline : Bool) {l : List CachedAttachment}
    (hl : ∀ a ∈ l, a.size = a.data.length) :
    SameStep
      (c.writeChildren x t section_ boundary 0
        (.text header :: shown inline (l.map listedAttachment)))
      (c'.writeChildren x t section_ boundary 0 (.text header :: shown inline l)) := by
  refine sameStep_cons h 0 ?_ fun d d' hd => sameStep_attachments inline l hl 1 hd
  intro d d' hd hd'
  rw [Ctx.writeChild, Ctx.writeChild]
  exact (sameStep_textPart hd (hd'.trans hgap) ht header).1

theorem SameStep.close {r r' : Ctx × List (List Char)} (h : SameStep r r') (section_ : List Char)
    (subtype : String) (headerStart headerEnd : Nat) :
    SameStep (r.1.closeMultipart section_ subtype boundary headerStart headerEnd r.2)
      (r'.1.closeMultipart section_ subtype boundary headerStart headerEnd r'.2) := by
  have hline := h.ctx.push (Ctx.closingLine boundary)
  unfold Ctx.closeMultipart
  dsimp only
  refine ⟨?_, ?_⟩
  · dsimp only
    split
    · exact hline
    · exact hline.note section_ headerStart headerEnd
  · rw [h.result]

/-- The related part of an HTML message. -/
theorem sameStep_related (h : InStep c c') (hgap : c.out.gap = none) (ht : t.body.isSome)
    (header : List Char) {l : List CachedAttachment} (hl : ∀ a ∈ l, a.size = a.data.length) :
    SameStep
      (c.writeChild x t section_
        (.related boundary (.text header :: shown true (l.map listedAttachment))))
      (c'.writeChild x t section_ (.related boundary (.text header :: shown true l))) := by
  have hheader := h.push (Ctx.relatedHeader boundary)
  have hgroup := @sameStep_group x t _ _ section_ boundary hheader
    (show (c.out.push (Ctx.relatedHeader boundary)).gap = none from hgap) ht header true l hl
  have hclose := @SameStep.close boundary _ _ hgroup section_ "RELATED" c.out.len
    (c.out.push (Ctx.relatedHeader boundary)).len
  rw [Ctx.writeChild, Ctx.writeChild, ← h.out.len, ← hheader.out.len]
  exact hclose

theorem sameStep_multipart (h : InStep c c') (subtype : String) (header : List Char)
    {children children' : List Child}
    (hchildren : ∀ d d', InStep d d' → d.out.gap = c.out.gap →
      SameStep (d.writeChildren x t section_ boundary 0 children)
        (d'.writeChildren x t section_ boundary 0 children')) :
    SameStep (c.writeMultipart x t section_ subtype boundary header children)
      (c'.writeMultipart x t section_ subtype boundary header children') := by
  have hheader := h.push header
  have hall := hchildren _ _ hheader rfl
  have hclose := @SameStep.close boundary _ _ hall section_ subtype c.out.len
    (c.out.push header).len
  unfold Ctx.writeMultipart
  dsimp only
  rw [← h.out.len, ← hheader.out.len]
  exact hclose

end Steps

/-- `r` is the layout of `r'`. -/
structure LayoutOf (r r' : Rendered) : Prop where
  size : r.size = r'.size
  headerEnd : r.headerEnd = r'.headerEnd
  parts : r.parts = r'.parts
  bodystructure : r.bodystructure = r'.bodystructure
  text : match r.missingFrom with
    | none => r.text = r'.text
    | some gap => r.text <+: r'.text ∧ utf8Len r.text = gap

section Renderings

variable {x : RenderCrates} {m : StoredMessage} {attachments : List CachedAttachment}

/-- Both renderings have the same tree. -/
theorem sameStep_outerParts {t : TextPart} {c c' : Ctx} {boundary : List Char} (h : InStep c c')
    (hgap : c.out.gap = none) (ht : t.body.isSome) (asterId : String) (isHtml : Bool)
    (hdata : ∀ a ∈ attachments, a.size = a.data.length) :
    (outerParts x asterId isHtml (attachments.map listedAttachment)).1 =
        (outerParts x asterId isHtml attachments).1 ∧
      SameStep
        (c.writeChildren x t [] boundary 0
          (outerParts x asterId isHtml (attachments.map listedAttachment)).2)
        (c'.writeChildren x t [] boundary 0 (outerParts x asterId isHtml attachments).2) := by
  have hinline : (attachments.map listedAttachment).filter (goesInline isHtml) =
      (attachments.filter (goesInline isHtml)).map listedAttachment := by
    rw [List.filter_map]
    rfl
  have hregular : ((attachments.map listedAttachment).filter fun a => !goesInline isHtml a) =
      (attachments.filter fun a => !goesInline isHtml a).map listedAttachment := by
    rw [List.filter_map]
    rfl
  have hmem : ∀ p, ∀ a ∈ attachments.filter p, a.size = a.data.length := fun p a ha =>
    hdata a (List.mem_filter.1 ha).1
  unfold outerParts
  dsimp only
  rw [hinline, hregular]
  by_cases hnone : attachments.filter (goesInline isHtml) = []
  · rw [if_pos (by rw [hnone]; rfl), if_pos hnone]
    exact ⟨rfl, sameStep_group h hgap ht _ false (hmem _)⟩
  · have hnone' : (attachments.filter (goesInline isHtml)).map listedAttachment ≠ [] :=
      fun hnil => hnone (List.map_eq_nil_iff.1 hnil)
    rw [if_neg hnone', if_neg hnone]
    by_cases hall : (attachments.filter fun a => !goesInline isHtml a) = []
    · rw [if_pos (by rw [hall]; rfl), if_pos hall]
      exact ⟨rfl, sameStep_group h hgap ht _ true (hmem _)⟩
    · have hall' : (attachments.filter fun a => !goesInline isHtml a).map listedAttachment ≠ [] :=
        fun hnil => hall (List.map_eq_nil_iff.1 hnil)
      rw [if_neg hall', if_neg hall]
      refine ⟨rfl, sameStep_cons h 0 ?_ ?_⟩
      · exact fun d d' hd hd' => sameStep_related hd (hd'.trans hgap) ht _ (hmem _)
      · exact fun d d' hd => sameStep_attachments false _ (hmem _) 1 hd

/-- **A layout is a faithful prefix.** -/
theorem layout_agrees (hdata : ∀ a ∈ attachments, a.size = a.data.length) :
    LayoutOf (renderLayout x m attachments) (renderWith x m attachments true true) := by
  have hstart : ∀ onDemand : Bool, Follows
      { buf := [], len := 0, materialize := true, attachmentData := false, onDemand, gap := none }
      { buf := [], len := 0, materialize := true, attachmentData := true, onDemand, gap := none } :=
    fun _ => ⟨⟨rfl, rfl⟩, ⟨rfl, rfl⟩, rfl, rfl, rfl, rfl⟩
  have hwritten : ∀ {β : Type} {r r' : Ctx × β}, SameStep r r' → match r.1.out.gap with
      | none => r.1.out.buf = r'.1.out.buf
      | some gap => r.1.out.buf <+: r'.1.out.buf ∧ utf8Len r.1.out.buf = gap := by
    intro β r r' hsame
    have htext := hsame.ctx.out.text
    cases hgap : r.1.out.gap with
    | none =>
        rw [hgap] at htext
        exact htext.2.1
    | some gap =>
        rw [hgap] at htext
        exact htext
  unfold renderLayout renderWith
  extract_lets metadata bodyPresent isHtml note text ctx top plainTop boundary ctx'
  have hctx : InStep ctx ctx' := ⟨hstart _, rfl⟩
  have hbody : text.body.isSome := rfl
  by_cases hnil : attachments = []
  · subst hnil
    obtain ⟨hsame, -⟩ := @sameStep_textPart text ctx ctx' ['1'] hctx rfl hbody plainTop
    rw [List.map_nil, if_pos rfl, if_pos rfl]
    exact ⟨hsame.ctx.out.len, rfl, hsame.ctx.parts, hsame.result, hwritten hsame⟩
  · have hnil' : attachments.map listedAttachment ≠ [] := fun h => hnil (List.map_eq_nil_iff.1 h)
    rw [if_neg hnil', if_neg hnil]
    have hparts : ∀ d d', InStep d d' → d.out.gap = none →
        (outerParts x m.asterId isHtml (attachments.map listedAttachment)).1 =
            (outerParts x m.asterId isHtml attachments).1 ∧
          SameStep
            (d.writeChildren x text [] boundary 0
              (outerParts x m.asterId isHtml (attachments.map listedAttachment)).2)
            (d'.writeChildren x text [] boundary 0 (outerParts x m.asterId isHtml attachments).2) :=
      fun d d' hd hgap => sameStep_outerParts hd hgap hbody m.asterId isHtml hdata
    have hsame := @sameStep_multipart x text ctx ctx' [] boundary hctx
      (outerParts x m.asterId isHtml attachments).1.toUpper
      (top ++ multipartHeader (outerParts x m.asterId isHtml attachments).1 boundary) _ _
      fun d d' hd hgap => (hparts d d' hd hgap).2
    dsimp only
    rw [(hparts ctx ctx' hctx rfl).1]
    exact ⟨hsame.ctx.out.len, rfl, hsame.ctx.parts, hsame.result, hwritten hsame⟩

end Renderings

/-! ## Reading a layout -/

section Reading

variable {r r' : Rendered}

/-- A part that the layout has is that of the full rendering. -/
theorem LayoutOf.getBytes_eq (h : LayoutOf r r') {start stop : Nat} (hbytes : r.hasBytes stop) :
    getBytes r.text start stop = getBytes r'.text start stop := by
  have htext := h.text
  unfold Rendered.hasBytes at hbytes
  cases hgap : r.missingFrom with
  | none =>
      rw [hgap] at htext
      rw [htext]
  | some gap =>
      rw [hgap] at htext hbytes
      obtain ⟨⟨rest, hrest⟩, hlen⟩ := htext
      have hle : stop ≤ gap := of_decide_eq_true hbytes
      rw [← hrest, getBytes_prefix (hlen ▸ hle)]

theorem LayoutOf.part (h : LayoutOf r r') (section_ : List Char) :
    r.part section_ = r'.part section_ := by
  rw [Rendered.part, Rendered.part, h.parts]

theorem LayoutOf.partBody (h : LayoutOf r r') {section_ : List Char}
    (hhas : r.hasPartBody section_) : r.partBody section_ = r'.partBody section_ := by
  unfold Rendered.hasPartBody at hhas
  unfold Rendered.partBody
  rw [← h.part]
  cases hpart : r.part section_ with
  | none => rfl
  | some p =>
      rw [hpart] at hhas
      exact h.getBytes_eq hhas

theorem LayoutOf.partHeader (h : LayoutOf r r') {section_ : List Char}
    (hhas : r.hasPartHeader section_) : r.partHeader section_ = r'.partHeader section_ := by
  unfold Rendered.hasPartHeader at hhas
  unfold Rendered.partHeader
  rw [← h.part]
  cases hpart : r.part section_ with
  | none => rfl
  | some p =>
      rw [hpart] at hhas
      exact h.getBytes_eq hhas

/-- The bytes of a text. -/
def bytesOf (s : List Char) : Bytes := Utf8.encode (String.ofList s)

theorem bytesOf_append (s t : List Char) : bytesOf (s ++ t) = bytesOf s ++ bytesOf t := by
  simp only [bytesOf, Utf8.encode_eq_flatMap, String.toList_ofList, List.flatMap_append]

theorem length_bytesOf (s : List Char) : (bytesOf s).length = utf8Len s := by
  unfold bytesOf utf8Len
  rw [Utf8.encode_eq_flatMap, String.toList_ofList, List.length_flatMap]
  congr 1
  exact List.map_congr_left fun c _ => String.length_utf8EncodeChar c

/-- The layout has the bytes up to its gap. -/
theorem LayoutOf.bytes (h : LayoutOf r r') : bytesOf r.text =
    (bytesOf r'.text).take (r.missingFrom.getD (bytesOf r'.text).length) := by
  have htext := h.text
  cases hgap : r.missingFrom with
  | none =>
      rw [hgap] at htext
      rw [Option.getD_none, List.take_length, htext]
  | some gap =>
      rw [hgap] at htext
      obtain ⟨⟨rest, hrest⟩, hlen⟩ := htext
      rw [Option.getD_some, ← hrest, bytesOf_append, ← hlen, ← length_bytesOf, List.take_left]

end Reading

/-- The parts of a rendering are those of a tree of sections in its bytes. -/
structure WellArranged (r : Rendered) : Prop where
  offsets : ∀ p ∈ r.parts, p.headerStart ≤ p.headerEnd ∧ p.headerEnd = p.bodyStart ∧
    p.bodyStart ≤ p.bodyEnd ∧ p.bodyEnd ≤ r.size
  leaves : r.parts.Pairwise fun p q => IsLeaf r.parts p → IsLeaf r.parts q → Disjoint p q
  inside : ∀ p ∈ r.parts, ∀ q ∈ r.parts, Below p.section_ q.section_ →
    p.bodyStart ≤ q.headerStart ∧ q.bodyEnd ≤ p.bodyEnd

theorem wellArranged (x : RenderCrates) (m : StoredMessage) (attachments : List CachedAttachment)
    (materialize attachmentData : Bool) :
    WellArranged (renderWith x m attachments materialize attachmentData) := by
  have harranged := parts_arranged (x := x) m attachments materialize attachmentData
  refine ⟨fun p hp => ?_, harranged.leaves, fun p hp q hq => harranged.inside hp hq⟩
  have hspans := harranged.spans p hp
  exact ⟨hspans.header, hspans.body_start.symm, hspans.body, hspans.le_stop⟩

/-- **Layout rendering is a faithful prefix.** From attachments without their data, `render_layout`
has the header end, the parts and the structure of the full rendering, its text up to the gap, and
of each part that it says to have the same bytes. In both, the parts are those of a tree of
sections. -/
theorem layout_is_faithful (x : RenderCrates) (m : StoredMessage)
    (attachments : List CachedAttachment) (hdata : ∀ a ∈ attachments, a.size = a.data.length) :
    let layout := renderLayout x m attachments
    let full := renderWith x m attachments true true
    layout.headerEnd = full.headerEnd ∧ layout.parts = full.parts ∧
      layout.bodystructure = full.bodystructure ∧
      bytesOf layout.text =
        (bytesOf full.text).take (layout.missingFrom.getD (bytesOf full.text).length) ∧
      WellArranged layout ∧ WellArranged full ∧
      ∀ section_,
        (layout.hasPartHeader section_ → layout.partHeader section_ = full.partHeader section_) ∧
        (layout.hasPartBody section_ → layout.partBody section_ = full.partBody section_) := by
  have hlayout := layout_agrees (x := x) (m := m) hdata
  exact ⟨hlayout.headerEnd, hlayout.parts, hlayout.bodystructure, hlayout.bytes,
    wellArranged _ _ _ _ _, wellArranged _ _ _ _ _,
    fun section_ => ⟨hlayout.partHeader, hlayout.partBody⟩⟩

/-- A picture of three bytes. -/
def picture : CachedAttachment where
  seq := 0
  name := "a.png"
  contentType := "image/png"
  contentId := none
  isInline := false
  size := 3
  data := [1, 2, 3]

/-- The layout of a message with a picture ends before its bytes, with the offsets of both
parts. -/
theorem layout_is_faithful_picture :
    (renderLayout plainCrates (plainMessage "hi") [picture]).missingFrom.isSome ∧
      (renderLayout plainCrates (plainMessage "hi") [picture]).parts =
        (renderWith plainCrates (plainMessage "hi") [picture] true true).parts := by
  refine ⟨by decide +kernel, ?_⟩
  have hdata : ∀ a ∈ [picture], a.size = a.data.length := by
    intro a ha
    rw [List.mem_singleton.1 ha]
    rfl
  exact (layout_is_faithful plainCrates (plainMessage "hi") [picture] hdata).2.1

end AsterBridge.Render
