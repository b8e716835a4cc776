import AsterBridge.Render.Message

/-!
# Sections

A part lies in the bytes between the start of its header and the end of its body. The parts of a
rendering are arranged as their sections are: a part that is below another one lies inside its body,
and parts that are not below each other follow each other (`Arranged`).
-/

set_option autoImplicit false

namespace AsterBridge.Render

open AsterBridge.Lib AsterBridge.Lib.Text AsterBridge.Lib.Lines

/-! ## Names of sections -/

/-- The section `t` is below `s`. -/
def Below (s t : List Char) : Prop := ∃ r, t = s ++ '.' :: r

/-- The section `t` is `s` or below it. -/
def AtOrBelow (s t : List Char) : Prop := t = s ∨ Below s t

/-- Neither section is the other one or below it. -/
def Apart (s t : List Char) : Prop := ¬AtOrBelow s t ∧ ¬Below t s

section Names

variable {r s t u : List Char}

theorem Below.trans (h : Below s t) (h' : Below t u) : Below s u := by
  obtain ⟨a, rfl⟩ := h
  obtain ⟨b, rfl⟩ := h'
  exact ⟨a ++ '.' :: b, by rw [List.append_assoc, List.cons_append]⟩

theorem AtOrBelow.trans (h : AtOrBelow s t) (h' : AtOrBelow t u) : AtOrBelow s u := by
  rcases h with rfl | h
  · exact h'
  · rcases h' with rfl | h'
    · exact Or.inr h
    · exact Or.inr (h.trans h')

theorem not_below_self (s : List Char) : ¬Below s s := by
  rintro ⟨r, h⟩
  have hlen := congrArg List.length h
  rw [List.length_append, List.length_cons] at hlen
  omega

theorem Below.not_below (h : Below s t) : ¬Below t s := fun h' => not_below_self s (h.trans h')

/-- Sections above the same section are above each other. -/
theorem not_apart_of_above (hs : AtOrBelow s u) (ht : AtOrBelow t u) : ¬Apart s t := by
  have hsplit : ∀ {s : List Char}, AtOrBelow s u →
      ∃ r, u = s ++ r ∧ (r = [] ∨ ∃ r', r = '.' :: r') := by
    intro s hs
    rcases hs with rfl | ⟨r, rfl⟩
    · exact ⟨[], (List.append_nil _).symm, Or.inl rfl⟩
    · exact ⟨'.' :: r, rfl, Or.inr ⟨r, rfl⟩⟩
  -- the longer one adds to the shorter one what starts with the separator
  have hlonger : ∀ {s t a r r' : List Char}, t = s ++ a → r = a ++ r' →
      (r = [] ∨ ∃ q, r = '.' :: q) → AtOrBelow s t := by
    intro s t a r r' ht hr hshape
    cases a with
    | nil => exact Or.inl (by rw [ht, List.append_nil])
    | cons c a =>
        rcases hshape with hnil | ⟨q, hq⟩
        · rw [hnil] at hr
          cases hr
        · rw [hq, List.cons_append] at hr
          obtain ⟨rfl, -⟩ := List.cons.inj hr
          exact Or.inr ⟨a, ht⟩
  obtain ⟨r, hr, hshape⟩ := hsplit hs
  obtain ⟨r', hr', hshape'⟩ := hsplit ht
  rintro ⟨hst, hts⟩
  rcases List.append_eq_append_iff.1 (hr.symm.trans hr') with ⟨a, hlong, hrest⟩ | ⟨a, hlong, hrest⟩
  · exact hst (hlonger hlong hrest hshape)
  · rcases hlonger hlong hrest hshape' with heq | hbelow
    · exact hst (Or.inl heq.symm)
    · exact hts hbelow

/-- What is at or below sections that are apart is apart. -/
theorem Apart.mono (h : Apart s t) {p q : List Char} (hp : AtOrBelow s p) (hq : AtOrBelow t q) :
    Apart p q := by
  constructor
  · exact fun hpq => not_apart_of_above (hp.trans hpq) hq h
  · exact fun hqp => not_apart_of_above hp (hq.trans (Or.inr hqp)) h

theorem dot_not_mem_toString (n : Nat) : '.' ∉ (toString n).toList := by
  intro hdot
  have hlist : (toString n).toList = Nat.toDigits 10 n := Nat.toList_repr
  rw [hlist] at hdot
  exact absurd (Nat.isDigit_of_mem_toDigits (by decide : 0 < 10) (by decide) hdot) (by decide)

theorem toString_injective {i j : Nat} (h : (toString i).toList = (toString j).toList) : i = j := by
  have hi := parseInt_toString i
  have hj := parseInt_toString j
  rw [String.toList_inj.1 h, hj] at hi
  exact (Int.ofNat.inj (Option.some.inj hi)).symm

/-- The numbers of two children are apart. -/
theorem apart_toString {i j : Nat} (h : i ≠ j) :
    Apart (toString (i + 1)).toList (toString (j + 1)).toList := by
  have hdot : ∀ m n : Nat, ¬Below (toString m).toList (toString n).toList := by
    rintro m n ⟨r, hr⟩
    exact dot_not_mem_toString n (hr ▸ List.mem_append_right _ List.mem_cons_self)
  constructor
  · rintro (heq | hbelow)
    · exact h (Nat.succ.inj (toString_injective heq)).symm
    · exact hdot _ _ hbelow
  · exact hdot _ _

theorem Apart.append (h : Apart s t) (u : List Char) : Apart (u ++ s) (u ++ t) := by
  have hbelow : ∀ {s t : List Char}, Below (u ++ s) (u ++ t) → Below s t := by
    rintro s t ⟨r, hr⟩
    rw [List.append_assoc] at hr
    exact ⟨r, List.append_cancel_left hr⟩
  constructor
  · rintro (heq | hb)
    · exact h.1 (Or.inl (List.append_cancel_left heq))
    · exact h.1 (Or.inr (hbelow hb))
  · exact fun hb => h.2 (hbelow hb)

theorem apart_childSection (s : List Char) {i j : Nat} (h : i ≠ j) :
    Apart (Ctx.childSection s i) (Ctx.childSection s j) := by
  unfold Ctx.childSection
  split
  · exact apart_toString h
  · have happend := (apart_toString h).append (s ++ ['.'])
    rw [List.append_assoc, List.append_assoc] at happend
    exact happend

theorem childSection_ne_nil (s : List Char) (i : Nat) : Ctx.childSection s i ≠ [] := by
  unfold Ctx.childSection
  split
  · intro hnil
    have hlist : (toString (i + 1)).toList = Nat.toDigits 10 (i + 1) := Nat.toList_repr
    exact Nat.toDigits_ne_nil (hlist ▸ hnil)
  · exact List.append_ne_nil_of_right_ne_nil _ (List.cons_ne_nil _ _)

theorem below_childSection {s : List Char} (h : s ≠ []) (i : Nat) :
    Below s (Ctx.childSection s i) := ⟨_, if_neg h⟩

end Names

/-! ## Arranged parts -/

/-- A part between two offsets. -/
structure Spans (start stop : Nat) (p : RenderedPart) : Prop where
  start_le : start ≤ p.headerStart
  header : p.headerStart ≤ p.headerEnd
  body_start : p.bodyStart = p.headerEnd
  body : p.bodyStart ≤ p.bodyEnd
  le_stop : p.bodyEnd ≤ stop

/-- An earlier and a later part: one after the other, or the earlier one inside the body of the
later one, as their sections are. -/
def Ordered (p q : RenderedPart) : Prop :=
  Apart p.section_ q.section_ ∧ p.bodyEnd ≤ q.headerStart ∨
    Below q.section_ p.section_ ∧ q.bodyStart ≤ p.headerStart ∧ p.bodyEnd ≤ q.bodyEnd

/-- The parts between two offsets. -/
structure Arranged (start stop : Nat) (parts : List RenderedPart) : Prop where
  spans : ∀ p ∈ parts, Spans start stop p
  ordered : parts.Pairwise Ordered

/-- A step of the writer: it adds arranged parts in the bytes that it writes. -/
def Adds (c c' : Ctx) (inside : List Char → Prop) : Prop :=
  c.out.len ≤ c'.out.len ∧ ∃ parts, c'.parts = c.parts ++ parts ∧
    Arranged c.out.len c'.out.len parts ∧ ∀ p ∈ parts, inside p.section_

section Arrangement

variable {x : RenderCrates} {t : TextPart} {c c' c'' : Ctx} {section_ : List Char}
  {inside inside' : List Char → Prop} {start start' stop stop' : Nat} {p : RenderedPart}
  {parts parts' : List RenderedPart}

theorem Spans.mono (h : Spans start stop p) (hstart : start' ≤ start) (hstop : stop ≤ stop') :
    Spans start' stop' p :=
  { h with start_le := hstart.trans h.start_le, le_stop := h.le_stop.trans hstop }

theorem Arranged.mono (h : Arranged start stop parts) (hstart : start' ≤ start)
    (hstop : stop ≤ stop') : Arranged start' stop' parts :=
  ⟨fun p hp => (h.spans p hp).mono hstart hstop, h.ordered⟩

/-- Parts after parts, in sections that are apart. -/
theorem Arranged.append {middle : Nat} (h : Arranged start middle parts)
    (h' : Arranged middle stop parts') (hstart : start ≤ middle) (hstop : middle ≤ stop)
    (hapart : ∀ p ∈ parts, ∀ q ∈ parts', Apart p.section_ q.section_) :
    Arranged start stop (parts ++ parts') := by
  refine ⟨fun p hp => ?_, List.pairwise_append.2 ⟨h.ordered, h'.ordered, fun p hp q hq => ?_⟩⟩
  · rcases List.mem_append.1 hp with hp | hp
    · exact (h.spans p hp).mono (Nat.le_refl _) hstop
    · exact (h'.spans p hp).mono hstart (Nat.le_refl _)
  · exact Or.inl ⟨hapart p hp q hq, (h.spans p hp).le_stop.trans (h'.spans q hq).start_le⟩

/-- A part around the parts of its body. -/
theorem Arranged.enclose (h : Arranged p.bodyStart p.bodyEnd parts)
    (hp : Spans start p.bodyEnd p) (hbelow : ∀ q ∈ parts, Below p.section_ q.section_) :
    Arranged start p.bodyEnd (parts ++ [p]) := by
  have hbody : start ≤ p.bodyStart := by
    have hstart := hp.start_le
    have hheader := hp.header
    have hend := hp.body_start
    omega
  refine ⟨fun q hq => ?_, List.pairwise_append.2 ⟨h.ordered, List.pairwise_singleton _ _, ?_⟩⟩
  · rcases List.mem_append.1 hq with hq | hq
    · exact (h.spans q hq).mono hbody (Nat.le_refl _)
    · rw [List.mem_singleton.1 hq]
      exact hp
  · intro q hq r hr
    rw [List.mem_singleton.1 hr]
    exact Or.inr ⟨hbelow q hq, (h.spans q hq).start_le, (h.spans q hq).le_stop⟩

theorem Adds.refl (c : Ctx) (inside : List Char → Prop) : Adds c c inside :=
  ⟨Nat.le_refl _, [], (List.append_nil _).symm, ⟨fun _ hp => (nomatch hp), List.Pairwise.nil⟩,
    fun _ hp => (nomatch hp)⟩

theorem Adds.weaken (h : Adds c c' inside) (hinside : ∀ s, inside s → inside' s) :
    Adds c c' inside' := by
  obtain ⟨hlen, parts, hparts, harranged, hin⟩ := h
  exact ⟨hlen, parts, hparts, harranged, fun p hp => hinside _ (hin p hp)⟩

theorem Adds.trans (h : Adds c c' inside) (h' : Adds c' c'' inside')
    (hapart : ∀ s t, inside s → inside' t → Apart s t) :
    Adds c c'' fun s => inside s ∨ inside' s := by
  obtain ⟨hlen, parts, hparts, harranged, hin⟩ := h
  obtain ⟨hlen', parts', hparts', harranged', hin'⟩ := h'
  refine ⟨hlen.trans hlen', parts ++ parts', ?_, ?_, fun p hp => ?_⟩
  · rw [hparts', hparts, List.append_assoc]
  · exact harranged.append harranged' hlen hlen'
      fun p hp q hq => hapart _ _ (hin p hp) (hin' q hq)
  · rcases List.mem_append.1 hp with hp | hp
    · exact Or.inl (hin p hp)
    · exact Or.inr (hin' p hp)

/-- Bytes after the parts. -/
theorem Adds.push (h : Adds c c' inside) (s : List Char) :
    Adds c { c' with out := c'.out.push s } inside := by
  obtain ⟨hlen, parts, hparts, harranged, hin⟩ := h
  have hmore : c'.out.len ≤ (c'.out.push s).len := Nat.le_add_right _ _
  exact ⟨hlen.trans hmore, parts, hparts, harranged.mono (Nat.le_refl _) hmore, hin⟩

/-- Bytes before the parts. -/
theorem Adds.of_push {s : List Char} (h : Adds { c with out := c.out.push s } c' inside) :
    Adds c c' inside := by
  obtain ⟨hlen, parts, hparts, harranged, hin⟩ := h
  have hmore : c.out.len ≤ (c.out.push s).len := Nat.le_add_right _ _
  exact ⟨hmore.trans hlen, parts, hparts, harranged.mono hmore (Nat.le_refl _), hin⟩

theorem Out.len_le_pushBase64 (o : Out) (data : Bytes) (hint : Nat) :
    o.len ≤ (o.pushBase64 x data hint).len := by
  unfold Out.pushBase64
  split
  · exact Nat.le_add_right _ _
  · split <;> exact Nat.le_add_right _ _

theorem TextPart.len_le_write (t : TextPart) (o : Out) : o.len ≤ (t.write o).len := by
  unfold TextPart.write
  refine Nat.le_trans ?_ (Nat.le_add_right _ _)
  split
  · split <;> exact Nat.le_add_right _ _
  · exact Nat.le_add_right _ _

/-- One part with a body. -/
theorem adds_leaf {out : Out} (header : List Char) (hbody : (c.out.push header).len ≤ out.len) :
    Adds c (Ctx.note { c with out } section_ c.out.len (c.out.push header).len)
      (AtOrBelow section_) := by
  have hheader : c.out.len ≤ (c.out.push header).len := Nat.le_add_right _ _
  refine ⟨hheader.trans hbody, [_], rfl, ⟨?_, List.pairwise_singleton _ _⟩, ?_⟩
  · intro p hp
    rw [List.mem_singleton.1 hp]
    exact ⟨Nat.le_refl _, hheader, rfl, hbody, Nat.le_refl _⟩
  · intro p hp
    rw [List.mem_singleton.1 hp]
    exact Or.inl rfl

theorem adds_textPart (c : Ctx) (section_ header : List Char) :
    Adds c (c.writeTextPart t section_ header).1 (AtOrBelow section_) :=
  adds_leaf header (t.len_le_write _)

theorem adds_attachment (c : Ctx) (section_ : List Char) (a : CachedAttachment) (inline : Bool) :
    Adds c (c.writeAttachment x section_ a inline).1 (AtOrBelow section_) :=
  adds_leaf (attachmentHeaders x a inline) (Out.len_le_pushBase64 _ _ _)

/-- A multipart around its children. -/
theorem adds_enclosed {header : List Char} {boundary : List Char} {subtype : String}
    {structures : List (List Char)} (hne : section_ ≠ [])
    (h : Adds { c with out := c.out.push header } c'
      fun s => ∃ i, AtOrBelow (Ctx.childSection section_ i) s) :
    Adds c
      (c'.closeMultipart section_ subtype boundary c.out.len (c.out.push header).len structures).1
      (AtOrBelow section_) := by
  obtain ⟨hlen, parts, hparts, harranged, hin⟩ := h.push (Ctx.closingLine boundary)
  have hheader : c.out.len ≤ (c.out.push header).len := Nat.le_add_right _ _
  unfold Ctx.closeMultipart
  dsimp only
  rw [if_neg hne]
  have hbelow : ∀ q ∈ parts, Below section_ q.section_ := by
    intro q hq
    obtain ⟨i, hi⟩ := hin q hq
    rcases hi with heq | hb
    · exact heq ▸ below_childSection hne i
    · exact (below_childSection hne i).trans hb
  let p : RenderedPart := ⟨section_, c.out.len, (c.out.push header).len, (c.out.push header).len,
    (c'.out.push (Ctx.closingLine boundary)).len⟩
  have hp : Spans c.out.len p.bodyEnd p := ⟨Nat.le_refl _, hheader, rfl, hlen, Nat.le_refl _⟩
  refine ⟨hheader.trans hlen, parts ++ [p], ?_, ?_, ?_⟩
  · unfold Ctx.note
    dsimp only at hparts ⊢
    rw [hparts, List.append_assoc]
  · exact Arranged.enclose (p := p) harranged hp hbelow
  · intro p hp
    rcases List.mem_append.1 hp with hp | hp
    · exact Or.inr (hbelow p hp)
    · rw [List.mem_singleton.1 hp]
      exact Or.inl rfl

mutual

/-- A child adds the parts of its section. -/
theorem adds_child : ∀ (child : Child) (c : Ctx) {section_ : List Char}, section_ ≠ [] →
    Adds c (c.writeChild x t section_ child).1 (AtOrBelow section_)
  | .text header, c, section_, hne => by
      rw [Ctx.writeChild]
      exact adds_textPart c section_ header
  | .attachment a inline, c, section_, hne => by
      rw [Ctx.writeChild]
      exact adds_attachment c section_ a inline
  | .related boundary children, c, section_, hne => by
      have hchildren := adds_children children
        { c with out := c.out.push (Ctx.relatedHeader boundary) } section_ boundary 0
      rw [Ctx.writeChild]
      exact adds_enclosed hne (hchildren.weaken fun s ⟨i, _, hi⟩ => ⟨i, hi⟩)

/-- The children add the parts of their sections, one child after the other. -/
theorem adds_children : ∀ (children : List Child) (c : Ctx) (section_ boundary : List Char)
    (idx : Nat), Adds c (c.writeChildren x t section_ boundary idx children).1
      fun s => ∃ i, idx ≤ i ∧ AtOrBelow (Ctx.childSection section_ i) s
  | [], c, section_, boundary, idx => Adds.refl c _
  | child :: rest, c, section_, boundary, idx => by
      let c' := (Ctx.writeChild x t { c with out := c.out.push (Ctx.boundaryLine boundary) }
        (Ctx.childSection section_ idx) child).1
      have hchild : Adds c { c' with out := c'.out.push crlf }
          (AtOrBelow (Ctx.childSection section_ idx)) :=
        (adds_child child { c with out := c.out.push (Ctx.boundaryLine boundary) }
          (childSection_ne_nil section_ idx)).of_push.push crlf
      have hrest := adds_children rest { c' with out := c'.out.push crlf } section_ boundary (idx + 1)
      rw [Ctx.writeChildren]
      refine (hchild.trans hrest ?_).weaken ?_
      · rintro s s' hs ⟨i, hi, hs'⟩
        exact (apart_childSection section_ (by omega)).mono hs hs'
      · rintro s (hs | ⟨i, hi, hs⟩)
        · exact ⟨idx, Nat.le_refl _, hs⟩
        · exact ⟨i, by omega, hs⟩

end

/-- **The parts of a rendering are arranged in its bytes.** -/
theorem parts_arranged (m : StoredMessage) (attachments : List CachedAttachment)
    (materialize attachmentData : Bool) :
    Arranged 0 (renderWith x m attachments materialize attachmentData).size
      (renderWith x m attachments materialize attachmentData).parts := by
  have hall : ∀ {β : Type} {c : Ctx} {r : Ctx × β} {inside : List Char → Prop}, c.out.len = 0 →
      c.parts = [] → Adds c r.1 inside → Arranged 0 r.1.out.len r.1.parts := by
    intro β c r inside hlen hnil hadds
    obtain ⟨-, parts, hparts, harranged, -⟩ := hadds
    rw [hparts, hnil, List.nil_append]
    rwa [hlen] at harranged
  unfold renderWith
  extract_lets metadata bodyPresent isHtml note text ctx top plainTop boundary
  by_cases hnil : attachments = []
  · rw [if_pos hnil]
    exact hall rfl rfl (adds_textPart (t := text) ctx ['1'] plainTop)
  · rw [if_neg hnil]
    let header := top ++ multipartHeader (outerParts x m.asterId isHtml attachments).1 boundary
    have hchildren := @adds_children x text (outerParts x m.asterId isHtml attachments).2
      { ctx with out := ctx.out.push header } [] boundary 0
    exact hall rfl rfl (hchildren.of_push.push (Ctx.closingLine boundary))

end Arrangement

/-! ## Leaves and parents -/

/-- A part with no part below it. -/
def IsLeaf (parts : List RenderedPart) (p : RenderedPart) : Prop :=
  ∀ q ∈ parts, ¬Below p.section_ q.section_

/-- The bytes of the parts do not overlap. -/
def Disjoint (p q : RenderedPart) : Prop :=
  p.bodyEnd ≤ q.headerStart ∨ q.bodyEnd ≤ p.headerStart

section Consequences

variable {start stop : Nat} {parts : List RenderedPart}

/-- Leaves do not overlap. -/
theorem Arranged.leaves (h : Arranged start stop parts) :
    parts.Pairwise fun p q => IsLeaf parts p → IsLeaf parts q → Disjoint p q := by
  refine List.Pairwise.imp_of_mem ?_ h.ordered
  rintro p q hp - (⟨-, hdisjoint⟩ | ⟨hbelow, -⟩) - hq
  · exact Or.inl hdisjoint
  · exact absurd hbelow (hq p hp)

/-- A part below another one is inside its body. -/
theorem Arranged.inside (h : Arranged start stop parts) {p q : RenderedPart} (hp : p ∈ parts)
    (hq : q ∈ parts) (hbelow : Below p.section_ q.section_) :
    p.bodyStart ≤ q.headerStart ∧ q.bodyEnd ≤ p.bodyEnd := by
  obtain ⟨i, hi, rfl⟩ := List.getElem_of_mem hp
  obtain ⟨j, hj, rfl⟩ := List.getElem_of_mem hq
  have hordered := List.pairwise_iff_getElem.1 h.ordered
  rcases Nat.lt_trichotomy i j with hlt | rfl | hgt
  · -- the parent cannot come first
    rcases hordered i j hi hj hlt with ⟨hapart, -⟩ | ⟨habove, -⟩
    · exact absurd (Or.inr hbelow) hapart.1
    · exact absurd habove hbelow.not_below
  · exact absurd hbelow (not_below_self _)
  · rcases hordered j i hj hi hgt with ⟨hapart, -⟩ | ⟨-, hinside⟩
    · exact absurd hbelow hapart.2
    · exact hinside

end Consequences

end AsterBridge.Render
