import AsterBridge.Lib.Words
import AsterBridge.Render.Headers

/-!
# The legacy attachment note

`strip_legacy_note` of `message_render.rs` and the body that `backfill_pending_attachments` of
`sync/poller.rs` writes when the attachments of a message have arrived. The note is cut off at
the last occurrence of its first words, with all that follows and with a `<p>` before it.
-/

set_option autoImplicit false

namespace AsterBridge.Render.LegacyNote

open AsterBridge.Lib.Text

/-! ## The last occurrence of a text -/

/-- `rfind` -/
def rfindText (needle : List Char) : List Char → Option Nat
  | [] => if needle.isEmpty then some 0 else none
  | c :: cs =>
      match rfindText needle cs with
      | some i => some (i + 1)
      | none => if needle.isPrefixOf (c :: cs) then some 0 else none

section RFind

variable {needle s xs : List Char} {c : Char} {i : Nat}

theorem rfindText_eq_none_iff : rfindText needle s = none ↔ ¬ needle <:+: s := by
  induction s with
  | nil =>
    cases needle with
    | nil => simp [rfindText]
    | cons d needle => simp [rfindText]
  | cons d s ih =>
    rw [rfindText, List.infix_cons_iff]
    cases hrest : rfindText needle s with
    | some i =>
      have hin : needle <:+: s := by
        by_contra hnot
        exact nomatch (ih.2 hnot).symm.trans hrest
      exact iff_of_false (nomatch ·) fun hnot => hnot (Or.inr hin)
    | none =>
      have hnot := ih.1 hrest
      dsimp only
      split
      case isTrue hhead =>
        exact iff_of_false (nomatch ·) fun h => h (Or.inl (List.isPrefixOf_iff_prefix.1 hhead))
      case isFalse hhead =>
        refine iff_of_true rfl ?_
        rintro (hhere | hlater)
        · exact hhead (List.isPrefixOf_iff_prefix.2 hhere)
        · exact hnot hlater

theorem rfindText_append (h : rfindText needle s = some i) (xs : List Char) :
    rfindText needle (xs ++ s) = some (xs.length + i) := by
  induction xs with
  | nil => rw [List.nil_append, h, List.length_nil, Nat.zero_add]
  | cons d xs ih =>
    rw [List.cons_append, rfindText, ih, List.length_cons]
    exact congrArg some (Nat.add_right_comm _ _ _)

/-- An occurrence that is found has the text behind it. -/
theorem exists_of_rfindText (h : rfindText needle s = some i) :
    ∃ front back, s = front ++ needle ++ back ∧ front.length = i := by
  induction s generalizing i with
  | nil =>
    cases needle with
    | nil =>
      obtain rfl : 0 = i := Option.some.inj h
      exact ⟨[], [], rfl, rfl⟩
    | cons d needle => exact nomatch h
  | cons d s ih =>
    rw [rfindText] at h
    split at h
    case h_1 j hrest =>
      obtain ⟨front, back, rfl, rfl⟩ := ih hrest
      obtain rfl := Option.some.inj h
      exact ⟨d :: front, back, rfl, rfl⟩
    case h_2 =>
      split at h
      case isFalse => exact nomatch h
      case isTrue hhead =>
        obtain rfl := Option.some.inj h
        obtain ⟨back, hback⟩ := List.isPrefixOf_iff_prefix.1 hhead
        exact ⟨[], back, hback.symm, rfl⟩

/-- A text whose first character is nowhere else in it is found where it stands last. -/
theorem rfindText_here (hc : c ∉ needle) (hs : ¬ (c :: needle) <:+: s) (xs : List Char) :
    rfindText (c :: needle) (xs ++ (c :: needle ++ s)) = some xs.length := by
  have hrest : rfindText (c :: needle) (needle ++ s) = none := by
    rw [rfindText_eq_none_iff]
    clear xs
    -- an occurrence cannot start before `s`, where its first character is missing
    rintro ⟨front, back, heq⟩
    rw [List.append_assoc, List.append_eq_append_iff] at heq
    rcases heq with ⟨more, rfl, heq⟩ | ⟨more, rfl, rfl⟩
    · cases more with
      | nil => exact hs ⟨[], back, heq⟩
      | cons d more =>
        obtain ⟨rfl, -⟩ := List.cons.inj heq
        exact hc (List.mem_append_right _ List.mem_cons_self)
    · exact hs ⟨more, back, by rw [List.append_assoc]⟩
  have hfirst : rfindText (c :: needle) (c :: needle ++ s) = some 0 := by
    rw [List.cons_append, rfindText, hrest]
    exact if_pos (List.isPrefixOf_iff_prefix.2 (List.prefix_append (c :: needle) s))
  exact rfindText_append hfirst xs

end RFind

/-! ## Removing the note -/

/-- `'\n'` and `'\r'`. -/
def isBreak (c : Char) : Bool := c == '\n' || c == '\r'

/-- The loop at the end of `strip_legacy_note`. -/
def trimBreaks (s : List Char) : List Char := s.rdropWhile isBreak

/-- `strip_suffix` -/
def stripSuffix (suffix s : List Char) : Option (List Char) :=
  if suffix <:+ s then some (s.take (s.length - suffix.length)) else none

/-- What `strip_legacy_note` leaves of the text before the note. -/
def leaves (head : List Char) : List Char :=
  trimBreaks ((stripSuffix "<p>".toList (trimEnd head)).getD head)

/-- `strip_legacy_note` -/
def stripLegacyNote (body : List Char) : Option (List Char) :=
  (rfindText legacyNotePrefix.toList body).map fun pos => leaves (body.take pos)

/-- The body that `backfill_pending_attachments` gives to `update_cached_body`, if it does;
`changed` tells whether the stored headers are others than before. -/
def backfilledBody (bodyText : Option String) (changed : Bool) : Option (List Char) :=
  let body := (bodyText.getD "").toList
  let cleaned := stripLegacyNote body
  if cleaned.isSome || changed then some (cleaned.getD body) else none

/-- A legacy note, alone or in its paragraph. -/
def legacyNote (wrapped : Bool) (rest : List Char) : List Char :=
  if wrapped then "<p>".toList ++ (legacyNotePrefix.toList ++ rest ++ "</p>".toList)
  else legacyNotePrefix.toList ++ rest

/-- Two texts that differ only in the line breaks at their ends. -/
def UpToBreaks (s t : List Char) : Prop := trimBreaks s = trimBreaks t

/-- The backfill keeps the text after the note: behind what is left of the body that ends with
the note. -/
def KeepsFollowing (before following rest : List Char) (changed : Bool) : Prop :=
  ∃ kept,
    (backfilledBody (some (String.ofList
      (before ++ legacyNotePrefix.toList ++ rest ++ following))) changed) =
        some (kept ++ following) ∧
    ∀ left, stripLegacyNote (before ++ legacyNotePrefix.toList ++ rest) = some left → left <+: kept

/-! ## What the cut leaves -/

section Leaves

variable {b sep head p : List Char} {c : Char} {q : Char → Bool}

/-- Trimming the end keeps what ends in a character that stays. -/
theorem prefix_rdropWhile (h : p ++ [c] <+: head) (hc : q c = false) :
    p ++ [c] <+: head.rdropWhile q := by
  obtain ⟨rest, rfl⟩ := h
  have hstay : (c :: p.reverse).dropWhile q = c :: p.reverse :=
    List.dropWhile_cons_of_neg (by rw [hc]; exact Bool.false_ne_true)
  have hrev : (p ++ [c] ++ rest).reverse = rest.reverse ++ c :: p.reverse := by simp
  have hsuffix : c :: p.reverse <:+ (rest.reverse ++ c :: p.reverse).dropWhile q := by
    rw [List.dropWhile_append, hstay]
    split
    · exact List.suffix_refl _
    · exact List.suffix_append _ _
  rw [List.rdropWhile, hrev]
  have h := List.reverse_prefix.2 hsuffix
  rwa [List.reverse_cons, List.reverse_reverse] at h

theorem trimBreaks_append (hsep : ∀ c ∈ sep, isBreak c = true) (b : List Char) :
    trimBreaks (b ++ sep) = trimBreaks b := by
  unfold trimBreaks List.rdropWhile
  rw [List.reverse_append, List.dropWhile_append_of_pos fun c hc =>
    hsep c (List.mem_reverse.1 hc)]

theorem isWhitespace_of_isBreak (h : isBreak c = true) : isWhitespace c = true := by
  rcases Bool.or_eq_true_iff.1 h with hc | hc
  · rw [eq_of_beq hc]; rfl
  · rw [eq_of_beq hc]; rfl

theorem trimEnd_append (hsep : ∀ c ∈ sep, isBreak c = true) (b : List Char) :
    trimEnd (b ++ sep) = trimEnd b := by
  unfold trimEnd List.rdropWhile
  rw [List.reverse_append, List.dropWhile_append_of_pos fun c hc =>
    isWhitespace_of_isBreak (hsep c (List.mem_reverse.1 hc))]

theorem isBreak_of_not_isWhitespace (h : isWhitespace c = false) : isBreak c = false := by
  by_contra hbreak
  rw [Bool.not_eq_false] at hbreak
  rw [isWhitespace_of_isBreak hbreak] at h
  exact nomatch h

/-- Trimming line breaks leaves at least what trimming white space leaves. -/
theorem trimEnd_prefix_trimBreaks (b : List Char) : trimEnd b <+: trimBreaks b := by
  by_cases hne : trimEnd b = []
  · rw [hne]
    exact List.nil_prefix
  · have hlast := List.dropLast_append_getLast hne
    have hc : isWhitespace ((trimEnd b).getLast hne) = false :=
      Bool.not_eq_true _ ▸ List.rdropWhile_last_not isWhitespace b hne
    have hbreak := isBreak_of_not_isWhitespace hc
    have hprefix : (trimEnd b).dropLast ++ [(trimEnd b).getLast hne] <+: trimBreaks b := by
      refine prefix_rdropWhile ?_ hbreak
      rw [hlast]
      exact List.rdropWhile_prefix _ _
    rwa [hlast] at hprefix

/-- The cut never reaches a character that is neither white space nor of the tag. -/
theorem prefix_leaves (h : p ++ [c] <+: head) (hspace : isWhitespace c = false)
    (htag : c ∉ "<p>".toList) : p ++ [c] <+: leaves head := by
  refine prefix_rdropWhile ?_ (isBreak_of_not_isWhitespace hspace)
  have htrim : p ++ [c] <+: trimEnd head := prefix_rdropWhile h hspace
  unfold stripSuffix
  split
  case isFalse => exact h
  case isTrue hsuffix =>
    obtain ⟨front, hfront⟩ := hsuffix
    have htake : (trimEnd head).take ((trimEnd head).length - "<p>".toList.length) = front := by
      rw [← hfront, List.length_append, Nat.add_sub_cancel, List.take_left]
    rw [Option.getD_some, htake]
    rw [← hfront] at htrim
    obtain ⟨rest, hrest⟩ := htrim
    rcases List.append_eq_append_iff.1 hrest with ⟨more, hin, -⟩ | ⟨more, hout, hmore⟩
    · exact ⟨more, hin.symm⟩
    · rcases List.eq_nil_or_concat more with rfl | ⟨init, d, rfl⟩
      · exact ⟨[], by rw [List.append_nil, hout, List.append_nil]⟩
      · -- the character would stand in the tag
        rw [List.concat_eq_append] at hout hmore
        rw [← List.append_assoc] at hout
        have hd : c = d := List.singleton_inj.1 (List.append_inj_right' hout rfl)
        refine absurd ?_ htag
        rw [hmore, hd]
        exact List.mem_append_left _ (List.mem_append_right _ (List.mem_singleton.2 rfl))

/-- Before a note that stands alone: the tag at the end of the body is taken for the note's. -/
theorem upToBreaks_leaves_iff (hsep : ∀ c ∈ sep, isBreak c = true) (b : List Char) :
    UpToBreaks (leaves (b ++ sep)) b ↔ ¬ "<p>".toList <:+ trimEnd b := by
  unfold UpToBreaks leaves stripSuffix
  rw [trimEnd_append hsep]
  split
  case isFalse hnot =>
    rw [Option.getD_none, trimBreaks_append hsep]
    exact iff_of_true (List.rdropWhile_idempotent _ _) hnot
  case isTrue hsuffix =>
    refine iff_of_false (fun heq => ?_) (not_not_intro hsuffix)
    -- what is left is shorter than the body without its white space
    have hcutAgain := List.rdropWhile_idempotent isBreak
      ((trimEnd b).take ((trimEnd b).length - "<p>".toList.length))
    have heq := hcutAgain.symm.trans heq
    have hcut := (List.rdropWhile_prefix isBreak
      ((trimEnd b).take ((trimEnd b).length - "<p>".toList.length))).length_le
    have hkept := (trimEnd_prefix_trimBreaks b).length_le
    have htag := hsuffix.length_le
    have hlen : "<p>".toList.length = 3 := rfl
    rw [heq, List.length_take] at hcut
    omega

/-- Before a note in its paragraph only the tag of the note goes. -/
theorem leaves_paragraph (hsep : ∀ c ∈ sep, isBreak c = true) (b : List Char) :
    leaves (b ++ sep ++ "<p>".toList) = trimBreaks b := by
  have hlast : (b ++ sep ++ "<p>".toList).getLast? = some '>' := by
    rw [List.getLast?_append_of_ne_nil _ (by decide)]
    rfl
  have htrim : trimEnd (b ++ sep ++ "<p>".toList) = b ++ sep ++ "<p>".toList :=
    rdropWhile_of_last hlast rfl
  unfold leaves stripSuffix
  rw [htrim, if_pos (List.suffix_append _ _), Option.getD_some, List.length_append,
    Nat.add_sub_cancel, List.take_left, trimBreaks_append hsep]

end Leaves

/-! ## Removing a note -/

section Removal

variable {head rest b sep : List Char}

/-- Where the note stands last, the text before it is what counts. -/
theorem stripLegacyNote_last (h : ¬ legacyNotePrefix.toList <:+: rest) (head : List Char) :
    stripLegacyNote (head ++ (legacyNotePrefix.toList ++ rest)) = some (leaves head) := by
  have hpos : rfindText legacyNotePrefix.toList (head ++ (legacyNotePrefix.toList ++ rest)) =
      some head.length :=
    @rfindText_here "This message has ".toList rest '[' (by decide) h head
  rw [stripLegacyNote, hpos, Option.map_some, List.take_left]

/-- A note that has its first words again is not removed as a whole. -/
theorem length_stripLegacyNote (h : legacyNotePrefix.toList <:+: rest) (head : List Char) :
    ∃ left, stripLegacyNote (head ++ (legacyNotePrefix.toList ++ rest)) = some left ∧
      trimBreaks left = left ∧ head.length < left.length := by
  obtain ⟨i, hi⟩ := Option.ne_none_iff_exists'.1 fun hnone => rfindText_eq_none_iff.1 hnone h
  have hpos := rfindText_append hi (head ++ legacyNotePrefix.toList)
  have htake : (head ++ legacyNotePrefix.toList ++ rest).take
      ((head ++ legacyNotePrefix.toList).length + i) =
        head ++ legacyNotePrefix.toList ++ rest.take i := List.take_length_add_append i
  refine ⟨leaves (head ++ legacyNotePrefix.toList ++ rest.take i), ?_,
    List.rdropWhile_idempotent _ _, ?_⟩
  · rw [stripLegacyNote, ← List.append_assoc, hpos, Option.map_some, htake]
  · have hwords : head ++ "[This message ha".toList ++ ['s'] <+:
        head ++ legacyNotePrefix.toList ++ rest.take i := by
      refine ⟨' ' :: rest.take i, ?_⟩
      rw [List.append_assoc, List.append_assoc, List.append_assoc]
      rfl
    have hkept := (prefix_leaves hwords rfl (by decide)).length_le
    rw [List.length_append, List.length_append, List.length_singleton] at hkept
    omega

/-- **When the note is removed as it should be**: nothing of the body goes but line breaks at
its end. -/
theorem removes_note_iff (hsep : ∀ c ∈ sep, isBreak c = true) (b rest : List Char)
    (wrapped : Bool) :
    (∃ left, stripLegacyNote (b ++ sep ++ legacyNote wrapped rest) = some left ∧
      UpToBreaks left b) ↔
    ¬ legacyNotePrefix.toList <:+: rest ∧ (wrapped = true ∨ ¬ "<p>".toList <:+ trimEnd b) := by
  -- the note again inside itself leaves too much
  have htoomuch : ∀ (head more : List Char), b.length ≤ head.length →
      legacyNotePrefix.toList <:+: more →
      ¬ ∃ left, stripLegacyNote (head ++ (legacyNotePrefix.toList ++ more)) = some left ∧
        UpToBreaks left b := by
    rintro head more hlen hin ⟨left, hleft, hsame⟩
    obtain ⟨left', hleft', htrimmed, hlong⟩ := length_stripLegacyNote hin head
    obtain rfl : left = left' := Option.some.inj (hleft.symm.trans hleft')
    have hshort := (List.rdropWhile_prefix isBreak b).length_le
    have heq : left = trimBreaks b := htrimmed.symm.trans hsame
    rw [heq, trimBreaks] at hlong
    omega
  have hlen : ∀ t : List Char, b.length ≤ (b ++ sep ++ t).length := fun t => by
    rw [List.length_append, List.length_append]
    omega
  cases wrapped with
  | true =>
    have hnote : b ++ sep ++ legacyNote true rest = b ++ sep ++ "<p>".toList ++
        (legacyNotePrefix.toList ++ (rest ++ "</p>".toList)) := by
      rw [legacyNote, if_pos rfl, List.append_assoc (b ++ sep), List.append_assoc _ rest]
    have hclose : legacyNotePrefix.toList <:+: rest ++ "</p>".toList ↔
        legacyNotePrefix.toList <:+: rest := by
      have hcut := @infix_cut Char '<' legacyNotePrefix.toList rest "/p>".toList (by decide)
      refine hcut.trans (or_iff_left fun hin => ?_)
      exact absurd hin.length_le (by decide)
    rw [hnote]
    by_cases hin : legacyNotePrefix.toList <:+: rest
    · exact iff_of_false (htoomuch _ _ (hlen _) (hclose.2 hin)) fun h => h.1 hin
    · rw [stripLegacyNote_last (mt hclose.1 hin), leaves_paragraph hsep]
      exact iff_of_true ⟨_, rfl, List.rdropWhile_idempotent _ _⟩ ⟨hin, Or.inl rfl⟩
  | false =>
    have hnote : b ++ sep ++ legacyNote false rest =
        b ++ sep ++ (legacyNotePrefix.toList ++ rest) := rfl
    rw [hnote]
    by_cases hin : legacyNotePrefix.toList <:+: rest
    · have hlong := hlen []
      rw [List.append_nil] at hlong
      exact iff_of_false (htoomuch _ _ hlong hin) fun h => h.1 hin
    · rw [stripLegacyNote_last hin]
      constructor
      · rintro ⟨left, hleft, hsame⟩
        obtain rfl := Option.some.inj hleft
        exact ⟨hin, Or.inr ((upToBreaks_leaves_iff hsep b).1 hsame)⟩
      · rintro ⟨-, hwrapped | htag⟩
        · exact nomatch hwrapped
        · exact ⟨_, rfl, (upToBreaks_leaves_iff hsep b).2 htag⟩

/-- **When the text after the note stays**: when there is none. -/
theorem keepsFollowing_iff {before following : List Char} {changed : Bool}
    (h : ¬ legacyNotePrefix.toList <:+: rest ++ following) :
    KeepsFollowing before following rest changed ↔ following = [] := by
  have hrest : ¬ legacyNotePrefix.toList <:+: rest := fun hin =>
    h (hin.trans (List.prefix_append _ _).isInfix)
  have hbare : stripLegacyNote (before ++ legacyNotePrefix.toList ++ rest) =
      some (leaves before) := by
    rw [List.append_assoc]
    exact stripLegacyNote_last hrest before
  have hwhole : backfilledBody (some (String.ofList
      (before ++ legacyNotePrefix.toList ++ rest ++ following))) changed =
        some (leaves before) := by
    have hstrip := stripLegacyNote_last h before
    unfold backfilledBody
    dsimp only
    rw [Option.getD_some, String.toList_ofList, List.append_assoc, List.append_assoc, hstrip]
    rfl
  unfold KeepsFollowing
  rw [hbare, hwhole]
  constructor
  · rintro ⟨kept, hkept, hleft⟩
    have hlen := (hleft _ rfl).length_le
    rw [Option.some.inj hkept, List.length_append] at hlen
    exact List.eq_nil_of_length_eq_zero (by omega)
  · rintro rfl
    exact ⟨leaves before, by rw [List.append_nil], fun left hleft =>
      Option.some.inj hleft ▸ List.prefix_refl _⟩

/-- **Removing a legacy note.** The body before it keeps its text exactly when the note has its
first words once and does not follow a `<p>` of the body; text after the note is never kept. -/
theorem legacy_note_removal (hsep : ∀ c ∈ sep, isBreak c = true) (b rest : List Char)
    (wrapped : Bool) :
    ((∃ left, stripLegacyNote (b ++ sep ++ legacyNote wrapped rest) = some left ∧
        UpToBreaks left b) ↔
      ¬ legacyNotePrefix.toList <:+: rest ∧ (wrapped = true ∨ ¬ "<p>".toList <:+ trimEnd b)) ∧
    ∀ (before rest following : List Char) (changed : Bool),
      ¬ legacyNotePrefix.toList <:+: rest ++ following →
        (KeepsFollowing before following rest changed ↔ following = []) :=
  ⟨removes_note_iff hsep b rest wrapped, fun _ _ _ _ h => keepsFollowing_iff h⟩

theorem legacy_note_removal_plain :
    ((∃ left, stripLegacyNote ("Hi".toList ++ "\r\n".toList ++
        legacyNote true "1 attachment.]".toList) = some left ∧ UpToBreaks left "Hi".toList) ↔
      ¬ legacyNotePrefix.toList <:+: "1 attachment.]".toList ∧
        (true = true ∨ ¬ "<p>".toList <:+ trimEnd "Hi".toList)) ∧
    ∀ (before rest following : List Char) (changed : Bool),
      ¬ legacyNotePrefix.toList <:+: rest ++ following →
        (KeepsFollowing before following rest changed ↔ following = []) :=
  @legacy_note_removal "\r\n".toList (List.all_eq_true.1 (by rfl)) "Hi".toList
    "1 attachment.]".toList true

/-- A body that ends with the name of a tag loses it, and a reply below a quoted note is lost. -/
theorem note_removal_loses_text :
    (∃ left, stripLegacyNote ("Start with <p>".toList ++ "\r\n\r\n".toList ++
      legacyNote false "1 attachment.]".toList) = some left ∧
        ¬ UpToBreaks left "Start with <p>".toList) ∧
    backfilledBody (some "> [This message has 1 attachment.]\nThanks") false =
      some "> ".toList := by
  have hshort : trimBreaks "Start with ".toList ≠ trimBreaks "Start with <p>".toList := by
    decide
  exact ⟨⟨"Start with ".toList, rfl, hshort⟩, rfl⟩

end Removal

end AsterBridge.Render.LegacyNote
