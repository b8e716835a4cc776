import AsterBridge.Lib.Text

/-!
# Words and substrings

`str::split_whitespace`, and `str::contains` as the infix relation: a substring without the
character `d` cannot lie across one (`infix_cut`).
-/

set_option autoImplicit false

namespace AsterBridge.Lib.Text

/-! ## Words -/

/-- The word that ends here. -/
def lastWord (current : List Char) : List (List Char) := if current = [] then [] else [current]

/-- The loop of `split_whitespace`, with the word it is in. -/
def wordsFrom (current : List Char) : List Char → List (List Char)
  | [] => lastWord current
  | c :: cs =>
      if isWhitespace c then lastWord current ++ wordsFrom [] cs
      else wordsFrom (current ++ [c]) cs

/-- `str::split_whitespace` -/
def splitWhitespace (s : List Char) : List (List Char) := wordsFrom [] s

/-- A word: some characters, and no blank among them. -/
def IsWord (w : List Char) : Prop := w ≠ [] ∧ ∀ c ∈ w, isWhitespace c = false

section Words

variable {w current : List Char}

theorem wordsFrom_append (h : ∀ c ∈ w, isWhitespace c = false) (rest : List Char) :
    wordsFrom current (w ++ rest) = wordsFrom (current ++ w) rest := by
  induction w generalizing current with
  | nil => rw [List.nil_append, List.append_nil]
  | cons c w ih =>
      have hc := h c List.mem_cons_self
      rw [List.cons_append, wordsFrom, if_neg (by rw [hc]; decide),
        ih fun d hd => h d (List.mem_cons_of_mem _ hd), List.append_assoc, List.singleton_append]

/-- Words joined by blanks are split again. -/
theorem splitWhitespace_intercalate {words : List (List Char)} (h : ∀ w ∈ words, IsWord w) :
    splitWhitespace ([' '].intercalate words) = words := by
  unfold splitWhitespace
  induction words with
  | nil => rfl
  | cons w words ih =>
      obtain ⟨hne, hplain⟩ := h w List.mem_cons_self
      have hrest := ih fun v hv => h v (List.mem_cons_of_mem _ hv)
      cases words with
      | nil =>
          have hw : wordsFrom [] (w ++ []) = wordsFrom ([] ++ w) [] := wordsFrom_append hplain []
          rw [List.append_nil, List.nil_append] at hw
          rw [List.intercalate_singleton, hw, wordsFrom, lastWord, if_neg hne]
      | cons v words =>
          rw [List.intercalate_cons_cons, List.append_assoc, wordsFrom_append hplain,
            List.singleton_append, wordsFrom, if_pos (by decide), hrest, List.nil_append, lastWord,
            if_neg hne]
          rfl

end Words

/-! ## Substrings -/

section Substrings

variable {α : Type} {d : α} {needle xs ys : List α}

/-- `contains` is the infix relation. -/
theorem contains_iff [BEq α] [LawfulBEq α] (text needle : List α) :
    contains text needle = true ↔ needle <:+: text := by
  unfold contains
  induction text with
  | nil =>
      rw [find]
      cases needle with
      | nil => simp
      | cons x needle => simp
  | cons x xs ih =>
      rw [find, List.infix_cons_iff, ← ih]
      split
      · rename_i hp
        exact iff_of_true rfl (Or.inl (List.isPrefixOf_iff_prefix.1 hp))
      · rename_i hp
        rw [Option.isSome_map]
        exact ⟨Or.inr, fun h => h.resolve_left fun hpre => hp (List.isPrefixOf_iff_prefix.2 hpre)⟩

/-- A substring lies on one side of a character that it does not have. -/
theorem infix_cut (h : d ∉ needle) :
    needle <:+: xs ++ d :: ys ↔ needle <:+: xs ∨ needle <:+: ys := by
  constructor
  · rintro ⟨s, t, heq⟩
    rcases List.append_eq_append_iff.1 heq with ⟨a, hxs, -⟩ | ⟨a, hleft, hright⟩
    · -- it ends before the character
      exact Or.inl ⟨s, a, hxs.symm⟩
    · cases a with
      | nil =>
          rw [List.append_nil] at hleft
          exact Or.inl ⟨s, [], by rw [List.append_nil, hleft]⟩
      | cons e a =>
          obtain ⟨rfl, hys⟩ := List.cons.inj hright
          rcases List.append_eq_append_iff.1 hleft with ⟨b, -, hneedle⟩ | ⟨b, hs, hneedle⟩
          · exact absurd (by rw [hneedle]; simp) h
          · cases b with
            | nil =>
                rw [List.nil_append] at hneedle
                exact absurd (hneedle ▸ List.mem_cons_self) h
            | cons e' b =>
                obtain ⟨-, ha⟩ := List.cons.inj hneedle
                exact Or.inr ⟨b, t, by rw [hys, ha]; rfl⟩
  · rintro (⟨s, t, rfl⟩ | ⟨s, t, rfl⟩)
    · exact ⟨s, t ++ d :: ys, by simp⟩
    · exact ⟨xs ++ d :: s, t, by simp⟩

/-- A substring without the separator is in one of the joined texts. -/
theorem infix_intercalate {sep : α} (h : sep ∉ needle) (hne : needle ≠ []) (ls : List (List α)) :
    needle <:+: [sep].intercalate ls ↔ ∃ l ∈ ls, needle <:+: l := by
  induction ls with
  | nil => simp [hne]
  | cons l ls ih =>
      cases ls with
      | nil => simp
      | cons l' ls =>
          rw [List.intercalate_cons_cons, List.append_assoc, List.singleton_append, infix_cut h, ih]
          simp

end Substrings

end AsterBridge.Lib.Text
