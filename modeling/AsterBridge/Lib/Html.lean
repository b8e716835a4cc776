import Mathlib.Tactic

/-!
# Escaped text with highlights

HTML text whose only tags are pairs of `<mark>` and `</mark>`, never one inside another, and
whose only entities are those of the four special characters. `read` gives the characters that
such a text shows, each with a flag that tells whether it is marked; it refuses other texts.
-/

set_option autoImplicit false

namespace AsterBridge.Lib.Html

/-- The entity of a special character. -/
def escapeChar (c : Char) : List Char :=
  if c = '&' then "&amp;".toList
  else if c = '<' then "&lt;".toList
  else if c = '>' then "&gt;".toList
  else if c = '"' then "&quot;".toList
  else [c]

/-- A text with its special characters escaped. -/
def escape (s : List Char) : List Char := s.flatMap escapeChar

/-- The characters that a text shows, inside or outside a mark. -/
def readFrom (marked : Bool) : List Char → Option (List (Bool × Char))
  | [] => if marked then none else some []
  | '<' :: 'm' :: 'a' :: 'r' :: 'k' :: '>' :: rest =>
      if marked then none else readFrom true rest
  | '<' :: '/' :: 'm' :: 'a' :: 'r' :: 'k' :: '>' :: rest =>
      if marked then readFrom false rest else none
  | '&' :: 'a' :: 'm' :: 'p' :: ';' :: rest => (readFrom marked rest).map ((marked, '&') :: ·)
  | '&' :: 'l' :: 't' :: ';' :: rest => (readFrom marked rest).map ((marked, '<') :: ·)
  | '&' :: 'g' :: 't' :: ';' :: rest => (readFrom marked rest).map ((marked, '>') :: ·)
  | '&' :: 'q' :: 'u' :: 'o' :: 't' :: ';' :: rest =>
      (readFrom marked rest).map ((marked, '"') :: ·)
  | c :: rest =>
      if c = '<' ∨ c = '>' ∨ c = '&' then none
      else (readFrom marked rest).map ((marked, c) :: ·)

/-- The characters that a whole text shows. -/
def read (s : List Char) : Option (List (Bool × Char)) := readFrom false s

/-- Characters with one flag. -/
def flagged (marked : Bool) (s : List Char) : List (Bool × Char) := s.map (marked, ·)

@[simp] theorem flagged_nil (marked : Bool) : flagged marked [] = [] := rfl

@[simp] theorem flagged_cons (marked : Bool) (c : Char) (s : List Char) :
    flagged marked (c :: s) = (marked, c) :: flagged marked s := rfl

@[simp] theorem map_snd_flagged (marked : Bool) (s : List Char) :
    (flagged marked s).map Prod.snd = s := by
  simp [flagged, Function.comp_def]

section Read

variable {marked : Bool} {c : Char} {s rest : List Char}

/-- A character that is neither `<`, `>` nor `&` shows itself. -/
theorem readFrom_cons (h : c ≠ '<' ∧ c ≠ '>' ∧ c ≠ '&') :
    readFrom marked (c :: rest) = (readFrom marked rest).map ((marked, c) :: ·) := by
  obtain ⟨hlt, hgt, hamp⟩ := h
  rw [readFrom.eq_def]
  split
  case h_8 d _ _ _ _ _ _ _ heq =>
    obtain ⟨rfl, rfl⟩ := List.cons.inj heq
    rw [if_neg (by simp [hlt, hgt, hamp])]
  all_goals
    rename_i heq
    first
    | exact absurd heq (List.cons_ne_nil _ _)
    | exact absurd (List.cons.inj heq).1 hlt
    | exact absurd (List.cons.inj heq).1 hamp

theorem readFrom_escapeChar (c : Char) (rest : List Char) :
    readFrom marked (escapeChar c ++ rest) = (readFrom marked rest).map ((marked, c) :: ·) := by
  unfold escapeChar
  split
  case isTrue h => rw [h]; rfl
  case isFalse hamp =>
  split
  case isTrue h => rw [h]; rfl
  case isFalse hlt =>
  split
  case isTrue h => rw [h]; rfl
  case isFalse hgt =>
  split
  case isTrue h => rw [h]; rfl
  case isFalse => exact readFrom_cons ⟨hlt, hgt, hamp⟩

/-- An escaped text shows what was escaped. -/
theorem readFrom_escape (s rest : List Char) :
    readFrom marked (escape s ++ rest) = (readFrom marked rest).map (flagged marked s ++ ·) := by
  induction s with
  | nil => simp [escape]
  | cons c s ih =>
    rw [escape, List.flatMap_cons, List.append_assoc, readFrom_escapeChar, ← escape, ih,
      Option.map_map]
    rfl

theorem readFrom_open (rest : List Char) :
    readFrom false ("<mark>".toList ++ rest) = readFrom true rest := rfl

theorem readFrom_close (rest : List Char) :
    readFrom true ("</mark>".toList ++ rest) = readFrom false rest := rfl

theorem read_escape (s : List Char) : read (escape s) = some (flagged false s) := by
  have h := @readFrom_escape false s []
  rw [List.append_nil] at h
  rw [read, h, readFrom]
  simp

/-- A highlight between two texts. -/
theorem readFrom_mark (s rest : List Char) :
    readFrom false ("<mark>".toList ++ (escape s ++ ("</mark>".toList ++ rest))) =
      (readFrom false rest).map (flagged true s ++ ·) := by
  rw [readFrom_open, readFrom_escape, readFrom_close]

/-- A text without the three characters shows itself. -/
theorem read_plain (h : ∀ c ∈ s, c ≠ '<' ∧ c ≠ '>' ∧ c ≠ '&') :
    read s = some (flagged false s) := by
  unfold read
  induction s with
  | nil => rfl
  | cons c s ih =>
    rw [readFrom_cons (h c List.mem_cons_self), ih fun d hd => h d (List.mem_cons_of_mem _ hd)]
    rfl

end Read

end AsterBridge.Lib.Html
