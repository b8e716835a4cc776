import AsterBridge.Lib.Splits
import AsterBridge.Lib.Unicode

/-!
# Patterns of LIST

`imap_glob_match` of `imap/server.rs` compares a mailbox name with a pattern of LIST by a table: a
row for each rest of the pattern, from its end, with a cell for each rest of the name. The meaning
of a pattern is the pieces that its characters take from the name, `Takes`; a cell of the table says
whether the rest of the name splits into such pieces (`globRow_eq`).
-/

set_option autoImplicit false

namespace AsterBridge.Imap.ListPatterns

open AsterBridge.Lib

/-! ## The table -/

/-- The cells of a row, from the last one: `below` is the row of the rest of the pattern. -/
def globRow (c : Char) : List Char → List Bool → List Bool
  | x :: name, cell :: below =>
      let row := globRow c name below
      let next := row.headD false
      let diagonal := below.headD false
      (if c = '*' then cell || next
        else if c = '%' then cell || (x != '/' && next)
        else x == c && diagonal) :: row
  | [], cell :: _ => [if c = '*' ∨ c = '%' then cell else false]
  | _, [] => []

/-- The row after the end of the pattern. -/
def lastRow (name : List Char) : List Bool := name.map (fun _ => false) ++ [true]

/-- The rows of `matches`, down to the first. -/
def globTable (pattern name : List Char) : List Bool :=
  pattern.foldr (fun c below => globRow c name below) (lastRow name)

/-- `imap_glob_match` -/
def imapGlobMatch (pattern name : List Char) : Bool :=
  (globTable (pattern.map Char.toUpper) (name.map Char.toUpper)).headD false

/-! ## What a row says -/

/-- The pieces of a name that a character of a pattern takes. -/
def Takes (c : Char) (piece : List Char) : Prop :=
  if c = '*' then True
  else if c = '%' then '/' ∉ piece
  else ∃ x, piece = [x] ∧ x.toUpper = c.toUpper

/-- The same for upper-cased text. -/
def TakesUpper (c : Char) (piece : List Char) : Prop :=
  if c = '*' then True else if c = '%' then '/' ∉ piece else ∃ x, piece = [x] ∧ x = c

/-- A row says of each rest of a name whether it has the property. -/
inductive Row (Q : List Char → Prop) : List Char → List Bool → Prop where
  | nil {cell : Bool} (h : cell = true ↔ Q []) : Row Q [] [cell]
  | cons {x : Char} {name : List Char} {cell : Bool} {row : List Bool}
      (h : cell = true ↔ Q (x :: name)) (hrow : Row Q name row) : Row Q (x :: name) (cell :: row)

section Rows

variable {Q R : List Char → Prop} {name : List Char} {row : List Bool} {c : Char}

theorem Row.headD (h : Row Q name row) : row.headD false = true ↔ Q name := by
  cases h with
  | nil h => exact h
  | cons h _ => exact h

theorem row_lastRow (name : List Char) : Row (· = []) name (lastRow name) := by
  induction name with
  | nil => exact .nil (by simp)
  | cons x name ih => exact .cons (by simp) ih

/-- A star takes nothing, or the next character and then more. -/
theorem Row.star (h : Row Q name row)
    (hstar : ∀ s, R s ↔ Q s ∨ ∃ x rest, s = x :: rest ∧ R rest) :
    Row R name (globRow '*' name row) := by
  induction h with
  | nil h =>
      refine .nil ?_
      rw [if_pos (.inl rfl), h, hstar []]
      simp
  | cons h _ ih =>
      refine .cons ?_ ih
      rw [if_pos rfl, Bool.or_eq_true, h, ih.headD, hstar (_ :: _)]
      simp

/-- A percent sign does not take a slash. -/
theorem Row.percent (h : Row Q name row)
    (hpercent : ∀ s, R s ↔ Q s ∨ ∃ x rest, s = x :: rest ∧ x ≠ '/' ∧ R rest) :
    Row R name (globRow '%' name row) := by
  induction h with
  | nil h =>
      refine .nil ?_
      rw [if_pos (.inr rfl), h, hpercent []]
      simp
  | cons h _ ih =>
      refine .cons ?_ ih
      rw [if_neg (by decide), if_pos rfl, Bool.or_eq_true, Bool.and_eq_true, h, ih.headD,
        hpercent (_ :: _)]
      simp

/-- Another character takes itself. -/
theorem Row.char (h : Row Q name row) (hstar : c ≠ '*') (hpercent : c ≠ '%')
    (hchar : ∀ s, R s ↔ ∃ x rest, s = x :: rest ∧ x = c ∧ Q rest) :
    Row R name (globRow c name row) := by
  induction h with
  | nil h =>
      refine .nil ?_
      rw [if_neg (by simp [hstar, hpercent]), hchar []]
      simp
  | cons h hrow ih =>
      refine .cons ?_ ih
      rw [if_neg hstar, if_neg hpercent, Bool.and_eq_true, hrow.headD, hchar (_ :: _)]
      simp

/-- A row from the row below, for the pieces of upper-cased text. -/
theorem row_globRow {c : Char} {pattern name : List Char} {row : List Bool}
    (h : Row (Splits TakesUpper pattern) name row) :
    Row (Splits TakesUpper (c :: pattern)) name (globRow c name row) := by
  by_cases hstar : c = '*'
  · subst hstar
    refine h.star fun s => ?_
    have hany := @splits_many Char Char TakesUpper '*' pattern s (fun _ => True) (by simp [TakesUpper])
    simpa using hany
  · by_cases hpercent : c = '%'
    · subst hpercent
      refine h.percent fun s => splits_many fun piece => ?_
      have hslash : '/' ∉ piece ↔ ∀ b ∈ piece, b ≠ '/' := by grind
      simpa [TakesUpper] using hslash
    · refine h.char hstar hpercent fun s => splits_one fun piece => ?_
      simp [TakesUpper, hstar, hpercent]

/-- The first row of the table, for a rest of the pattern. -/
theorem row_globTable (pattern name : List Char) :
    Row (Splits TakesUpper pattern) name (globTable pattern name) := by
  induction pattern with
  | nil =>
      have hlast := row_lastRow name
      have heq : (Splits TakesUpper [] : List Char → Prop) = (· = []) :=
        funext fun s => propext splits_nil
      rw [heq]
      exact hlast
  | cons c pattern ih => exact row_globRow ih

end Rows

/-! ## Patterns and names -/

/-- No letter becomes a wildcard or a slash. -/
theorem toUpper_eq_iff {c d : Char} (hd : d = '*' ∨ d = '%' ∨ d = '/') : c.toUpper = d ↔ c = d := by
  by_cases hc : c.toNat < 0x80
  · have htable : ∀ n : Fin 0x80, ∀ d, d = '*' ∨ d = '%' ∨ d = '/' →
        ((Char.ofNat n).toUpper = d ↔ Char.ofNat n = d) := by
      rintro n d (rfl | rfl | rfl)
      · revert n
        decide +kernel
      · revert n
        decide +kernel
      · revert n
        decide +kernel
    exact Unicode.ascii_forall (P := fun c => ∀ d, d = '*' ∨ d = '%' ∨ d = '/' →
      (c.toUpper = d ↔ c = d)) htable hc d hd
  · rw [Unicode.toUpper_of_not_ascii (Nat.not_lt.1 hc)]

/-- The upper case of a piece is taken like the piece. -/
theorem takesUpper_iff (c : Char) (piece : List Char) :
    TakesUpper c.toUpper (piece.map Char.toUpper) ↔ Takes c piece := by
  unfold TakesUpper Takes
  simp only [toUpper_eq_iff (.inl rfl), toUpper_eq_iff (.inr (.inl rfl))]
  by_cases hstar : c = '*'
  · simp [hstar]
  · by_cases hpercent : c = '%'
    · simp only [if_neg hstar, if_pos hpercent]
      have hslash : '/' ∈ piece.map Char.toUpper ↔ '/' ∈ piece := by
        simp only [List.mem_map, toUpper_eq_iff (.inr (.inr rfl)), exists_eq_right]
      rw [hslash]
    · simp only [if_neg hstar, if_neg hpercent]
      cases piece with
      | nil => simp
      | cons x rest => cases rest <;> simp

/-- **A name matches a pattern exactly when it splits into pieces that the characters of the
pattern take**: a star any piece, a percent sign any piece without a slash, and another character
itself, in either ASCII case. -/
theorem imapGlobMatch_iff (pattern name : List Char) :
    imapGlobMatch pattern name = true ↔
      ∃ pieces : List (List Char), pieces.flatten = name ∧ List.Forall₂ Takes pattern pieces := by
  rw [imapGlobMatch, (row_globTable _ _).headD, splits_map takesUpper_iff, splits_iff]

example : imapGlobMatch "Work/%".toList "work/Reports".toList = true := by decide

end AsterBridge.Imap.ListPatterns
