import Mathlib.Data.List.Basic
import Mathlib.Tactic

/-!
# Streams that arrive in pieces

A reader gets a stream in pieces of any size, and takes from it line by line. A line ends
with a separator, which belongs to it; only the last line may be without one.
-/

set_option autoImplicit false

namespace AsterBridge.Lib.Pieces

variable {α : Type}

/-! ## Pieces -/

/-- What one fill of a buffer gives: at least one element. -/
abbrev Piece (α : Type) := { piece : List α // piece ≠ [] }

/-- The stream that pieces make. -/
def whole (pieces : List (Piece α)) : List α := pieces.flatMap Subtype.val

/-- The rest of a piece goes back before the later ones. -/
def unread (left : List α) (later : List (Piece α)) : List (Piece α) :=
  if h : left = [] then later else ⟨left, h⟩ :: later

@[simp] theorem whole_nil : whole ([] : List (Piece α)) = [] := rfl

@[simp] theorem whole_cons (piece : Piece α) (later : List (Piece α)) :
    whole (piece :: later) = piece.val ++ whole later := rfl

@[simp] theorem whole_unread (left : List α) (later : List (Piece α)) :
    whole (unread left later) = left ++ whole later := by
  unfold unread
  split
  case isTrue hleft => rw [hleft, List.nil_append]
  case isFalse => rfl

/-! ## Lines -/

section Lines

variable [DecidableEq α] {sep : α} {line xs : List α}

/-- The first line of a stream, with its separator. -/
def firstLine (sep : α) : List α → List α
  | [] => []
  | a :: rest => if a = sep then [a] else a :: firstLine sep rest

/-- The lines of a stream. -/
def linesOf (sep : α) : List α → List (List α)
  | [] => []
  | a :: rest =>
      if a = sep then [a] :: linesOf sep rest
      else
        match linesOf sep rest with
        | [] => [[a]]
        | line :: lines => (a :: line) :: lines

theorem firstLine_cons (sep a : α) (rest : List α) :
    firstLine sep (a :: rest) = if a = sep then [a] else a :: firstLine sep rest := rfl

theorem firstLine_append_of_notMem (h : sep ∉ line) (rest : List α) :
    firstLine sep (line ++ rest) = line ++ firstLine sep rest := by
  induction line with
  | nil => rfl
  | cons a line ih =>
      have ha : a ≠ sep := fun heq => h (heq ▸ List.mem_cons_self)
      rw [List.cons_append, firstLine_cons, if_neg ha, ih fun hmem => h (List.mem_cons_of_mem _ hmem),
        List.cons_append]

theorem firstLine_sep (rest : List α) : firstLine sep (sep :: rest) = [sep] := by
  rw [firstLine_cons, if_pos rfl]

theorem firstLine_append_of_mem (h : sep ∈ line) (rest : List α) :
    firstLine sep (line ++ rest) = firstLine sep line := by
  induction line with
  | nil => exact absurd h List.not_mem_nil
  | cons a line ih =>
      rw [List.cons_append, firstLine_cons, firstLine_cons]
      by_cases ha : a = sep
      · rw [if_pos ha, if_pos ha]
      · have hline : sep ∈ line := (List.mem_cons.1 h).resolve_left (Ne.symm ha)
        rw [if_neg ha, if_neg ha, ih hline]

theorem firstLine_ne_nil (h : xs ≠ []) : firstLine sep xs ≠ [] := by
  cases xs with
  | nil => exact absurd rfl h
  | cons a rest =>
      rw [firstLine_cons]
      split <;> exact List.cons_ne_nil _ _

theorem firstLine_append_drop (sep : α) (xs : List α) :
    firstLine sep xs ++ xs.drop (firstLine sep xs).length = xs := by
  induction xs with
  | nil => rfl
  | cons a rest ih =>
      rw [firstLine_cons]
      split
      case isTrue => rfl
      case isFalse => rw [List.length_cons, List.drop_succ_cons, List.cons_append, ih]

theorem take_firstLine (sep : α) (xs : List α) : xs.take (firstLine sep xs).length = firstLine sep xs := by
  have hsplit := @List.take_left α (firstLine sep xs) (xs.drop (firstLine sep xs).length)
  rwa [firstLine_append_drop] at hsplit

theorem length_firstLine_le (sep : α) (xs : List α) : (firstLine sep xs).length ≤ xs.length := by
  rw [← take_firstLine sep xs]
  exact List.length_take_le' _ _

/-- A stream that is not over is its first line and the lines of what follows. -/
theorem linesOf_eq (h : xs ≠ []) :
    linesOf sep xs = firstLine sep xs :: linesOf sep (xs.drop (firstLine sep xs).length) := by
  induction xs with
  | nil => exact absurd rfl h
  | cons a rest ih =>
      rw [linesOf, firstLine_cons]
      by_cases ha : a = sep
      · rw [if_pos ha, if_pos ha]
        rfl
      · rw [if_neg ha, if_neg ha, List.length_cons, List.drop_succ_cons]
        cases rest with
        | nil => rfl
        | cons b rest => rw [ih (List.cons_ne_nil _ _)]

theorem linesOf_append (h : sep ∉ line) (rest : List α) :
    linesOf sep (line ++ [sep] ++ rest) = (line ++ [sep]) :: linesOf sep rest := by
  have hfirst : firstLine sep (line ++ [sep] ++ rest) = line ++ [sep] := by
    rw [List.append_assoc, firstLine_append_of_notMem h, List.cons_append, firstLine_sep]
  have hne : line ++ [sep] ++ rest ≠ [] := by simp
  rw [linesOf_eq hne, hfirst, List.drop_left]

/-- Lines that were sent one after the other are the lines that arrive. -/
theorem linesOf_flatMap {lines : List (List α)} (h : ∀ line ∈ lines, sep ∉ line) (rest : List α) :
    linesOf sep (lines.flatMap (· ++ [sep]) ++ rest) =
      lines.map (· ++ [sep]) ++ linesOf sep rest := by
  induction lines with
  | nil => rfl
  | cons line lines ih =>
      rw [List.flatMap_cons, List.append_assoc, linesOf_append (h line List.mem_cons_self),
        ih fun l hl => h l (List.mem_cons_of_mem _ hl), List.map_cons, List.cons_append]

/-- A line of a stream has its separator at the end only, and the last line may lack it. -/
theorem shape_firstLine (sep : α) (xs : List α) :
    ∃ line, sep ∉ line ∧ (firstLine sep xs = line ∨ firstLine sep xs = line ++ [sep]) := by
  induction xs with
  | nil => exact ⟨[], List.not_mem_nil, .inl rfl⟩
  | cons a rest ih =>
      rw [firstLine_cons]
      by_cases ha : a = sep
      · rw [if_pos ha, ha]
        exact ⟨[], List.not_mem_nil, .inr rfl⟩
      · obtain ⟨line, hmem, hline⟩ := ih
        rw [if_neg ha]
        refine ⟨a :: line, ?_, hline.imp (congrArg (a :: ·)) (congrArg (a :: ·))⟩
        exact fun h => (List.mem_cons.1 h).elim (fun heq => ha heq.symm) hmem

/-- Where a search for the separator stops is where the first line does. -/
theorem take_of_findIdx? {i : ℕ} (h : xs.findIdx? (· == sep) = some i) :
    sep ∈ xs ∧ i + 1 = (firstLine sep xs).length := by
  induction xs generalizing i with
  | nil => exact absurd h (by simp)
  | cons a rest ih =>
      rw [List.findIdx?_cons] at h
      rw [firstLine_cons]
      by_cases ha : a = sep
      · rw [if_pos (beq_iff_eq.2 ha)] at h
        obtain rfl := Option.some.inj h
        rw [if_pos ha, ha]
        exact ⟨List.mem_cons_self, rfl⟩
      · rw [if_neg (mt beq_iff_eq.1 ha)] at h
        obtain ⟨j, hj, rfl⟩ := Option.map_eq_some_iff.1 h
        obtain ⟨hmem, hlen⟩ := ih hj
        rw [if_neg ha, List.length_cons, hlen]
        exact ⟨List.mem_cons_of_mem _ hmem, rfl⟩

theorem notMem_of_findIdx? (h : xs.findIdx? (· == sep) = none) : sep ∉ xs := by
  intro hmem
  have hnone := List.findIdx?_eq_none_iff.1 h sep hmem
  exact absurd (beq_self_eq_true sep) (by rw [hnone]; exact Bool.false_ne_true)

end Lines

end AsterBridge.Lib.Pieces
