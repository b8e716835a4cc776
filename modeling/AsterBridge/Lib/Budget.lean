import Mathlib.Data.List.Infix
import Mathlib.Tactic

/-!
# Greedy prefixes under a budget

A loop that takes elements from the front until the next one does not fit takes the longest
prefix that fits: whatever fits is a prefix of what it took.
-/

set_option autoImplicit false

namespace AsterBridge.Lib.Budget

variable {α : Type} (cost : α → Nat)

/-- The price of a list. -/
def total (xs : List α) : Nat := (xs.map cost).sum

/-- What fits, taken from the front. -/
def within : Nat → List α → List α
  | _, [] => []
  | budget, x :: xs =>
      if cost x ≤ budget then x :: within (budget - cost x) xs else []

theorem within_cons (budget : Nat) (x : α) (xs : List α) :
    within cost budget (x :: xs) =
      if cost x ≤ budget then x :: within cost (budget - cost x) xs else [] := rfl

@[simp] theorem total_nil : total cost [] = 0 := rfl

@[simp] theorem total_cons (x : α) (xs : List α) :
    total cost (x :: xs) = cost x + total cost xs := by
  simp [total]

@[simp] theorem total_append (xs ys : List α) :
    total cost (xs ++ ys) = total cost xs + total cost ys := by
  simp [total]

@[simp] theorem total_reverse (xs : List α) : total cost xs.reverse = total cost xs := by
  simp [total, List.sum_reverse]

theorem within_isPrefix (budget : Nat) (xs : List α) : within cost budget xs <+: xs := by
  induction xs generalizing budget with
  | nil => exact List.prefix_refl _
  | cons x xs ih =>
    simp only [within_cons]
    split
    · exact List.prefix_cons_inj x |>.2 (ih _)
    · exact List.nil_prefix

theorem total_within (budget : Nat) (xs : List α) :
    total cost (within cost budget xs) ≤ budget := by
  induction xs generalizing budget with
  | nil => exact Nat.zero_le _
  | cons x xs ih =>
    simp only [within_cons]
    split
    case isTrue hfits =>
      have hrest := ih (budget - cost x)
      rw [total_cons]
      omega
    case isFalse => exact Nat.zero_le _

/-- No prefix that fits is longer than the one that is taken. -/
theorem isPrefix_within {budget : Nat} {xs ys : List α} (hfront : ys <+: xs)
    (hfits : total cost ys ≤ budget) : ys <+: within cost budget xs := by
  induction xs generalizing budget ys with
  | nil => rw [List.prefix_nil.1 hfront]; exact List.nil_prefix
  | cons x xs ih =>
    cases ys with
    | nil => exact List.nil_prefix
    | cons y ys =>
      obtain ⟨rfl, hrest⟩ := List.cons_prefix_cons.1 hfront
      rw [total_cons] at hfits
      have hfirst : cost y ≤ budget := by omega
      simp only [within_cons, if_pos hfirst]
      exact List.prefix_cons_inj y |>.2 (ih hrest (by omega))

/-- Nothing is taken exactly when there is nothing or the first element does not fit. -/
theorem within_eq_nil_iff (budget : Nat) (xs : List α) :
    within cost budget xs = [] ↔ xs = [] ∨ ∃ x, xs.head? = some x ∧ budget < cost x := by
  cases xs with
  | nil => simp [within]
  | cons x xs =>
    simp only [within_cons]
    split <;> simp <;> omega

end AsterBridge.Lib.Budget
