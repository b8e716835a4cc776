import Mathlib.Data.List.Perm.Subperm
import Mathlib.Logic.Relation
import Mathlib.Tactic.Common

/-!
# Parents without cycles

A relation between children and parents is acyclic when nothing stands above itself. To give one
element other parents closes no cycle if none of them stands below it (`Acyclic.rewire`). A walk
up the parents that remembers where it was finds every element above its start
(`meets_of_reaches`).
-/

set_option autoImplicit false

namespace AsterBridge.Lib.Ancestry

open Relation

universe u

variable {α : Type u} {R : α → α → Prop} {P : α → Prop} {t : α}

/-- Nothing stands above itself. -/
def Acyclic (R : α → α → Prop) : Prop := ∀ a, ¬TransGen R a a

/-- The element `t` gets the parents `P`. -/
def Rewired (R : α → α → Prop) (t : α) (P : α → Prop) (a b : α) : Prop :=
  (a ≠ t ∧ R a b) ∨ (a = t ∧ P b)

theorem Acyclic.mono {R' : α → α → Prop} (h : Acyclic R) (hle : ∀ a b, R' a b → R a b) :
    Acyclic R' := by
  intro a ha
  exact h a (TransGen.mono hle _ _ ha)

theorem Acyclic.ne {a b : α} (h : Acyclic R) (hab : R a b) : a ≠ b := by
  rintro rfl
  exact h a (TransGen.single hab)

/-- A way is an old one, or old up to `t`, from where it takes a new parent. -/
theorem first_use {a b : α} (h : TransGen (Rewired R t P) a b) :
    TransGen R a b ∨ ∃ p, P p ∧ ReflTransGen R a t ∧ ReflTransGen (Rewired R t P) p b := by
  induction h using TransGen.head_induction_on with
  | single hstep =>
      obtain ⟨-, hold⟩ | ⟨rfl, hp⟩ := hstep
      · exact Or.inl (TransGen.single hold)
      · exact Or.inr ⟨b, hp, ReflTransGen.refl, ReflTransGen.refl⟩
  | head hstep hrest ih =>
      obtain ⟨-, hold⟩ | ⟨rfl, hp⟩ := hstep
      · obtain hway | ⟨p, hp, hway, hback⟩ := ih
        · exact Or.inl (TransGen.head hold hway)
        · exact Or.inr ⟨p, hp, ReflTransGen.head hold hway, hback⟩
      · exact Or.inr ⟨_, hp, ReflTransGen.refl, hrest.to_reflTransGen⟩

/-- **New parents that do not stand below `t` close no cycle.** -/
theorem Acyclic.rewire (h : Acyclic R) (hP : ∀ p, P p → ¬ReflTransGen R p t) :
    Acyclic (Rewired R t P) := by
  intro a ha
  obtain hold | ⟨p, hp, hway, hback⟩ := first_use ha
  · exact h a hold
  · apply hP p hp
    -- the way back from `p` is an old one, or comes to `t` on its own
    obtain rfl | hback := reflTransGen_iff_eq_or_transGen.mp hback
    · exact hway
    · obtain hold | ⟨-, -, hagain, -⟩ := first_use hback
      · exact hold.to_reflTransGen.trans hway
      · exact hagain

/-! ## Walks -/

section Walk

variable [DecidableEq α]

/-- The walk up the parents from `cursor` meets `target`; it ends where it was before. -/
def meets (up : α → Option α) (target : α) : Nat → List α → Option α → Bool
  | _, _, none => false
  | 0, _, some _ => false
  | fuel + 1, seen, some current =>
      if current = target then true
      else if current ∈ seen then false
      else meets up target fuel (current :: seen) (up current)

variable {up : α → Option α} {target : α} {all : List α}

/-- **The walk finds what is above its start**, with one step more than there are elements. -/
theorem meets_of_reaches (hacyclic : Acyclic fun a b => up a = some b)
    (hall : ∀ a b, up a = some b → a ∈ all) :
    ∀ (fuel : Nat) (seen : List α) (current : α), seen.Nodup →
      (∀ s ∈ seen, s ∈ all ∧ TransGen (fun a b => up a = some b) s current) →
      all.length < fuel + seen.length →
      ReflTransGen (fun a b => up a = some b) current target →
      meets up target fuel seen (some current) = true := by
  intro fuel
  induction fuel with
  | zero =>
      intro seen current hnodup hseen hfuel _
      have hle := (hnodup.subperm fun s hs => (hseen s hs).1).length_le
      omega
  | succ fuel ih =>
      intro seen current hnodup hseen hfuel hreach
      rw [meets]
      split
      · rfl
      · rename_i hne
        obtain heq | ⟨c, hstep, hrest⟩ := ReflTransGen.cases_head hreach
        · exact absurd heq hne
        have hnew : current ∉ seen := fun hmem => hacyclic current (hseen current hmem).2
        rw [if_neg hnew, hstep]
        apply ih
        · exact List.nodup_cons.mpr ⟨hnew, hnodup⟩
        · intro s hs
          obtain rfl | hs := List.mem_cons.mp hs
          · exact ⟨hall _ _ hstep, TransGen.single hstep⟩
          · exact ⟨(hseen s hs).1, TransGen.tail (hseen s hs).2 hstep⟩
        · rw [List.length_cons]
          omega
        · exact hrest

end Walk

end AsterBridge.Lib.Ancestry
