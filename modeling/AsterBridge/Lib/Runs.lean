import Mathlib.Data.List.Basic
import Mathlib.Tactic

/-!
# Runs of a step function under a per-step condition

A system is a step function `step : σ → α → σ`; an action `a : α` carries every
choice its environment makes in that step. A run is the list of its actions.

`Guarded` says that every action of a run meets a condition in the state in
which it is taken. The rule `exec_invariant` is the only induction over runs
that the state invariants of this development use.
-/

set_option autoImplicit false

namespace AsterBridge.Lib.Runs

universe u v w

variable {σ : Type u} {α : Type v}

/-- The state after the actions `as`, taken from `s` in order. -/
def exec (step : σ → α → σ) (s : σ) (as : List α) : σ := as.foldl step s

@[simp] theorem exec_nil (step : σ → α → σ) (s : σ) : exec step s [] = s := rfl

@[simp] theorem exec_cons (step : σ → α → σ) (s : σ) (a : α) (as : List α) :
    exec step s (a :: as) = exec step (step s a) as := rfl

theorem exec_append (step : σ → α → σ) (s : σ) (as bs : List α) :
    exec step s (as ++ bs) = exec step (exec step s as) bs :=
  List.foldl_append

/-- Every action of the run meets `ok` in the state in which it is taken. -/
def Guarded (step : σ → α → σ) (ok : σ → α → Prop) : σ → List α → Prop
  | _, [] => True
  | s, a :: as => ok s a ∧ Guarded step ok (step s a) as

@[simp] theorem guarded_nil (step : σ → α → σ) (ok : σ → α → Prop) (s : σ) :
    Guarded step ok s [] :=
  trivial

@[simp] theorem guarded_cons (step : σ → α → σ) (ok : σ → α → Prop) (s : σ) (a : α)
    (as : List α) :
    Guarded step ok s (a :: as) ↔ ok s a ∧ Guarded step ok (step s a) as :=
  Iff.rfl

instance decidableGuarded (step : σ → α → σ) (ok : σ → α → Prop)
    [∀ s a, Decidable (ok s a)] : ∀ (s : σ) (as : List α), Decidable (Guarded step ok s as)
  | _, [] => isTrue trivial
  | s, a :: as =>
      have := decidableGuarded step ok (step s a) as
      inferInstanceAs (Decidable (ok s a ∧ Guarded step ok (step s a) as))

theorem guarded_append (step : σ → α → σ) (ok : σ → α → Prop) (s : σ) (as bs : List α) :
    Guarded step ok s (as ++ bs) ↔
      Guarded step ok s as ∧ Guarded step ok (exec step s as) bs := by
  induction as generalizing s with
  | nil => simp
  | cons a as ih => simp [ih, and_assoc]

theorem guarded_true (step : σ → α → σ) (s : σ) (as : List α) :
    Guarded step (fun _ _ => True) s as := by
  induction as generalizing s with
  | nil => trivial
  | cons a as ih => exact ⟨trivial, ih _⟩

/-- A condition on the actions alone. -/
theorem guarded_of_forall {step : σ → α → σ} {ok : α → Prop} {s : σ} {as : List α}
    (h : ∀ a ∈ as, ok a) : Guarded step (fun _ a => ok a) s as := by
  induction as generalizing s with
  | nil => trivial
  | cons a as ih =>
      constructor
      · exact h a List.mem_cons_self
      · exact ih fun b hb => h b (List.mem_cons_of_mem _ hb)

/-- Two conditions that a run meets, it meets together. -/
theorem Guarded.and {step : σ → α → σ} {ok ok' : σ → α → Prop} {s : σ} {as : List α}
    (h : Guarded step ok s as) (h' : Guarded step ok' s as) :
    Guarded step (fun s a => ok s a ∧ ok' s a) s as := by
  induction as generalizing s with
  | nil => trivial
  | cons a as ih => exact ⟨⟨h.1, h'.1⟩, ih h.2 h'.2⟩

/-- A run that meets a condition meets a weaker one. -/
theorem Guarded.mono {step : σ → α → σ} {ok ok' : σ → α → Prop} (himp : ∀ s a, ok s a → ok' s a)
    {s : σ} {as : List α} (h : Guarded step ok s as) : Guarded step ok' s as := by
  induction as generalizing s with
  | nil => trivial
  | cons a as ih => exact ⟨himp s a h.1, ih h.2⟩

/-- The invariant rule: what holds at the start and is preserved by every
admitted action holds after every guarded run. -/
theorem exec_invariant {step : σ → α → σ} {ok : σ → α → Prop} {I : σ → Prop}
    (hstep : ∀ s a, I s → ok s a → I (step s a)) {s : σ} {as : List α}
    (hs : I s) (hrun : Guarded step ok s as) : I (exec step s as) := by
  induction as generalizing s with
  | nil => exact hs
  | cons a as ih => exact ih (hstep s a hs hrun.1) hrun.2

/-- A relation between the first and the last state of a run, from one that is
reflexive, transitive and holds across every admitted action. -/
theorem exec_relation {step : σ → α → σ} {ok : σ → α → Prop} {I : σ → Prop}
    {R : σ → σ → Prop} (hrefl : ∀ s, R s s) (htrans : ∀ s t u, R s t → R t u → R s u)
    (hinv : ∀ s a, I s → ok s a → I (step s a))
    (hstep : ∀ s a, I s → ok s a → R s (step s a)) {s : σ} {as : List α}
    (hs : I s) (hrun : Guarded step ok s as) : R s (exec step s as) := by
  induction as generalizing s with
  | nil => exact hrefl s
  | cons a as ih =>
      exact htrans _ _ _ (hstep s a hs hrun.1) (ih (hinv s a hs hrun.1) hrun.2)

/-- An invariant that also speaks of the actions taken so far. -/
theorem exec_history {step : σ → α → σ} {ok : σ → α → Prop} {s : σ} {I : List α → σ → Prop}
    (hs : I [] s) (hstep : ∀ past t a, I past t → ok t a → I (past ++ [a]) (step t a))
    {as : List α} (hrun : Guarded step ok s as) : I as (exec step s as) := by
  induction as using List.reverseRecOn with
  | nil => exact hs
  | append_singleton as a ih =>
      rw [guarded_append] at hrun
      rw [exec_append]
      exact hstep as _ a (ih hrun.1) hrun.2.1

end AsterBridge.Lib.Runs
