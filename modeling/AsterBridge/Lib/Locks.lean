import AsterBridge.Lib.Tasks

/-!
# Locks that name their holder

A lock among tasks names the task that holds it, or is free. What a task holds is read off its own
state. If every step of a task takes a free lock, gives its lock back, or leaves lock and holding
alone (`Keeps`), then in every run the lock names exactly the task that holds it
(`LockProgram.exec`), so that no two tasks hold it (`Locked.unique`).
-/

set_option autoImplicit false

namespace AsterBridge.Lib.Tasks

open AsterBridge.Lib.Runs

universe u v w x y

variable {σ : Type u} {τ : Type v} {κ : Type w} {γ : Type x} {ε : Type y}

/-- The lock names the task that holds it. -/
def Locked (lock : σ → Option Nat) (holds : τ → Prop) (s : System σ τ) : Prop :=
  ∀ i, lock s.shared = some i ↔ ∃ t, s.tasks[i]? = some t ∧ holds t

/-- What the `i`-th task may do to the lock in a step from `s` and `t` to `s'` and `t'`. -/
inductive Keeps (lock : σ → Option Nat) (holds : τ → Prop) (i : Nat) (s : σ) (t : τ) (s' : σ)
    (t' : τ) : Prop where
  | stay (hlock : lock s' = lock s) (hholds : holds t' ↔ holds t)
  | take (hfree : lock s = none) (htaken : lock s' = some i) (hholds : holds t')
  | release (hheld : holds t) (hfree : lock s' = none) (hholds : ¬holds t')

/-- A program whose lock is taken and given back by the steps of its tasks. -/
structure LockProgram (P : Program σ τ κ γ ε) (lock : σ → Option Nat) (holds : τ → Prop) :
    Prop where
  initial : ∀ c, ¬holds (P.initial c)
  run : ∀ i g s t, Keeps lock holds i s t (P.run i g s t).1 (P.run i g s t).2
  outside : ∀ e s, lock (P.outside e s) = lock s

variable {P : Program σ τ κ γ ε} {lock : σ → Option Nat} {holds : τ → Prop} {s : System σ τ}

/-- Two tasks that hold the lock are one. -/
theorem Locked.unique (h : Locked lock holds s) {i j : Nat} {a b : τ}
    (hi : s.tasks[i]? = some a) (hj : s.tasks[j]? = some b) (ha : holds a) (hb : holds b) :
    i = j := by
  have hlocki := (h i).2 ⟨a, hi, ha⟩
  have hlockj := (h j).2 ⟨b, hj, hb⟩
  exact Option.some.inj (hlocki.symm.trans hlockj)

theorem Locked.holds_iff (h : Locked lock holds s) {i : Nat} {t : τ} (hi : s.tasks[i]? = some t) :
    holds t ↔ lock s.shared = some i := by
  constructor
  · intro ht
    exact (h i).2 ⟨t, hi, ht⟩
  · intro hlock
    obtain ⟨u, hu, hholds⟩ := (h i).1 hlock
    rw [hi] at hu
    rwa [Option.some.inj hu]

theorem locked_start {shared : σ} (hfree : lock shared = none) :
    Locked lock holds (System.start shared : System σ τ) := by
  intro i
  simp [System.start, hfree]

namespace LockProgram

theorem call (L : LockProgram P lock holds) (h : Locked lock holds s) (c : κ) :
    Locked lock holds (P.step s (.call c)) := by
  intro i
  refine (h i).trans ⟨?_, ?_⟩
  · rintro ⟨t, ht, hholds⟩
    exact ⟨t, task_step_call c ht, hholds⟩
  · rintro ⟨t, ht, hholds⟩
    rcases task_call_cases ht with hold | ⟨-, rfl⟩
    · exact ⟨t, hold, hholds⟩
    · -- a new task holds nothing
      exact absurd hholds (L.initial c)

/-- The step of a task that is there. -/
theorem run_task (L : LockProgram P lock holds) (h : Locked lock holds s) {i : Nat} {t : τ} (g : γ)
    (hi : s.tasks[i]? = some t) : Locked lock holds (P.step s (.run i g)) := by
  have hself := task_step_run (P := P) g hi
  have hother : ∀ j, j ≠ i → (P.step s (.run i g)).tasks[j]? = s.tasks[j]? :=
    fun j hj => task_step_other g hj
  have hshared : (P.step s (.run i g)).shared = (P.run i g s.shared t).1 := by
    rw [step_run g hi]
  intro j
  rw [hshared]
  by_cases hj : j = i
  · -- the task that took the step
    subst hj
    have howns : (∃ u, (P.step s (.run j g)).tasks[j]? = some u ∧ holds u) ↔
        holds (P.run j g s.shared t).2 := by
      rw [hself]
      simp
    rw [howns]
    cases L.run j g s.shared t with
    | stay hlock hholds => rw [hlock, hholds, h.holds_iff hi]
    | take hfree htaken hholds => simp [htaken, hholds]
    | release hheld hfree hholds => simp [hfree, hholds]
  · -- every other one: it holds what it held
    rw [hother j hj, ← h j]
    cases L.run i g s.shared t with
    | stay hlock hholds => rw [hlock]
    | take hfree htaken hholds =>
        rw [htaken, hfree]
        simp [Ne.symm hj]
    | release hheld hfree hholds =>
        rw [hfree, (h.holds_iff hi).1 hheld]
        simp [Ne.symm hj]

theorem step (L : LockProgram P lock holds) (h : Locked lock holds s) (e : Event κ γ ε) :
    Locked lock holds (P.step s e) := by
  cases e with
  | call c => exact L.call h c
  | run i g =>
      cases hi : s.tasks[i]? with
      | none => rwa [step_run_none g hi]
      | some t => exact L.run_task h g hi
  | outside e =>
      intro i
      change lock (P.outside e s.shared) = some i ↔ _
      rw [L.outside]
      exact h i

/-- **In every run the lock names exactly the task that holds it.** -/
theorem exec (L : LockProgram P lock holds) {shared : σ} (hfree : lock shared = none)
    (events : List (Event κ γ ε)) :
    Locked lock holds (exec P.step (System.start shared) events) := by
  have hevery := guarded_true P.step (System.start shared) events
  refine exec_invariant (I := Locked lock holds) ?_ ?_ hevery
  · intro s e h _
    exact L.step h e
  · exact locked_start hfree

end LockProgram

end AsterBridge.Lib.Tasks
