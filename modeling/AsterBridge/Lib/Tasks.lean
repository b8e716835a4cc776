import AsterBridge.Lib.Runs

/-!
# Tasks that share a state

Calls that run at the same time: each call is a task with a state of its own, and every task runs
in atomic steps on one state that all of them share. Between two steps of a task any other may
run, and something outside the program may change the shared state. A task is known by its place
in the list of tasks, so that a lock can name its holder.

An `Outline` is an invariant of the shared state with an assertion for every task. It is enough
that a step keeps the assertion of the task that takes it and interferes with no other
(`Outline.exec`).
-/

set_option autoImplicit false

namespace AsterBridge.Lib.Tasks

open AsterBridge.Lib.Runs

universe u v w x y

variable {σ : Type u} {τ : Type v} {κ : Type w} {γ : Type x} {ε : Type y}

/-- The shared state and the state of every call that was made, the finished ones too. -/
structure System (σ : Type u) (τ : Type v) where
  shared : σ
  tasks : List τ

/-- A call begins, the `i`-th task takes its next step with the choices its environment makes in
it, or the shared state changes from outside. -/
inductive Event (κ : Type w) (γ : Type x) (ε : Type y) where
  | call (c : κ)
  | run (i : Nat) (choice : γ)
  | outside (e : ε)
deriving DecidableEq, Repr

/-- What a call begins as, what its steps do, and what comes from outside. -/
structure Program (σ : Type u) (τ : Type v) (κ : Type w) (γ : Type x) (ε : Type y) where
  initial : κ → τ
  run : Nat → γ → σ → τ → σ × τ
  outside : ε → σ → σ

/-- One event. A step of a task that is not there changes nothing. -/
def Program.step (P : Program σ τ κ γ ε) (s : System σ τ) : Event κ γ ε → System σ τ
  | .call c => ⟨s.shared, s.tasks ++ [P.initial c]⟩
  | .run i g =>
      match s.tasks[i]? with
      | none => s
      | some t => ⟨(P.run i g s.shared t).1, s.tasks.set i (P.run i g s.shared t).2⟩
  | .outside e => ⟨P.outside e s.shared, s.tasks⟩

/-- The state before any call. -/
def System.start (shared : σ) : System σ τ := ⟨shared, []⟩

section Step

variable {P : Program σ τ κ γ ε} {s : System σ τ} {i j : Nat} {t : τ}

theorem step_run (g : γ) (h : s.tasks[i]? = some t) :
    P.step s (.run i g) = ⟨(P.run i g s.shared t).1, s.tasks.set i (P.run i g s.shared t).2⟩ := by
  rw [Program.step, h]

theorem step_run_none (g : γ) (h : s.tasks[i]? = none) : P.step s (.run i g) = s := by
  rw [Program.step, h]

/-- The task after its own step. -/
theorem task_step_run (g : γ) (h : s.tasks[i]? = some t) :
    (P.step s (.run i g)).tasks[i]? = some (P.run i g s.shared t).2 := by
  obtain ⟨hlt, -⟩ := List.getElem?_eq_some_iff.1 h
  rw [step_run g h, List.getElem?_set_self hlt]

/-- A task is as it was after a step of another one. -/
theorem task_step_other (g : γ) (hne : j ≠ i) :
    (P.step s (.run i g)).tasks[j]? = s.tasks[j]? := by
  cases h : s.tasks[i]? with
  | none => rw [step_run_none g h]
  | some t =>
      rw [step_run g h]
      exact List.getElem?_set_ne hne.symm

/-- A task that is there stays there when a call begins. -/
theorem task_step_call (c : κ) (h : s.tasks[i]? = some t) :
    (P.step s (.call c)).tasks[i]? = some t := by
  obtain ⟨hlt, -⟩ := List.getElem?_eq_some_iff.1 h
  exact (List.getElem?_append_left hlt).trans h

/-- The tasks after a call: those before and the new one. -/
theorem task_call_cases {c : κ} (h : (P.step s (.call c)).tasks[i]? = some t) :
    s.tasks[i]? = some t ∨ i = s.tasks.length ∧ t = P.initial c := by
  by_cases hlt : i < s.tasks.length
  · left
    exact (List.getElem?_append_left hlt).symm.trans h
  · right
    have hle : s.tasks.length ≤ i := Nat.le_of_not_lt hlt
    have hget : [P.initial c][i - s.tasks.length]? = some t :=
      (List.getElem?_append_right hle).symm.trans h
    obtain ⟨hi, heq⟩ := List.getElem?_eq_some_iff.1 hget
    rw [List.length_singleton] at hi
    refine ⟨by omega, ?_⟩
    rw [← heq]
    simp

/-- No task is lost. -/
theorem length_step_le (s : System σ τ) (e : Event κ γ ε) :
    s.tasks.length ≤ (P.step s e).tasks.length := by
  cases e with
  | call c => simp [Program.step]
  | run i g =>
      cases h : s.tasks[i]? with
      | none => rw [step_run_none g h]
      | some t => rw [step_run g h, List.length_set]
  | outside e => exact Nat.le_refl _

end Step

/-! ## Proof outlines -/

/-- An invariant `I` of the shared state and an assertion `A` of each task, for events that meet
`ok` in the state in which they come. -/
structure Outline (P : Program σ τ κ γ ε) (ok : System σ τ → Event κ γ ε → Prop) (I : σ → Prop)
    (A : Nat → σ → τ → Prop) : Prop where
  call : ∀ s i c, I s → A i s (P.initial c)
  own : ∀ s i t g, ok s (.run i g) → s.tasks[i]? = some t → I s.shared → A i s.shared t →
    I (P.run i g s.shared t).1 ∧ A i (P.run i g s.shared t).1 (P.run i g s.shared t).2
  others : ∀ s i t g j u, ok s (.run i g) → s.tasks[i]? = some t → s.tasks[j]? = some u → j ≠ i →
    I s.shared → A i s.shared t → A j s.shared u → A j (P.run i g s.shared t).1 u
  outside : ∀ s e, ok s (.outside e) → I s.shared → I (P.outside e s.shared)
  outsideTask : ∀ s e j u, ok s (.outside e) → I s.shared → A j s.shared u →
    A j (P.outside e s.shared) u

/-- The invariant holds, and every task has its assertion. -/
def Holds (I : σ → Prop) (A : Nat → σ → τ → Prop) (s : System σ τ) : Prop :=
  I s.shared ∧ ∀ i t, s.tasks[i]? = some t → A i s.shared t

namespace Outline

variable {P : Program σ τ κ γ ε} {ok : System σ τ → Event κ γ ε → Prop} {I : σ → Prop}
  {A : Nat → σ → τ → Prop}

theorem step (O : Outline P ok I A) (s : System σ τ) (e : Event κ γ ε) (h : Holds I A s)
    (hok : ok s e) : Holds I A (P.step s e) := by
  obtain ⟨hI, hA⟩ := h
  cases e with
  | call c =>
      refine ⟨hI, fun i t ht => ?_⟩
      rcases task_call_cases ht with hold | ⟨-, rfl⟩
      · exact hA i t hold
      · exact O.call _ i c hI
  | run i g =>
      cases hi : s.tasks[i]? with
      | none =>
          rw [step_run_none g hi]
          exact ⟨hI, hA⟩
      | some t =>
          have hown := O.own s i t g hok hi hI (hA i t hi)
          refine ⟨?_, fun j u hu => ?_⟩
          · rw [step_run g hi]
            exact hown.1
          · by_cases hj : j = i
            · -- the task that took the step
              subst hj
              rw [task_step_run g hi] at hu
              obtain rfl := Option.some.inj hu
              rw [step_run g hi]
              exact hown.2
            · -- every other one: the step does not interfere
              rw [task_step_other g hj] at hu
              rw [step_run g hi]
              exact O.others s i t g j u hok hi hu hj hI (hA i t hi) (hA j u hu)
  | outside e =>
      refine ⟨O.outside s e hok hI, fun j u hu => ?_⟩
      exact O.outsideTask s e j u hok hI (hA j u hu)

/-- **An outline holds after every run** whose events meet its condition. -/
theorem exec (O : Outline P ok I A) {s : System σ τ} (h : Holds I A s)
    (events : List (Event κ γ ε)) (hrun : Guarded P.step ok s events) :
    Holds I A (exec P.step s events) :=
  exec_invariant (I := Holds I A) O.step h hrun

/-- Before any call only the invariant of the shared state has to hold. -/
theorem exec_start (O : Outline P ok I A) (shared : σ) (h : I shared)
    (events : List (Event κ γ ε)) (hrun : Guarded P.step ok (System.start shared) events) :
    Holds I A (Runs.exec P.step (System.start shared) events) :=
  O.exec ⟨h, fun _ _ ht => absurd ht (by simp [System.start])⟩ events hrun

end Outline

end AsterBridge.Lib.Tasks
