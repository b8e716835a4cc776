import AsterBridge.Lib.Runs
import Mathlib.Data.List.Perm.Basic

/-!
# Commands that read first and write later

A command reads a store in one step (`begin`) and makes its writes in later ones, batch by batch.
A write carries what its command read. `run` is the write as it is made, `atomically` the command
as it would act if nothing came between its read and its write.

When every write that is made agrees with its atomic form (`Agrees`), the store is the result of
the commands one after another, in the order of their writes (`serial_exec`).
-/

set_option autoImplicit false

namespace AsterBridge.Lib.Serial

open AsterBridge.Lib.Runs

universe u v w

variable {σ : Type u} {ω : Type v} {γ : Type w}

/-- The store, the writes that each command still has to make, and the history: the writes that
were issued, those made in their order, and those that were given up. -/
structure System (σ : Type u) (ω : Type v) where
  store : σ
  tasks : List (List (List ω))
  issued : List ω
  order : List ω
  dropped : List ω

/-- A command begins, the `i`-th command makes its next batch of writes, or it ends early. -/
inductive Event (γ : Type w) where
  | start (command : γ)
  | write (i : Nat)
  | drop (i : Nat)
deriving DecidableEq, Repr

/-- How commands begin and writes act. A command that begins has some writes that change nothing
and are not made (`settled`), and others in batches (`batches`). -/
structure Semantics (σ : Type u) (ω : Type v) (γ : Type w) where
  settled : γ → σ → List ω
  batches : γ → σ → List (List ω)
  run : ω → σ → σ
  atomically : ω → σ → σ
  settled_spec : ∀ c s, ∀ w ∈ settled c s, atomically w s = s

variable (S : Semantics σ ω γ)

/-- Writes one after another. -/
def Semantics.runAll (batch : List ω) (s : σ) : σ := batch.foldl (fun s w => S.run w s) s

/-- Commands one after another. -/
def Semantics.serially (order : List ω) (s : σ) : σ := order.foldl (fun s w => S.atomically w s) s

/-- One step. -/
def Semantics.step (s : System σ ω) : Event γ → System σ ω
  | .start c =>
      { s with
        tasks := s.tasks ++ [S.batches c s.store]
        issued := s.issued ++ (S.settled c s.store ++ (S.batches c s.store).flatten)
        order := s.order ++ S.settled c s.store }
  | .write i =>
      match s.tasks[i]? with
      | some (batch :: rest) =>
          { s with
            store := S.runAll batch s.store
            tasks := s.tasks.set i rest
            order := s.order ++ batch }
      | _ => s
  | .drop i =>
      match s.tasks[i]? with
      | some rest =>
          { s with tasks := s.tasks.set i [], dropped := s.dropped ++ rest.flatten }
      | none => s

/-- A store before any command. -/
def System.start (store : σ) : System σ ω := ⟨store, [], [], [], []⟩

/-- Each write of a batch acts on the store it finds as its command would. -/
def Semantics.Agrees : List ω → σ → Prop
  | [], _ => True
  | w :: ws, s => S.run w s = S.atomically w s ∧ Semantics.Agrees ws (S.run w s)

/-- The writes made in a step agree with their commands. -/
def Semantics.Steady (s : System σ ω) : Event γ → Prop
  | .write i => ∀ batch rest, s.tasks[i]? = some (batch :: rest) → S.Agrees batch s.store
  | _ => True

section Serial

variable {S} {s : System σ ω} {store : σ}

theorem serially_append (xs ys : List ω) (st : σ) :
    S.serially (xs ++ ys) st = S.serially ys (S.serially xs st) := List.foldl_append

theorem runAll_of_agrees {batch : List ω} {st : σ} (h : S.Agrees batch st) :
    S.runAll batch st = S.serially batch st := by
  induction batch generalizing st with
  | nil => rfl
  | cons w ws ih =>
      have htail := ih h.2
      rw [Semantics.runAll, Semantics.serially, List.foldl_cons, List.foldl_cons, ← h.1]
      exact htail

theorem serially_of_unchanged {ws : List ω} {st : σ} (h : ∀ w ∈ ws, S.atomically w st = st) :
    S.serially ws st = st := by
  induction ws with
  | nil => rfl
  | cons w ws ih =>
      rw [Semantics.serially, List.foldl_cons, h w List.mem_cons_self]
      exact ih fun w hw => h w (List.mem_cons_of_mem _ hw)

/-- Taking writes from one of the tasks. -/
theorem flatten_set_perm {tasks : List (List (List ω))} {i : Nat} (done rest : List (List ω))
    (h : tasks[i]? = some (done ++ rest)) :
    tasks.flatten.flatten.Perm (done.flatten ++ (tasks.set i rest).flatten.flatten) := by
  induction tasks generalizing i with
  | nil => exact absurd h (by simp)
  | cons t tasks ih =>
      cases i with
      | zero =>
          obtain rfl := Option.some.inj h
          rw [List.set_cons_zero, List.flatten_cons, List.flatten_cons, List.flatten_append,
            List.flatten_append, List.flatten_append, List.append_assoc]
      | succ i =>
          have htasks := ih (i := i) h
          rw [List.set_cons_succ, List.flatten_cons, List.flatten_cons, List.flatten_append,
            List.flatten_append]
          exact (htasks.append_left _).trans (List.perm_append_comm_assoc _ _ _)

/-- What holds at every moment: the store is the result of the writes made, and every issued write
was made, was given up, or is still to be made. -/
structure Serialized (S : Semantics σ ω γ) (store : σ) (s : System σ ω) : Prop where
  store : s.store = S.serially s.order store
  issued : s.issued.Perm (s.order ++ (s.dropped ++ s.tasks.flatten.flatten))

/-- **Step lemma.** -/
theorem serialized_step (s : System σ ω) (e : Event γ) (h : Serialized S store s)
    (he : S.Steady s e) : Serialized S store (S.step s e) := by
  cases e with
  | start c =>
      refine ⟨?_, ?_⟩
      · show s.store = S.serially (s.order ++ S.settled c s.store) store
        rw [serially_append, ← h.store, serially_of_unchanged (S.settled_spec c s.store)]
      · show (s.issued ++ (S.settled c s.store ++ (S.batches c s.store).flatten)).Perm
          (s.order ++ S.settled c s.store ++
            (s.dropped ++ (s.tasks ++ [S.batches c s.store]).flatten.flatten))
        rw [List.flatten_append, List.flatten_append, List.flatten_singleton, List.append_assoc,
          ← List.append_assoc s.dropped]
        refine (h.issued.append_right _).trans ?_
        rw [List.append_assoc]
        apply List.Perm.append_left
        exact List.perm_append_comm_assoc _ _ _
  | write i =>
      rw [Semantics.step]
      split
      · rename_i batch rest htask
        have hagrees := he batch rest htask
        refine ⟨?_, ?_⟩
        · show S.runAll batch s.store = S.serially (s.order ++ batch) store
          rw [serially_append, ← h.store, runAll_of_agrees hagrees]
        · show s.issued.Perm
            (s.order ++ batch ++ (s.dropped ++ (s.tasks.set i rest).flatten.flatten))
          have htasks := flatten_set_perm [batch] rest htask
          rw [List.flatten_singleton] at htasks
          refine h.issued.trans ?_
          rw [List.append_assoc]
          apply List.Perm.append_left
          exact (htasks.append_left _).trans (List.perm_append_comm_assoc _ _ _)
      · exact h
  | drop i =>
      rw [Semantics.step]
      split
      · rename_i rest htask
        refine ⟨h.store, h.issued.trans ?_⟩
        show (s.order ++ (s.dropped ++ s.tasks.flatten.flatten)).Perm
          (s.order ++ (s.dropped ++ rest.flatten ++ (s.tasks.set i []).flatten.flatten))
        apply List.Perm.append_left
        rw [List.append_assoc]
        apply List.Perm.append_left
        exact flatten_set_perm _ [] (by rw [htask, List.append_nil])
      · exact h

/-- **The store is the result of the commands one after another**, in every run whose writes
agree with their commands. -/
theorem serial_exec (store : σ) (events : List (Event γ))
    (h : Guarded S.step S.Steady (System.start store) events) :
    Serialized S store (exec S.step (System.start store) events) :=
  exec_invariant serialized_step ⟨rfl, List.Perm.nil⟩ h

end Serial

end AsterBridge.Lib.Serial
