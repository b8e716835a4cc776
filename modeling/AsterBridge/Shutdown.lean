import AsterBridge.Lib.Tasks

/-!
# Shutdown

`shutdown.rs` and the stop of `runtime.rs`: guarded work holds a read guard of one lock, and
`close_and_wait` raises the closed flag and takes the write guard once. Each call is a task; what
runs under a guard is the rest of the task that took it.

The lock is tokio's: writers wait in order, and while one waits `try_read` and `try_write` fail. A
caller outside every scope gets a channel of its own, whose flag nothing raises; its calls are not
calls on this one.
-/

set_option autoImplicit false

namespace AsterBridge.Shutdown

open AsterBridge.Lib.Tasks AsterBridge.Lib.Runs

/-! ## What is shared -/

/-- The channel and the running bridge: the closed flag, the lock `work` with the tasks that hold
a read guard, the one that holds the write guard and those that wait for it, the two lists of
service tasks, and which services have finished. -/
structure Shared where
  closed : Bool
  readers : List Nat
  writer : Option Nat
  queue : List Nat
  handles : List Nat
  stopping : List Nat
  finished : List Nat
  /-- how many steps the guarded work has taken -/
  steps : Nat

/-- A bridge that runs the services. -/
def Shared.start (services : List Nat) : Shared where
  closed := false
  readers := []
  writer := none
  queue := []
  handles := services
  stopping := []
  finished := []
  steps := 0

namespace Shared

/-- `try_read_owned` -/
def canRead (s : Shared) : Bool := s.writer.isNone && s.queue.isEmpty

/-- `try_write` -/
def canWrite (s : Shared) : Bool := s.readers.isEmpty && s.writer.isNone && s.queue.isEmpty

/-- The guard of the task `i` is dropped. -/
def dropRead (s : Shared) (i : Nat) : Shared := { s with readers := s.readers.filter (· ≠ i) }

/-- `close_connections` -/
def close (s : Shared) : Shared := { s with closed := true }

end Shared

/-! ## Calls -/

/-- What a guard is taken for: by a caller of `hold` itself, or by one of the functions that take
it for a future, a closure or a request. -/
inductive Work where
  | hold
  | spawn
  | spawnBlockingHeld
  | holdRequest
deriving DecidableEq

/-- Whether the work runs under `until_closed`, which drops it when the flag is up. -/
def Work.untilClosed : Work → Bool
  | .spawn | .holdRequest => true
  | .hold | .spawnBlockingHeld => false

/-- The calls. -/
inductive Call where
  | work (w : Work)
  | isIdle
  | closeConnections
  | closeAndWait
  | stop
  | stopAndWait

/-- Where a call is. The flag `stops` tells a `close_and_wait` that is the end of a
`stop_and_wait`. -/
inductive Task where
  /-- `hold` before `try_read_owned` -/
  | holding (w : Work)
  /-- `hold` with the read guard, before it reads the flag -/
  | checking (w : Work)
  | refused (w : Work)
  /-- a `WorkGuard` is held and the work may run -/
  | working (w : Work)
  /-- the future or closure is gone, the guard is not -/
  | ended (w : Work)
  | released (w : Work)
  | idling
  /-- `is_idle` with the write guard -/
  | probing
  | idle (result : Bool)
  | closing
  | closed
  /-- `close_and_wait` before it raises the flag -/
  | flagging (stops : Bool)
  | acquiring (stops : Bool)
  | queued (stops : Bool)
  | exclusive (stops : Bool)
  | waited (stops : Bool)
  /-- `Inner::stop` before it closes the connections -/
  | disconnecting (wait : Bool)
  /-- `Inner::stop` before it takes the handles -/
  | taking (wait : Bool)
  /-- with the handles, before they are put on the list of stopping tasks -/
  | pushing (wait : Bool) (handles : List Nat)
  | stopped
  /-- `stop_and_wait` before it takes the list of stopping tasks -/
  | collecting
  | awaiting (handles : List Nat)
deriving DecidableEq

/-- What the environment chooses in a step of guarded work. -/
inductive Choice where
  /-- it is polled, or runs on, and is not done -/
  | poll
  /-- it is polled, or runs on, to its end -/
  | complete
  /-- it is dropped, by an abort or with the connection -/
  | drop
deriving DecidableEq

/-- A step of guarded work. `until_closed` looks at the flag before it polls the work. -/
def runWork (w : Work) (c : Choice) (s : Shared) : Shared × Task :=
  match c with
  | .drop =>
      -- a closure that runs is not dropped
      if w = .spawnBlockingHeld then (s, .working w) else (s, .ended w)
  | .poll =>
      if w.untilClosed && s.closed then (s, .ended w)
      else ({ s with steps := s.steps + 1 }, .working w)
  | .complete =>
      if w.untilClosed && s.closed then (s, .ended w)
      else ({ s with steps := s.steps + 1 }, .ended w)

/-- A step of the task `i`. -/
def runTask (i : Nat) (c : Choice) (s : Shared) : Task → Shared × Task
  | .holding w =>
      if s.canRead then ({ s with readers := s.readers ++ [i] }, .checking w) else (s, .refused w)
  | .checking w => if s.closed then (s.dropRead i, .refused w) else (s, .working w)
  | .working w => runWork w c s
  | .ended w => (s.dropRead i, .released w)
  | .idling => if s.canWrite then ({ s with writer := some i }, .probing) else (s, .idle false)
  | .probing => ({ s with writer := none }, .idle true)
  | .closing => (s.close, .closed)
  | .flagging stops => (s.close, .acquiring stops)
  | .acquiring stops =>
      if s.canWrite then ({ s with writer := some i }, .exclusive stops)
      else ({ s with queue := s.queue ++ [i] }, .queued stops)
  | .queued stops =>
      if s.readers = [] ∧ s.writer = none ∧ s.queue.head? = some i then
        ({ s with writer := some i, queue := s.queue.tail }, .exclusive stops)
      else (s, .queued stops)
  | .exclusive stops => ({ s with writer := none }, .waited stops)
  | .disconnecting wait => (s.close, .taking wait)
  | .taking wait => ({ s with handles := [] }, .pushing wait s.handles)
  | .pushing wait handles =>
      ({ s with stopping := s.stopping ++ handles }, if wait then .collecting else .stopped)
  | .collecting => ({ s with stopping := [] }, .awaiting s.stopping)
  | .awaiting handles =>
      match handles with
      | [] => (s, .flagging true)
      | handle :: rest =>
          if handle ∈ s.finished then (s, .awaiting rest) else (s, .awaiting handles)
  | t => (s, t)

/-- A service task ends. -/
structure Finish where
  service : Nat

/-- The calls as a program; service tasks end by themselves or because they were aborted. -/
def program : Program Shared Task Call Choice Finish where
  initial
    | .work w => .holding w
    | .isIdle => .idling
    | .closeConnections => .closing
    | .closeAndWait => .flagging false
    | .stop => .disconnecting false
    | .stopAndWait => .disconnecting true
  run := runTask
  outside e s := { s with finished := e.service :: s.finished }

/-- The events of a run. -/
abbrev Ev := Event Call Choice Finish

/-- The state of the calls and of what they share. -/
abbrev Sys := System Shared Task

/-- A run of the program. -/
abbrev after (s : Sys) (events : List Ev) : Sys := exec program.step s events

/-! ## The lock -/

/-- What holds between any two steps. -/
structure Sound (s : Shared) : Prop where
  queue : s.closed = false → s.queue = []
  writer : s.writer ≠ none → s.readers = []

/-- What a task knows: its guard is counted, the flag that it raised stays up, and the handles are
taken once. -/
def Knows (i : Nat) (s : Shared) : Task → Prop
  | .checking _ | .working _ | .ended _ => i ∈ s.readers
  | .probing => s.writer = some i
  | .acquiring _ | .queued _ | .waited _ => s.closed = true
  | .exclusive _ => s.closed = true ∧ s.writer = some i
  | .pushing _ _ | .collecting | .awaiting _ => s.handles = []
  | _ => True

section Lock

variable {s : Shared} {i j : Nat} {c : Choice} {t u : Task}

theorem canRead_iff : s.canRead = true ↔ s.writer = none ∧ s.queue = [] := by
  rw [Shared.canRead, Bool.and_eq_true, Option.isNone_iff_eq_none, List.isEmpty_iff]

theorem canWrite_iff : s.canWrite = true ↔ s.readers = [] ∧ s.writer = none ∧ s.queue = [] := by
  rw [Shared.canWrite, Bool.and_eq_true, Bool.and_eq_true, List.isEmpty_iff,
    Option.isNone_iff_eq_none, List.isEmpty_iff, and_assoc]

/-- Guarded work only counts its steps. -/
theorem runWork_cases (w : Work) (c : Choice) (s : Shared) :
    ((runWork w c s).1 = s ∨ (runWork w c s).1 = { s with steps := s.steps + 1 }) ∧
      ((runWork w c s).2 = .working w ∨ (runWork w c s).2 = .ended w) := by
  cases c with
  | poll =>
      unfold runWork
      dsimp only
      split
      · exact ⟨Or.inl rfl, Or.inr rfl⟩
      · exact ⟨Or.inr rfl, Or.inl rfl⟩
  | complete =>
      unfold runWork
      dsimp only
      split
      · exact ⟨Or.inl rfl, Or.inr rfl⟩
      · exact ⟨Or.inr rfl, Or.inr rfl⟩
  | drop =>
      unfold runWork
      dsimp only
      split
      · exact ⟨Or.inl rfl, Or.inl rfl⟩
      · exact ⟨Or.inl rfl, Or.inr rfl⟩

theorem Sound.dropRead (h : Sound s) (i : Nat) : Sound (s.dropRead i) where
  queue := h.queue
  writer hw := by
    change s.readers.filter (· ≠ i) = []
    rw [h.writer hw]
    rfl

theorem Sound.close (h : Sound s) : Sound s.close where
  queue hc := nomatch hc
  writer := h.writer

/-- What a step of the task `i` leaves alone. -/
structure Keeps (i : Nat) (s s' : Shared) : Prop where
  readers : ∀ j, j ≠ i → j ∈ s.readers → j ∈ s'.readers
  closed : s.closed = true → s'.closed = true
  writer : ∀ j, j ≠ i → s.writer = some j → s'.writer = some j
  handles : s.handles = [] → s'.handles = []
  finished : ∀ x ∈ s.finished, x ∈ s'.finished

theorem Keeps.refl (i : Nat) (s : Shared) : Keeps i s s :=
  ⟨fun _ _ h => h, id, fun _ _ h => h, id, fun _ h => h⟩

theorem Keeps.dropRead (i : Nat) (s : Shared) : Keeps i s (s.dropRead i) where
  readers _ hj h := List.mem_filter.2 ⟨h, decide_eq_true hj⟩
  closed := id
  writer _ _ h := h
  handles := id
  finished _ h := h

theorem Keeps.close (i : Nat) (s : Shared) : Keeps i s s.close :=
  ⟨fun _ _ h => h, fun _ => rfl, fun _ _ h => h, id, fun _ h => h⟩

/-- The write guard is taken only when nobody holds it. -/
theorem Keeps.takeWrite {queue : List Nat} (hfree : s.writer = none) :
    Keeps i s { s with writer := some i, queue := queue } :=
  ⟨fun _ _ h => h, id, fun _ _ h => (nomatch hfree.symm.trans h), id, fun _ h => h⟩

/-- The write guard is dropped by the task that holds it. -/
theorem Keeps.dropWrite (hmine : s.writer = some i) : Keeps i s { s with writer := none } :=
  ⟨fun _ _ h => h, id,
    fun _ hj h => absurd (Option.some.inj (hmine.symm.trans h)).symm hj, id, fun _ h => h⟩

theorem keeps_runTask (hk : Knows i s t) : Keeps i s (runTask i c s t).1 := by
  cases t with
  | holding w =>
      unfold runTask
      dsimp only
      split
      · exact ⟨fun _ _ h => List.mem_append_left _ h, id, fun _ _ h => h, id, fun _ h => h⟩
      · exact Keeps.refl i s
  | checking w =>
      unfold runTask
      dsimp only
      split
      · exact Keeps.dropRead i s
      · exact Keeps.refl i s
  | working w =>
      change Keeps i s (runWork w c s).1
      rcases (runWork_cases w c s).1 with hs | hs
      · rw [hs]
        exact Keeps.refl i s
      · rw [hs]
        exact ⟨fun _ _ h => h, id, fun _ _ h => h, id, fun _ h => h⟩
  | ended w => exact Keeps.dropRead i s
  | idling =>
      unfold runTask
      dsimp only
      split
      · rename_i hwrite
        exact Keeps.takeWrite (canWrite_iff.1 hwrite).2.1
      · exact Keeps.refl i s
  | probing => exact Keeps.dropWrite hk
  | closing => exact Keeps.close i s
  | flagging stops => exact Keeps.close i s
  | acquiring stops =>
      unfold runTask
      dsimp only
      split
      · rename_i hwrite
        exact Keeps.takeWrite (canWrite_iff.1 hwrite).2.1
      · exact ⟨fun _ _ h => h, id, fun _ _ h => h, id, fun _ h => h⟩
  | queued stops =>
      unfold runTask
      dsimp only
      split
      · rename_i hfirst
        exact Keeps.takeWrite hfirst.2.1
      · exact Keeps.refl i s
  | exclusive stops => exact Keeps.dropWrite hk.2
  | disconnecting wait => exact Keeps.close i s
  | taking wait => exact ⟨fun _ _ h => h, id, fun _ _ h => h, fun _ => rfl, fun _ h => h⟩
  | pushing wait handles =>
      exact ⟨fun _ _ h => h, id, fun _ _ h => h, id, fun _ h => h⟩
  | collecting => exact ⟨fun _ _ h => h, id, fun _ _ h => h, id, fun _ h => h⟩
  | awaiting handles =>
      cases handles with
      | nil => exact Keeps.refl i s
      | cons handle rest =>
          unfold runTask
          dsimp only
          split
          · exact Keeps.refl i s
          · exact Keeps.refl i s
  | refused w => exact Keeps.refl i s
  | released w => exact Keeps.refl i s
  | idle result => exact Keeps.refl i s
  | closed => exact Keeps.refl i s
  | waited stops => exact Keeps.refl i s
  | stopped => exact Keeps.refl i s

/-- What a task knows is kept by a step of another one. -/
theorem Keeps.knows {s' : Shared} (h : Keeps i s s') (hne : j ≠ i) (hu : Knows j s u) :
    Knows j s' u := by
  cases u with
  | checking w => exact h.readers j hne hu
  | working w => exact h.readers j hne hu
  | ended w => exact h.readers j hne hu
  | probing => exact h.writer j hne hu
  | acquiring stops => exact h.closed hu
  | queued stops => exact h.closed hu
  | waited stops => exact h.closed hu
  | exclusive stops => exact ⟨h.closed hu.1, h.writer j hne hu.2⟩
  | pushing wait handles => exact h.handles hu
  | collecting => exact h.handles hu
  | awaiting handles => exact h.handles hu
  | holding w => trivial
  | refused w => trivial
  | released w => trivial
  | idling => trivial
  | idle result => trivial
  | closing => trivial
  | closed => trivial
  | flagging stops => trivial
  | disconnecting wait => trivial
  | taking wait => trivial
  | stopped => trivial

/-- The invariant and what the tasks know of the lock. -/
theorem lock_outline : Outline program (fun _ _ => True) Sound Knows where
  call s i c _ := by
    cases c with
    | work w => trivial
    | isIdle => trivial
    | closeConnections => trivial
    | closeAndWait => trivial
    | stop => trivial
    | stopAndWait => trivial
  own sys i t c _ _ h hk := by
    change Sound (runTask i c sys.shared t).1 ∧
      Knows i (runTask i c sys.shared t).1 (runTask i c sys.shared t).2
    generalize sys.shared = s at h hk
    cases t with
    | holding w =>
        unfold runTask
        dsimp only
        split
        · rename_i hread
          obtain ⟨hwriter, -⟩ := canRead_iff.1 hread
          exact ⟨⟨h.queue, fun hw => absurd hwriter hw⟩,
            List.mem_append_right _ (List.mem_singleton_self i)⟩
        · exact ⟨h, trivial⟩
    | checking w =>
        unfold runTask
        dsimp only
        split
        · exact ⟨h.dropRead i, trivial⟩
        · exact ⟨h, hk⟩
    | working w =>
        obtain ⟨hstate, htask⟩ := runWork_cases w c s
        change Sound (runWork w c s).1 ∧ Knows i (runWork w c s).1 (runWork w c s).2
        rcases hstate with hs | hs
        · rw [hs]
          rcases htask with ht | ht
          · rw [ht]
            exact ⟨h, hk⟩
          · rw [ht]
            exact ⟨h, hk⟩
        · rw [hs]
          rcases htask with ht | ht
          · rw [ht]
            exact ⟨⟨h.queue, h.writer⟩, hk⟩
          · rw [ht]
            exact ⟨⟨h.queue, h.writer⟩, hk⟩
    | ended w => exact ⟨h.dropRead i, trivial⟩
    | idling =>
        unfold runTask
        dsimp only
        split
        · rename_i hwrite
          exact ⟨⟨h.queue, fun _ => (canWrite_iff.1 hwrite).1⟩, rfl⟩
        · exact ⟨h, trivial⟩
    | probing => exact ⟨⟨h.queue, fun hw => absurd rfl hw⟩, trivial⟩
    | closing => exact ⟨h.close, trivial⟩
    | flagging stops => exact ⟨h.close, rfl⟩
    | acquiring stops =>
        have hclosed : s.closed = true := hk
        unfold runTask
        dsimp only
        split
        · rename_i hwrite
          exact ⟨⟨h.queue, fun _ => (canWrite_iff.1 hwrite).1⟩, hclosed, rfl⟩
        · refine ⟨⟨fun hopen => ?_, h.writer⟩, hclosed⟩
          exact absurd (hclosed.symm.trans hopen) (by decide)
    | queued stops =>
        have hclosed : s.closed = true := hk
        unfold runTask
        dsimp only
        split
        · rename_i hfirst
          refine ⟨⟨fun hopen => ?_, fun _ => hfirst.1⟩, hclosed, rfl⟩
          exact absurd (hclosed.symm.trans hopen) (by decide)
        · exact ⟨h, hclosed⟩
    | exclusive stops => exact ⟨⟨h.queue, fun hw => absurd rfl hw⟩, hk.1⟩
    | disconnecting wait => exact ⟨h.close, trivial⟩
    | taking wait => exact ⟨⟨h.queue, h.writer⟩, rfl⟩
    | pushing wait handles =>
        cases wait with
        | true => exact ⟨⟨h.queue, h.writer⟩, hk⟩
        | false => exact ⟨⟨h.queue, h.writer⟩, trivial⟩
    | collecting => exact ⟨⟨h.queue, h.writer⟩, hk⟩
    | awaiting handles =>
        cases handles with
        | nil => exact ⟨h, trivial⟩
        | cons handle rest =>
            unfold runTask
            dsimp only
            split
            · exact ⟨h, hk⟩
            · exact ⟨h, hk⟩
    | refused w => exact ⟨h, trivial⟩
    | released w => exact ⟨h, trivial⟩
    | idle result => exact ⟨h, trivial⟩
    | closed => exact ⟨h, trivial⟩
    | waited stops => exact ⟨h, hk⟩
    | stopped => exact ⟨h, trivial⟩
  others sys i t c j u _ _ _ hne _ hk hu := (keeps_runTask hk).knows hne hu
  outside s e _ h := ⟨h.queue, h.writer⟩
  outsideTask s e j u _ _ hu := by
    cases u <;> exact hu

end Lock

/-! ## No work outlives a `close_and_wait` -/

/-- Work that holds a `WorkGuard`. -/
def Task.guarded : Task → Bool
  | .working _ | .ended _ => true
  | _ => false

/-- A task with the write guard. -/
def Task.holdsWrite : Task → Bool
  | .probing | .exclusive _ => true
  | _ => false

/-- A `close_and_wait` that has had the write guard. -/
def Task.gotLock : Task → Bool
  | .exclusive _ | .waited _ => true
  | _ => false

/-- The handles of service tasks that a call has taken from a list. -/
def Task.carried : Task → List Nat
  | .pushing _ handles | .awaiting handles => handles
  | _ => []

/-- No work is guarded once a `close_and_wait` has had the write guard. -/
def Quiet (s : Sys) : Prop :=
  (∃ t ∈ s.tasks, t.gotLock = true) → ∀ u ∈ s.tasks, u.guarded = false

section Work

/-- What a step can do: the write guard is had when no read guard is left, a `WorkGuard` is made
while the flag is down, only guarded work takes steps of its own, who takes the write guard holds
it, and a handle is dropped when its task has finished. -/
structure WorkStep (s : Shared) (t : Task) (s' : Shared) (t' : Task) : Prop where
  gotLock : t'.gotLock = true → t.gotLock = true ∨ s.readers = []
  guarded : t'.guarded = true → t.guarded = true ∨ s.closed = false
  steps : s'.steps = s.steps ∨ t.guarded = true
  writer : s'.writer = s.writer ∨ s'.writer = none ∨ t'.holdsWrite = true
  handles : ∀ x ∈ s.handles, x ∈ s'.handles ∨ x ∈ t'.carried
  stopping : ∀ x ∈ s.stopping, x ∈ s'.stopping ∨ x ∈ t'.carried
  carried : ∀ x ∈ t.carried, x ∈ s'.finished ∨ x ∈ s'.stopping ∨ x ∈ t'.carried

/-- A step that leaves the lists alone. -/
theorem WorkStep.of_lists {s s' : Shared} {t t' : Task}
    (hgot : t'.gotLock = true → t.gotLock = true ∨ s.readers = [])
    (hguarded : t'.guarded = true → t.guarded = true ∨ s.closed = false)
    (hsteps : s'.steps = s.steps ∨ t.guarded = true)
    (hwriter : s'.writer = s.writer ∨ s'.writer = none ∨ t'.holdsWrite = true)
    (hhandles : s'.handles = s.handles) (hstopping : s'.stopping = s.stopping)
    (hcarried : t.carried = []) : WorkStep s t s' t' where
  gotLock := hgot
  guarded := hguarded
  steps := hsteps
  writer := hwriter
  handles _ hx := Or.inl (hhandles ▸ hx)
  stopping _ hx := Or.inl (hstopping ▸ hx)
  carried _ hx := absurd (hcarried ▸ hx) List.not_mem_nil

/-- A step that leaves the lists alone and lets nobody in. -/
theorem WorkStep.plain {s s' : Shared} {t t' : Task} (hgot : t'.gotLock = false)
    (hguarded : t'.guarded = false) (hsteps : s'.steps = s.steps)
    (hwriter : s'.writer = s.writer ∨ s'.writer = none ∨ t'.holdsWrite = true)
    (hhandles : s'.handles = s.handles) (hstopping : s'.stopping = s.stopping)
    (hcarried : t.carried = []) : WorkStep s t s' t' :=
  .of_lists (fun h => absurd (hgot.symm.trans h) (by decide))
    (fun h => absurd (hguarded.symm.trans h) (by decide)) (Or.inl hsteps) hwriter hhandles
    hstopping hcarried

theorem work_runTask (i : Nat) (c : Choice) (s : Shared) (t : Task) :
    WorkStep s t (runTask i c s t).1 (runTask i c s t).2 := by
  cases t with
  | holding w =>
      unfold runTask
      dsimp only
      split
      · exact .plain rfl rfl rfl (Or.inl rfl) rfl rfl rfl
      · exact .plain rfl rfl rfl (Or.inl rfl) rfl rfl rfl
  | checking w =>
      unfold runTask
      dsimp only
      split
      · exact .plain rfl rfl rfl (Or.inl rfl) rfl rfl rfl
      · rename_i hopen
        exact .of_lists nofun (fun _ => Or.inr (Bool.eq_false_iff.2 hopen)) (Or.inl rfl)
          (Or.inl rfl) rfl rfl rfl
  | working w =>
      obtain ⟨hstate, htask⟩ := runWork_cases w c s
      have hgot : (runWork w c s).2.gotLock = false := by
        rcases htask with ht | ht
        · rw [ht]
          rfl
        · rw [ht]
          rfl
      have hlists : (runWork w c s).1.writer = s.writer ∧
          (runWork w c s).1.handles = s.handles ∧ (runWork w c s).1.stopping = s.stopping := by
        rcases hstate with hs | hs
        · rw [hs]
          exact ⟨rfl, rfl, rfl⟩
        · rw [hs]
          exact ⟨rfl, rfl, rfl⟩
      exact .of_lists (fun h => absurd (hgot.symm.trans h) (by decide)) (fun _ => Or.inl rfl)
        (Or.inr rfl) (Or.inl hlists.1) hlists.2.1 hlists.2.2 rfl
  | idling =>
      unfold runTask
      dsimp only
      split
      · exact .plain rfl rfl rfl (Or.inr (Or.inr rfl)) rfl rfl rfl
      · exact .plain rfl rfl rfl (Or.inl rfl) rfl rfl rfl
  | acquiring stops =>
      unfold runTask
      dsimp only
      split
      · rename_i hwrite
        exact .of_lists (fun _ => Or.inr (canWrite_iff.1 hwrite).1) nofun (Or.inl rfl)
          (Or.inr (Or.inr rfl)) rfl rfl rfl
      · exact .plain rfl rfl rfl (Or.inl rfl) rfl rfl rfl
  | queued stops =>
      unfold runTask
      dsimp only
      split
      · rename_i hfirst
        exact .of_lists (fun _ => Or.inr hfirst.1) nofun (Or.inl rfl) (Or.inr (Or.inr rfl))
          rfl rfl rfl
      · exact .plain rfl rfl rfl (Or.inl rfl) rfl rfl rfl
  | exclusive stops =>
      exact .of_lists (fun _ => Or.inl rfl) nofun (Or.inl rfl) (Or.inr (Or.inl rfl)) rfl rfl rfl
  | waited stops =>
      exact .of_lists (fun _ => Or.inl rfl) nofun (Or.inl rfl) (Or.inl rfl) rfl rfl rfl
  | taking wait =>
      exact ⟨nofun, nofun, Or.inl rfl, Or.inl rfl, fun _ h => Or.inr h, fun _ h => Or.inl h,
        fun _ h => absurd h List.not_mem_nil⟩
  | pushing wait handles =>
      have hpushed : ∀ x ∈ handles, x ∈ s.stopping ++ handles :=
        fun x hx => List.mem_append_right _ hx
      cases wait with
      | true =>
          exact ⟨nofun, nofun, Or.inl rfl, Or.inl rfl, fun _ h => Or.inl h,
            fun _ h => Or.inl (List.mem_append_left _ h),
            fun x hx => Or.inr (Or.inl (hpushed x hx))⟩
      | false =>
          exact ⟨nofun, nofun, Or.inl rfl, Or.inl rfl, fun _ h => Or.inl h,
            fun _ h => Or.inl (List.mem_append_left _ h),
            fun x hx => Or.inr (Or.inl (hpushed x hx))⟩
  | collecting =>
      exact ⟨nofun, nofun, Or.inl rfl, Or.inl rfl, fun _ h => Or.inl h, fun _ h => Or.inr h,
        fun _ h => absurd h List.not_mem_nil⟩
  | awaiting handles =>
      cases handles with
      | nil => exact .plain rfl rfl rfl (Or.inl rfl) rfl rfl rfl
      | cons handle rest =>
          unfold runTask
          dsimp only
          split
          · rename_i hfinished
            refine ⟨nofun, nofun, Or.inl rfl, Or.inl rfl, fun _ h => Or.inl h,
              fun _ h => Or.inl h, ?_⟩
            intro x hx
            rcases List.mem_cons.1 hx with rfl | hrest
            · exact Or.inl hfinished
            · exact Or.inr (Or.inr hrest)
          · exact ⟨nofun, nofun, Or.inl rfl, Or.inl rfl, fun _ h => Or.inl h, fun _ h => Or.inl h,
              fun _ h => Or.inr (Or.inr h)⟩
  | ended w => exact .plain rfl rfl rfl (Or.inl rfl) rfl rfl rfl
  | probing => exact .plain rfl rfl rfl (Or.inr (Or.inl rfl)) rfl rfl rfl
  | closing => exact .plain rfl rfl rfl (Or.inl rfl) rfl rfl rfl
  | flagging stops => exact .plain rfl rfl rfl (Or.inl rfl) rfl rfl rfl
  | disconnecting wait => exact .plain rfl rfl rfl (Or.inl rfl) rfl rfl rfl
  | refused w => exact .plain rfl rfl rfl (Or.inl rfl) rfl rfl rfl
  | released w => exact .plain rfl rfl rfl (Or.inl rfl) rfl rfl rfl
  | idle result => exact .plain rfl rfl rfl (Or.inl rfl) rfl rfl rfl
  | closed => exact .plain rfl rfl rfl (Or.inl rfl) rfl rfl rfl
  | stopped => exact .plain rfl rfl rfl (Or.inl rfl) rfl rfl rfl

variable {s : Sys} {e : Ev}

/-- A task after an event: as it was, new, or after its own step. -/
theorem task_step_cases {j : Nat} {u : Task} (h : (program.step s e).tasks[j]? = some u) :
    s.tasks[j]? = some u ∨ (∃ c, u = program.initial c) ∨
      ∃ c t, e = .run j c ∧ s.tasks[j]? = some t ∧ u = (runTask j c s.shared t).2 := by
  cases e with
  | call c =>
      rcases task_call_cases h with hold | ⟨-, hnew⟩
      · exact Or.inl hold
      · exact Or.inr (Or.inl ⟨c, hnew⟩)
  | run i c =>
      by_cases hj : j = i
      · subst hj
        cases ht : s.tasks[j]? with
        | none =>
            rw [step_run_none c ht] at h
            exact Or.inl (ht.symm.trans h)
        | some t =>
            rw [task_step_run c ht] at h
            exact Or.inr (Or.inr ⟨c, t, rfl, rfl, (Option.some.inj h).symm⟩)
      · rw [task_step_other c hj] at h
        exact Or.inl h
  | outside e => exact Or.inl h

theorem not_gotLock_initial (c : Call) : (program.initial c).gotLock = false := by
  cases c <;> rfl

theorem not_guarded_initial (c : Call) : (program.initial c).guarded = false := by
  cases c <;> rfl

theorem guarded_of_gotLock {t : Task} (h : t.gotLock = true) : t.guarded = false := by
  cases t <;> first | rfl | exact nomatch h

/-- Whoever has had the write guard raised the flag before. -/
theorem closed_of_gotLock {i : Nat} {sh : Shared} {t : Task} (hk : Knows i sh t)
    (h : t.gotLock = true) : sh.closed = true := by
  cases t with
  | exclusive stops => exact hk.1
  | waited stops => exact hk
  | _ => exact nomatch h

/-- Guarded work holds a read guard. -/
theorem mem_readers_of_guarded {i : Nat} {sh : Shared} {t : Task} (hk : Knows i sh t)
    (h : t.guarded = true) : i ∈ sh.readers := by
  cases t with
  | working w => exact hk
  | ended w => exact hk
  | _ => exact nomatch h

/-- **Step lemma**: work stays away once a `close_and_wait` has had the write guard. -/
theorem quiet_step (hs : Holds Sound Knows s) (h : Quiet s) (e : Ev) :
    Quiet (program.step s e) := by
  rintro ⟨t, ht, hgot⟩ u hu
  obtain ⟨i, hi⟩ := List.getElem?_of_mem ht
  obtain ⟨j, hj⟩ := List.getElem?_of_mem hu
  rw [Bool.eq_false_iff]
  intro hguarded
  -- the work was there before, or is let in now, while the flag is down
  have hwork : (∃ v, s.tasks[j]? = some v ∧ v.guarded = true) ∨
      s.shared.closed = false ∧ ∃ c, e = .run j c := by
    rcases task_step_cases hj with hold | ⟨c, rfl⟩ | ⟨c, v, he, hv, rfl⟩
    · exact Or.inl ⟨u, hold, hguarded⟩
    · exact absurd (not_guarded_initial c) (by rw [hguarded]; decide)
    · rcases (work_runTask j c s.shared v).guarded hguarded with hbefore | hopen
      · exact Or.inl ⟨v, hv, hbefore⟩
      · exact Or.inr ⟨hopen, c, he⟩
  -- the write guard was had before, or is had now, when no read guard is left
  have hlock : (∃ v, s.tasks[i]? = some v ∧ v.gotLock = true) ∨
      s.shared.readers = [] ∧ ∃ c, e = .run i c := by
    rcases task_step_cases hi with hold | ⟨c, rfl⟩ | ⟨c, v, he, hv, rfl⟩
    · exact Or.inl ⟨t, hold, hgot⟩
    · exact absurd (not_gotLock_initial c) (by rw [hgot]; decide)
    · rcases (work_runTask i c s.shared v).gotLock hgot with hbefore | hempty
      · exact Or.inl ⟨v, hv, hbefore⟩
      · exact Or.inr ⟨hempty, c, he⟩
  rcases hlock with ⟨v, hv, hgotBefore⟩ | ⟨hempty, c, he⟩
  · rcases hwork with ⟨w, hw, hguardedBefore⟩ | ⟨hopen, -⟩
    · have hquiet := h ⟨v, List.mem_of_getElem? hv, hgotBefore⟩ w (List.mem_of_getElem? hw)
      exact absurd hguardedBefore (by rw [hquiet]; decide)
    · have hclosed := closed_of_gotLock (hs.2 i v hv) hgotBefore
      exact absurd (hclosed.symm.trans hopen) (by decide)
  · rcases hwork with ⟨w, hw, hguardedBefore⟩ | ⟨-, c', he'⟩
    · have hmem := mem_readers_of_guarded (hs.2 j w hw) hguardedBefore
      rw [hempty] at hmem
      exact absurd hmem List.not_mem_nil
    · -- one task does not do both
      cases he.symm.trans he'
      cases Option.some.inj (hi.symm.trans hj)
      exact absurd (guarded_of_gotLock hgot) (by rw [hguarded]; decide)

/-- The invariants of a run. -/
theorem quiet_run (services : List Nat) (events : List Ev) :
    Holds Sound Knows (after (System.start (Shared.start services)) events) ∧
      Quiet (after (System.start (Shared.start services)) events) := by
  refine exec_invariant (I := fun s => Holds Sound Knows s ∧ Quiet s) ?_ ?_
    (guarded_true _ _ events)
  · exact fun s e h _ => ⟨lock_outline.step s e h.1 trivial, quiet_step h.1 h.2 e⟩
  · refine ⟨⟨⟨fun _ => rfl, fun _ => rfl⟩, fun i t ht => ?_⟩, ?_⟩
    · exact absurd ht (by simp [System.start])
    · rintro ⟨t, ht, -⟩
      exact absurd ht List.not_mem_nil

/-- A task that has returned from `close_and_wait` stays so. -/
theorem waited_stays {i : Nat} {stops : Bool} (h : s.tasks[i]? = some (.waited stops))
    (events : List Ev) : (after s events).tasks[i]? = some (.waited stops) := by
  refine exec_invariant (I := fun s : Sys => s.tasks[i]? = some (.waited stops)) ?_ h
    (guarded_true _ _ _)
  intro s e h _
  cases e with
  | call c => exact task_step_call c h
  | run j c =>
      by_cases hj : i = j
      · subst hj
        rw [task_step_run c h]
        rfl
      · rw [task_step_other c hj]
        exact h
  | outside e => exact h

/-- Where no work is guarded, no guarded work takes a step. -/
theorem steps_step (h : ∀ u ∈ s.tasks, u.guarded = false) (e : Ev) :
    (program.step s e).shared.steps = s.shared.steps := by
  cases e with
  | call c => rfl
  | outside e => rfl
  | run i c =>
      cases ht : s.tasks[i]? with
      | none => rw [step_run_none c ht]
      | some t =>
          rw [step_run c ht]
          rcases (work_runTask i c s.shared t).steps with hsame | hguarded
          · exact hsame
          · have hnone := h t (List.mem_of_getElem? ht)
            exact absurd hguarded (by rw [hnone]; decide)

end Work

/-! ## No service task outlives a `stop_and_wait` -/

/-- Every service task has finished, or a list or a call has its handle. -/
def Covered (services : List Nat) (s : Sys) : Prop :=
  ∀ x ∈ services, x ∈ s.shared.finished ∨ x ∈ s.shared.handles ∨ x ∈ s.shared.stopping ∨
    ∃ (i : Nat) (t : Task), s.tasks[i]? = some t ∧ x ∈ t.carried

/-- What a `stop_and_wait` knows of the service tasks. -/
def Awaits (services : List Nat) (s : Shared) : Task → Prop
  | .awaiting handles => ∀ x ∈ services, x ∈ s.finished ∨ x ∈ handles
  | .flagging true | .acquiring true | .queued true | .exclusive true | .waited true =>
      ∀ x ∈ services, x ∈ s.finished
  | _ => True

/-- Nobody else has handles of unfinished service tasks when a `stop_and_wait` takes the list of
stopping tasks: no other `stop` is between the two lists, no other `stop_and_wait` is waiting for
some of them. -/
def Alone (s : Sys) : Ev → Prop
  | .run i _ => s.tasks[i]? = some .collecting →
      ∀ t ∈ s.tasks, ∀ x ∈ t.carried, x ∈ s.shared.finished
  | _ => True

section Services

variable {services : List Nat} {s : Sys} {e : Ev}

theorem carried_initial (c : Call) : (program.initial c).carried = [] := by
  cases c <;> rfl

/-- **Step lemma**: no handle is lost. -/
theorem covered_step (h : Covered services s) (hs : Holds Sound Knows s) (e : Ev) :
    Covered services (program.step s e) := by
  intro x hx
  cases e with
  | outside e =>
      rcases h x hx with hfinished | hlists
      · exact Or.inl (List.mem_cons_of_mem _ hfinished)
      · exact Or.inr hlists
  | call c =>
      rcases h x hx with hfinished | hhandles | hstopping | ⟨i, t, ht, hcarried⟩
      · exact Or.inl hfinished
      · exact Or.inr (Or.inl hhandles)
      · exact Or.inr (Or.inr (Or.inl hstopping))
      · exact Or.inr (Or.inr (Or.inr ⟨i, t, task_step_call c ht, hcarried⟩))
  | run i c =>
      cases ht : s.tasks[i]? with
      | none =>
          rw [step_run_none c ht]
          exact h x hx
      | some t =>
          have hstep := work_runTask i c s.shared t
          have hkeeps := keeps_runTask (c := c) (hs.2 i t ht)
          have hafter := task_step_run (P := program) c ht
          rw [step_run c ht] at hafter ⊢
          change x ∈ (runTask i c s.shared t).1.finished ∨ x ∈ (runTask i c s.shared t).1.handles ∨
            x ∈ (runTask i c s.shared t).1.stopping ∨ _
          have hmine : x ∈ (runTask i c s.shared t).2.carried →
              ∃ (j : Nat) (u : Task),
                (s.tasks.set i (runTask i c s.shared t).2)[j]? = some u ∧ x ∈ u.carried :=
            fun hcarried => ⟨i, _, hafter, hcarried⟩
          rcases h x hx with hfinished | hhandles | hstopping | ⟨j, u, hu, hcarried⟩
          · exact Or.inl (hkeeps.finished x hfinished)
          · rcases hstep.handles x hhandles with hstays | htaken
            · exact Or.inr (Or.inl hstays)
            · exact Or.inr (Or.inr (Or.inr (hmine htaken)))
          · rcases hstep.stopping x hstopping with hstays | htaken
            · exact Or.inr (Or.inr (Or.inl hstays))
            · exact Or.inr (Or.inr (Or.inr (hmine htaken)))
          · by_cases hj : j = i
            · subst hj
              cases Option.some.inj (ht.symm.trans hu)
              rcases hstep.carried x hcarried with hfinished | hpushed | hstays
              · exact Or.inl hfinished
              · exact Or.inr (Or.inr (Or.inl hpushed))
              · exact Or.inr (Or.inr (Or.inr (hmine hstays)))
            · refine Or.inr (Or.inr (Or.inr ⟨j, u, ?_, hcarried⟩))
              exact (List.getElem?_set_ne (Ne.symm hj)).trans hu

/-- What a `stop_and_wait` knows stays true while service tasks finish. -/
theorem Awaits.mono {sh sh' : Shared} {t : Task} (h : Awaits services sh t)
    (hfinished : ∀ x ∈ sh.finished, x ∈ sh'.finished) : Awaits services sh' t := by
  have hall : (∀ x ∈ services, x ∈ sh.finished) → ∀ x ∈ services, x ∈ sh'.finished :=
    fun hdone x hx => hfinished x (hdone x hx)
  cases t with
  | awaiting handles => exact fun x hx => (h x hx).imp_left (hfinished x)
  | flagging stops =>
      cases stops with
      | true => exact hall h
      | false => trivial
  | acquiring stops =>
      cases stops with
      | true => exact hall h
      | false => trivial
  | queued stops =>
      cases stops with
      | true => exact hall h
      | false => trivial
  | exclusive stops =>
      cases stops with
      | true => exact hall h
      | false => trivial
  | waited stops =>
      cases stops with
      | true => exact hall h
      | false => trivial
  | _ => trivial

/-- A call's own step, other than taking the list. -/
theorem awaits_runTask {i : Nat} {c : Choice} {sh : Shared} {t : Task}
    (h : Awaits services sh t) (hkeeps : Keeps i sh (runTask i c sh t).1)
    (hother : t ≠ .collecting) :
    Awaits services (runTask i c sh t).1 (runTask i c sh t).2 := by
  have hall : (∀ x ∈ services, x ∈ sh.finished) →
      ∀ x ∈ services, x ∈ (runTask i c sh t).1.finished :=
    fun hdone x hx => hkeeps.finished x (hdone x hx)
  cases t with
  | awaiting handles =>
      cases handles with
      | nil => exact fun x hx => (h x hx).resolve_right List.not_mem_nil
      | cons handle rest =>
          unfold runTask
          dsimp only
          split
          · rename_i hfinished
            intro x hx
            rcases h x hx with hdone | hwaited
            · exact Or.inl hdone
            · rcases List.mem_cons.1 hwaited with rfl | hrest
              · exact Or.inl hfinished
              · exact Or.inr hrest
          · exact h
  | flagging stops =>
      cases stops with
      | true => exact hall h
      | false => trivial
  | acquiring stops =>
      unfold runTask
      dsimp only
      split
      · cases stops with
        | true => exact fun x hx => h x hx
        | false => trivial
      · cases stops with
        | true => exact fun x hx => h x hx
        | false => trivial
  | queued stops =>
      unfold runTask
      dsimp only
      split
      · cases stops with
        | true => exact fun x hx => h x hx
        | false => trivial
      · exact h
  | exclusive stops =>
      cases stops with
      | true => exact hall h
      | false => trivial
  | waited stops => exact h
  | holding w =>
      unfold runTask
      dsimp only
      split
      · trivial
      · trivial
  | checking w =>
      unfold runTask
      dsimp only
      split
      · trivial
      · trivial
  | working w =>
      change Awaits services (runWork w c sh).1 (runWork w c sh).2
      rcases (runWork_cases w c sh).2 with ht | ht
      · rw [ht]
        trivial
      · rw [ht]
        trivial
  | idling =>
      unfold runTask
      dsimp only
      split
      · trivial
      · trivial
  | pushing wait handles =>
      cases wait with
      | true => trivial
      | false => trivial
  | collecting => exact absurd rfl hother
  | ended w => trivial
  | probing => trivial
  | closing => trivial
  | disconnecting wait => trivial
  | taking wait => trivial
  | refused w => trivial
  | released w => trivial
  | idle result => trivial
  | closed => trivial
  | stopped => trivial

/-- **Run lemma**: a `stop_and_wait` that has returned has waited for every service task, in a run
in which each one that takes the list is alone. -/
theorem awaits_run (services : List Nat) (events : List Ev)
    (h : Guarded program.step Alone (System.start (Shared.start services)) events) :
    let s := after (System.start (Shared.start services)) events
    ∀ (i : Nat) (t : Task), s.tasks[i]? = some t → Awaits services s.shared t := by
  let I (s : Sys) : Prop := Holds Sound Knows s ∧ Covered services s ∧
    ∀ (i : Nat) (t : Task), s.tasks[i]? = some t → Awaits services s.shared t
  have hrun : I (after (System.start (Shared.start services)) events) := by
    refine exec_invariant ?_ ?_ h
    · rintro s e ⟨hs, hcovered, hawaits⟩ halone
      refine ⟨lock_outline.step s e hs trivial, covered_step hcovered hs e, fun j u hu => ?_⟩
      cases e with
      | outside e =>
          exact (hawaits j u hu).mono fun x hx => List.mem_cons_of_mem _ hx
      | call c =>
          rcases task_call_cases hu with hold | ⟨-, rfl⟩
          · exact hawaits j u hold
          · cases c <;> trivial
      | run i c =>
          cases ht : s.tasks[i]? with
          | none =>
              rw [step_run_none c ht] at hu ⊢
              exact hawaits j u hu
          | some t =>
              have hkeeps := keeps_runTask (c := c) (hs.2 i t ht)
              by_cases hj : j = i
              · subst hj
                rw [task_step_run c ht] at hu
                rw [step_run c ht]
                cases Option.some.inj hu
                by_cases hcollecting : t = .collecting
                · -- every handle of an unfinished task is on the list that is taken
                  subst hcollecting
                  intro x hx
                  have hempty : s.shared.handles = [] := hs.2 j _ ht
                  rcases hcovered x hx with hfinished | hhandles | hstopping | ⟨k, v, hv, hcarried⟩
                  · exact Or.inl hfinished
                  · rw [hempty] at hhandles
                    exact absurd hhandles List.not_mem_nil
                  · exact Or.inr hstopping
                  · exact Or.inl (halone ht v (List.mem_of_getElem? hv) x hcarried)
                · exact awaits_runTask (hawaits j t ht) hkeeps hcollecting
              · rw [task_step_other c hj] at hu
                rw [step_run c ht]
                exact (hawaits j u hu).mono hkeeps.finished
    · refine ⟨⟨⟨fun _ => rfl, fun _ => rfl⟩, fun i t ht => ?_⟩, fun x hx => Or.inr (Or.inl hx), ?_⟩
      · exact absurd ht (by simp [System.start])
      · exact fun i t ht => absurd ht (by simp [System.start])
  exact hrun.2.2

end Services

/-! ## Guards before the first close -/

section Open

/-- Whoever holds the write guard is in `is_idle` or `close_and_wait`. -/
theorem writer_run (services : List Nat) (events : List Ev) (i : Nat) :
    let s := after (System.start (Shared.start services)) events
    s.shared.writer = some i → ∃ t, s.tasks[i]? = some t ∧ t.holdsWrite = true := by
  let I (s : Sys) : Prop := Holds Sound Knows s ∧
    (s.shared.writer = some i → ∃ t, s.tasks[i]? = some t ∧ t.holdsWrite = true)
  have hrun : I (after (System.start (Shared.start services)) events) := by
    refine exec_invariant ?_ ?_ (guarded_true _ _ events)
    · rintro s e ⟨hs, hwriter⟩ -
      have hnext := lock_outline.step s e hs trivial
      refine ⟨hnext, fun hheld => ?_⟩
      cases e with
      | outside e => exact hwriter hheld
      | call c =>
          obtain ⟨t, ht, hholds⟩ := hwriter hheld
          exact ⟨t, task_step_call c ht, hholds⟩
      | run j c =>
          cases ht : s.tasks[j]? with
          | none =>
              rw [step_run_none c ht] at hheld ⊢
              exact hwriter hheld
          | some t =>
              have hafter := task_step_run (P := program) c ht
              have hheld' : (runTask j c s.shared t).1.writer = some i := by
                rw [step_run c ht] at hheld
                exact hheld
              rcases (work_runTask j c s.shared t).writer with hsame | hnone | htaken
              · obtain ⟨u, hu, hholds⟩ := hwriter (hsame ▸ hheld')
                by_cases hj : i = j
                · -- the holder's own step drops the guard
                  subst hj
                  cases Option.some.inj (ht.symm.trans hu)
                  cases t with
                  | probing => exact nomatch hheld'
                  | exclusive stops => exact nomatch hheld'
                  | _ => exact nomatch hholds
                · exact ⟨u, (task_step_other c hj).trans hu, hholds⟩
              · exact nomatch hnone.symm.trans hheld'
              · have hmine : (runTask j c s.shared t).1.writer = some j := by
                  have hknows := hnext.2 j _ hafter
                  rw [step_run c ht] at hknows
                  change Knows j (runTask j c s.shared t).1 (runTask j c s.shared t).2 at hknows
                  revert hknows htaken
                  cases (runTask j c s.shared t).2 with
                  | probing => exact fun _ h => h
                  | exclusive stops => exact fun _ h => h.2
                  | _ => exact fun h => nomatch h
                cases Option.some.inj (hmine.symm.trans hheld')
                exact ⟨_, hafter, htaken⟩
    · exact ⟨⟨⟨fun _ => rfl, fun _ => rfl⟩, fun _ _ ht => absurd ht (by simp [System.start])⟩,
        nofun⟩
  exact hrun.2

end Open

/-! ## Shutdown -/

/-- **No work outlives shutdown.** Once a `close_and_wait` has returned no work is guarded and none
takes a step any more; once a `stop_and_wait` has returned every service task has finished, if
each one that takes the list of stopping tasks is alone; and while the flag is down a `hold` gets
its guard, unless an `is_idle` or `close_and_wait` has the lock. -/
theorem no_work_outlives_shutdown (services : List Nat) (events : List Ev) :
    let start := System.start (Shared.start services)
    let s := after start events
    ((∃ stops, .waited stops ∈ s.tasks) → ∀ later,
      (∀ u ∈ (after s later).tasks, u.guarded = false) ∧
        (after s later).shared.steps = s.shared.steps) ∧
    (Guarded program.step Alone start events → .waited true ∈ s.tasks →
      ∀ x ∈ services, x ∈ s.shared.finished) ∧
    (s.shared.closed = false → ∀ (i : Nat) (w : Work) (c : Choice),
      (s.tasks[i]? = some (.holding w) →
        (program.step s (.run i c)).tasks[i]? = some (.checking w) ∨
          ∃ t ∈ s.tasks, t.holdsWrite = true) ∧
      (s.tasks[i]? = some (.checking w) →
        (program.step s (.run i c)).tasks[i]? = some (.working w))) := by
  intro start s
  have hs := quiet_run services events
  refine ⟨?_, ?_, ?_⟩
  · rintro ⟨stops, hmem⟩ later
    obtain ⟨i, hi⟩ := List.getElem?_of_mem hmem
    have hquiet : ∀ rest, ∀ u ∈ (after s rest).tasks, u.guarded = false := by
      intro rest
      have hrun := (quiet_run services (events ++ rest)).2
      rw [after, exec_append] at hrun
      exact hrun ⟨_, List.mem_of_getElem? (waited_stays hi rest), rfl⟩
    refine ⟨hquiet later, ?_⟩
    -- no guarded work is left to take a step
    induction later using List.reverseRecOn with
    | nil => rfl
    | append_singleton later e ih =>
        rw [after, exec_append]
        exact (steps_step (hquiet later) e).trans ih
  · intro halone hmem
    obtain ⟨i, hi⟩ := List.getElem?_of_mem hmem
    exact awaits_run services events halone i _ hi
  · intro hopen i w c
    refine ⟨fun hi => ?_, fun hi => ?_⟩
    · have hqueue : s.shared.queue = [] := hs.1.1.queue hopen
      cases hwriter : s.shared.writer with
      | none =>
          left
          have hafter := task_step_run (P := program) c hi
          change _ = some (runTask i c s.shared (.holding w)).2 at hafter
          unfold runTask at hafter
          dsimp only at hafter
          rw [if_pos (canRead_iff.2 ⟨hwriter, hqueue⟩)] at hafter
          exact hafter
      | some k =>
          right
          obtain ⟨t, ht, hholds⟩ := writer_run services events k hwriter
          exact ⟨t, List.mem_of_getElem? ht, hholds⟩
    · have hafter := task_step_run (P := program) c hi
      change _ = some (runTask i c s.shared (.checking w)).2 at hafter
      unfold runTask at hafter
      dsimp only at hafter
      rw [if_neg (by rw [hopen]; decide)] at hafter
      exact hafter

/-! ## Concrete stops -/

/-- The task `i` takes `n` steps. -/
def steps (i n : Nat) : List Ev := List.replicate n (.run i .poll)

/-- A single `stop_and_wait`, whose service ends while it waits. -/
def stopsAlone : List Ev :=
  .call .stopAndWait :: steps 0 4 ++ .outside ⟨0⟩ :: steps 0 5

theorem alone_of_not_collecting {s : Sys} {i : Nat} {c : Choice}
    (h : s.tasks[i]? ≠ some .collecting) : Alone s (.run i c) :=
  fun hcollecting => absurd hcollecting h

/-- It returns when the service has finished. -/
theorem no_work_outlives_shutdown_alone :
    let s := after (System.start (Shared.start [0])) stopsAlone
    (∀ later, (∀ u ∈ (after s later).tasks, u.guarded = false) ∧
      (after s later).shared.steps = s.shared.steps) ∧ ∀ x ∈ [0], x ∈ s.shared.finished := by
  intro s
  have hmem : .waited true ∈ s.tasks := List.mem_of_getElem? (i := 0) rfl
  have halone : Guarded program.step Alone (System.start (Shared.start [0])) stopsAlone := by
    refine ⟨trivial, ?_, ?_, ?_, fun _ => ?_, trivial, ?_, ?_, ?_, ?_, ?_, trivial⟩
    case refine_4 =>
      intro t ht x hx
      cases List.mem_singleton.1 ht
      exact absurd hx List.not_mem_nil
    all_goals exact alone_of_not_collecting (by decide)
  have h := no_work_outlives_shutdown [0] stopsAlone
  exact ⟨h.1 ⟨true, hmem⟩, h.2.1 halone hmem⟩

/-- Two calls of `stop_and_wait`: the first one takes the handle, the second one finds none. -/
def stopsTwice : List Ev :=
  .call .stopAndWait :: .call .stopAndWait :: steps 0 4 ++ steps 1 8

/-- The second call returns while the service task is still there. -/
theorem second_stop_waits_for_nothing :
    let s := after (System.start (Shared.start [0])) stopsTwice
    .waited true ∈ s.tasks ∧ 0 ∉ s.shared.finished := by
  refine ⟨List.mem_of_getElem? (i := 1) rfl, ?_⟩
  exact List.not_mem_nil

end AsterBridge.Shutdown
