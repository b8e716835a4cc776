import AsterBridge.Lib.Runs

/-!
# Keepalives on a busy connection

`imap/heartbeat.rs`: a `HeartbeatWriter` hands its bytes to a pump over a queue, and the pump writes
`HEARTBEAT_LINE` when its timer fires while the connection is armed. The caller makes one call after
another; a step of the model is one access of a call, or of the pump, to what they share.

The inner writer takes every write. `write_all` on it is one step, since only the pump holds it. A
call of the caller is polled once; a flush that was answered `Pending` may be polled again later, or
be abandoned.
-/

set_option autoImplicit false

namespace AsterBridge.Imap.Heartbeat

open AsterBridge.Lib.Runs

/-- A byte on the connection. -/
abbrev Byte := UInt8

/-- `HEARTBEAT_LINE` -/
def HEARTBEAT_LINE : List Byte := "* OK still working\r\n".toList.map fun c => c.toNat.toUInt8

/-- `MAX_QUEUED_BYTES` -/
def MAX_QUEUED_BYTES : Nat := 1024 * 1024

/-- `COALESCE_BYTES` -/
def COALESCE_BYTES : Nat := 64 * 1024

/-! ## What the pump writes to -/

/-- `PumpMessage`. The sender of an acknowledgement is named by the number of flushes requested
before it. -/
inductive PumpMessage where
  | bytes (b : List Byte)
  | flush (ack : Nat)
  | wake
deriving DecidableEq

/-- The bytes of a message that go to the inner writer. -/
def PumpMessage.data : PumpMessage → List Byte
  | .bytes b => b
  | .flush _ | .wake => []

/-- One `write_all` on the inner writer. -/
inductive Item where
  | data (b : List Byte)
  | line
deriving DecidableEq

/-- The bytes of a write that come from the caller. -/
def Item.payload : Item → List Byte
  | .data b => b
  | .line => []

/-- The bytes of a write. -/
def Item.raw : Item → List Byte
  | .data b => b
  | .line => HEARTBEAT_LINE

/-- The inner writer: the writes it took, and how many of the caller's bytes were flushed. -/
structure Inner where
  received : List Item
  flushed : Nat

namespace Inner

/-- The bytes of the caller that were written. -/
def written (w : Inner) : List Byte := w.received.flatMap Item.payload

/-- `write_all` -/
def write (w : Inner) (i : Item) : Inner := { w with received := w.received ++ [i] }

/-- `flush` -/
def flush (w : Inner) : Inner := { w with flushed := w.written.length }

@[simp] theorem written_data (w : Inner) (b : List Byte) :
    (w.write (.data b)).written = w.written ++ b := by
  simp [written, write, Item.payload]

@[simp] theorem written_line (w : Inner) : (w.write .line).written = w.written := by
  simp [written, write, Item.payload]

@[simp] theorem written_flush (w : Inner) : w.flush.written = w.written := rfl

@[simp] theorem flushed_write (w : Inner) (i : Item) : (w.write i).flushed = w.flushed := rfl

@[simp] theorem flushed_flush (w : Inner) : w.flush.flushed = w.written.length := rfl

@[simp] theorem received_flush (w : Inner) : w.flush.received = w.received := rfl

end Inner

/-- For each keepalive the number of the caller's bytes before it. -/
def positions (items : List Item) : List Nat := go 0 items
where
  go : Nat → List Item → List Nat
    | _, [] => []
    | n, .data b :: rest => go (n + b.length) rest
    | n, .line :: rest => n :: go n rest

/-! ## The two parties -/

/-- What the last call returned. -/
inductive Answer where
  | none
  | pending
  | wrote (n : Nat)
  | flushed
  | failed
deriving DecidableEq

/-- Where the caller is. -/
inductive Caller where
  | idle (last : Answer)
  /-- `poll_write` before it loads `queued` -/
  | checking (buf : List Byte)
  /-- `poll_write` with its waker registered -/
  | rechecking (buf : List Byte)
  /-- `poll_write` before it lowers `armed` -/
  | lowering (buf : List Byte)
  | counting (buf : List Byte)
  | sending (buf : List Byte)
  /-- `poll_write` after a failed send -/
  | uncounting (buf : List Byte)
  /-- `poll_flush` before it looks at `pending_flush` -/
  | requesting
  /-- `poll_flush` before it polls the receiver -/
  | polling
  /-- `poll_flush` with the answer, before it raises `armed` -/
  | rearming
  | arming
  | waking
  | disarming
  | reclaiming
  /-- `reclaim` has returned the inner writer -/
  | reclaimed
deriving DecidableEq

/-- The bytes that are counted in `queued` and not sent. -/
def Caller.counted : Caller → List Byte
  | .sending buf | .uncounting buf => buf
  | _ => []

/-- Where the pump is. -/
inductive Pump where
  | selecting
  /-- the timer fired, `armed` is not read yet -/
  | fired
  /-- before it writes the keepalive; it carries the number of bytes accepted when it found the flag
  up, which no step reads -/
  | beating (accepted : Nat)
  | beatFlushing
  | coalescing (b : List Byte)
  | writing (b : List Byte)
  /-- `n` bytes are written and still counted -/
  | draining (n : Nat)
  | flushing (ack : Nat)
  | acking (ack : Nat)
  | ending
  | done
deriving DecidableEq

namespace Pump

/-- The message the pump has taken. -/
def inflight : Pump → List PumpMessage
  | .coalescing b | .writing b => [.bytes b]
  | .flushing ack => [.flush ack]
  | _ => []

/-- The bytes that are written and still counted in `queued`. -/
def undrained : Pump → Nat
  | .draining n => n
  | _ => 0

/-- The pump has left its loop. -/
def isOver : Pump → Bool
  | .ending | .done => true
  | _ => false

/-- The arms of the `match` on a received message. -/
def handle : PumpMessage → Pump
  | .bytes b => .coalescing b
  | .flush ack => .flushing ack
  | .wake => .selecting

end Pump

/-- The writer and its pump. The last four fields are history. -/
structure State where
  caller : Caller
  /-- `tx` is `Some` -/
  tx : Bool
  commandActive : Bool
  pendingFlush : Option Nat
  queued : Int
  armed : Bool
  queue : List PumpMessage
  /-- the acknowledgements that were sent -/
  acks : List Nat
  pump : Pump
  held : Option PumpMessage
  inner : Inner
  accepted : List Byte
  /-- for each flush the number of bytes accepted when it was requested -/
  requests : List Nat
  /-- the number of bytes accepted at each `arm` and at each flush that covered them all -/
  marks : List Nat
  /-- for each keepalive the number of bytes accepted when the pump found the flag up -/
  decided : List Nat

/-- `HeartbeatWriter::new` -/
def State.new : State where
  caller := .idle .none
  tx := true
  commandActive := false
  pendingFlush := none
  queued := 0
  armed := false
  queue := []
  acks := []
  pump := .selecting
  held := none
  inner := ⟨[], 0⟩
  accepted := []
  requests := []
  marks := []
  decided := []

namespace State

/-- The messages between the caller and the inner writer, in order. -/
def pipe (s : State) : List PumpMessage := s.pump.inflight ++ (s.held.toList ++ s.queue)

/-- The receiver is closed: `tx.is_closed`, and a send fails. -/
def closed (s : State) : Bool := s.pump = .done

end State

/-! ## Steps of the caller -/

/-- The calls. `poll_shutdown` is `poll_flush`. -/
inductive Call where
  | pollWrite (buf : List Byte)
  | pollFlush
  | arm
  | disarm
  | reclaim
deriving DecidableEq

/-- A call begins. Only calls read and write `command_active` and `tx`. -/
def begin (s : State) : Call → State
  | .pollWrite buf => { s with caller := .checking buf }
  | .pollFlush => { s with caller := .requesting }
  | .arm =>
      { s with
        commandActive := true
        marks := s.accepted.length :: s.marks
        caller := .arming }
  | .disarm => { s with commandActive := false, caller := .disarming }
  | .reclaim => { s with tx := false, caller := .reclaiming }

/-- The caller begins a call if it is not in one. -/
def call (c : Call) (s : State) : State :=
  match s.caller with
  | .idle _ => begin s c
  | _ => s

/-- The flush that the caller has polled was acknowledged. -/
def takeAck (s : State) : State :=
  { s with
    pendingFlush := none
    marks := if s.inner.flushed = s.accepted.length then s.accepted.length :: s.marks else s.marks
    caller := if s.commandActive then .rearming else .idle .flushed }

/-- The next step of the caller's call. -/
def callerStep (s : State) : State :=
  match s.caller with
  | .idle _ | .reclaimed => s
  | .checking buf =>
      if (MAX_QUEUED_BYTES : Int) ≤ s.queued then { s with caller := .rechecking buf }
      else { s with caller := .lowering buf }
  | .rechecking buf =>
      if (s.tx && !s.closed) = true ∧ (MAX_QUEUED_BYTES : Int) ≤ s.queued then
        { s with caller := .idle .pending }
      else { s with caller := .lowering buf }
  | .lowering buf => { s with armed := false, caller := .counting buf }
  | .counting buf => { s with queued := s.queued + buf.length, caller := .sending buf }
  | .sending buf =>
      if (s.tx && !s.closed) = true then
        { s with
          queue := s.queue ++ [.bytes buf]
          accepted := s.accepted ++ buf
          caller := .idle (.wrote buf.length) }
      else { s with caller := .uncounting buf }
  | .uncounting buf => { s with queued := s.queued - buf.length, caller := .idle .failed }
  | .requesting =>
      match s.pendingFlush with
      | some _ => { s with caller := .polling }
      | none =>
          if (s.tx && !s.closed) = true then
            { s with
              queue := s.queue ++ [.flush s.requests.length]
              pendingFlush := some s.requests.length
              requests := s.requests ++ [s.accepted.length]
              caller := .polling }
          else { s with caller := .idle .failed }
  | .polling =>
      match s.pendingFlush with
      | none => s
      | some ack =>
          if ack ∈ s.acks then takeAck s
          -- the pump is gone and has dropped the sender
          else if s.closed then { s with pendingFlush := none, caller := .idle .failed }
          else { s with caller := .idle .pending }
  | .rearming => { s with armed := true, caller := .idle .flushed }
  | .arming => { s with armed := true, caller := .waking }
  | .waking =>
      { s with
        queue := if (s.tx && !s.closed) = true then s.queue ++ [.wake] else s.queue
        caller := .idle .none }
  | .disarming => { s with armed := false, caller := .idle .none }
  | .reclaiming => if s.pump = .done then { s with caller := .reclaimed } else s

/-! ## Steps of the pump -/

/-- The branch that `select!` takes. -/
inductive Branch where
  | recv
  | timer
deriving DecidableEq

/-- The next step of the pump. -/
def pumpStep (b : Branch) (s : State) : State :=
  match s.pump with
  | .selecting =>
      match s.held with
      | some m => { s with held := none, pump := .handle m }
      | none =>
          match b with
          | .timer => { s with pump := .fired }
          | .recv =>
              match s.queue with
              | m :: queue => { s with queue := queue, pump := .handle m }
              | [] => if s.tx then s else { s with pump := .ending }
  | .fired =>
      if s.armed then { s with pump := .beating s.accepted.length }
      else { s with pump := .selecting }
  | .beating n =>
      { s with
        inner := s.inner.write .line
        decided := s.decided ++ [n]
        pump := .beatFlushing }
  | .beatFlushing => { s with inner := s.inner.flush, pump := .selecting }
  | .coalescing b =>
      if b.length < COALESCE_BYTES then
        match s.queue with
        | [] => { s with pump := .writing b }
        | m :: queue =>
            match m with
            | .bytes more =>
                if b.length + more.length ≤ COALESCE_BYTES then
                  { s with queue := queue, pump := .coalescing (b ++ more) }
                else { s with queue := queue, held := some (.bytes more), pump := .writing b }
            | other => { s with queue := queue, held := some other, pump := .writing b }
      else { s with pump := .writing b }
  | .writing b => { s with inner := s.inner.write (.data b), pump := .draining b.length }
  | .draining n => { s with queued := s.queued - n, pump := .selecting }
  | .flushing ack => { s with inner := s.inner.flush, pump := .acking ack }
  | .acking ack => { s with acks := ack :: s.acks, pump := .selecting }
  | .ending => { s with pump := .done }
  | .done => s

/-- A step of the connection. -/
inductive Action where
  | call (c : Call)
  | caller
  | pump (b : Branch)
deriving DecidableEq

/-- The caller begins a call or goes on with one, or the pump goes on. -/
def step (s : State) : Action → State
  | .call c => call c s
  | .caller => callerStep s
  | .pump b => pumpStep b s

/-! ## What is on its way -/

/-- The bytes in a list of messages. -/
def payload (messages : List PumpMessage) : List Byte := messages.flatMap PumpMessage.data

@[simp] theorem payload_nil : payload [] = [] := rfl

@[simp] theorem payload_cons (m : PumpMessage) (messages : List PumpMessage) :
    payload (m :: messages) = m.data ++ payload messages := rfl

@[simp] theorem payload_append (ms ns : List PumpMessage) :
    payload (ms ++ ns) = payload ms ++ payload ns := List.flatMap_append

/-- The flush `ack` covers no more than the first `n` bytes. -/
def Answered (requests : List Nat) (n ack : Nat) : Prop :=
  ∃ r, requests[ack]? = some r ∧ r ≤ n

theorem Answered.mono {requests : List Nat} {n m ack : Nat} (h : Answered requests n ack)
    (hle : n ≤ m) : Answered requests m ack := by
  obtain ⟨r, hr, hrn⟩ := h
  exact ⟨r, hr, Nat.le_trans hrn hle⟩

theorem Answered.append {requests : List Nat} {n ack : Nat} (h : Answered requests n ack)
    (r : Nat) : Answered (requests ++ [r]) n ack := by
  obtain ⟨q, hq, hqn⟩ := h
  refine ⟨q, ?_, hqn⟩
  rw [List.getElem?_append_left (List.getElem?_eq_some_iff.1 hq).1]
  exact hq

/-- Behind `n` bytes, each flush of a list of messages covers only bytes before it. -/
def Covered (requests : List Nat) : Nat → List PumpMessage → Prop
  | _, [] => True
  | n, m :: rest =>
      (∀ ack, m = .flush ack → Answered requests n ack) ∧
        Covered requests (n + m.data.length) rest

theorem covered_append {requests : List Nat} {n : Nat} {ms ns : List PumpMessage} :
    Covered requests n (ms ++ ns) ↔
      Covered requests n ms ∧ Covered requests (n + (payload ms).length) ns := by
  induction ms generalizing n with
  | nil => simp [Covered]
  | cons m ms ih =>
      simp only [List.cons_append, Covered, ih, payload_cons, List.length_append, and_assoc,
        Nat.add_assoc]

theorem Covered.append_request {requests : List Nat} {n : Nat} {ms : List PumpMessage}
    (h : Covered requests n ms) (r : Nat) : Covered (requests ++ [r]) n ms := by
  induction ms generalizing n with
  | nil => trivial
  | cons m ms ih => exact ⟨fun ack hm => (h.1 ack hm).append r, ih h.2⟩

/-- Two messages of bytes in one. -/
theorem covered_merge {requests : List Nat} {n : Nat} {b more : List Byte}
    {rest : List PumpMessage}
    (h : Covered requests n (.bytes b :: .bytes more :: rest)) :
    Covered requests n (.bytes (b ++ more) :: rest) := by
  refine ⟨nofun, ?_⟩
  have hrest := h.2.2
  simp only [PumpMessage.data, List.length_append] at hrest ⊢
  rwa [← Nat.add_assoc]

/-- A message that the pump takes and that it need not write is one it passes over. -/
theorem payload_handle (m : PumpMessage) (rest : List PumpMessage) :
    payload ((Pump.handle m).inflight ++ rest) = payload (m :: rest) := by
  cases m <;> rfl

theorem covered_handle {requests : List Nat} {n : Nat} {m : PumpMessage}
    {rest : List PumpMessage} (h : Covered requests n (m :: rest)) :
    Covered requests n ((Pump.handle m).inflight ++ rest) := by
  cases m with
  | bytes b => exact h
  | flush ack => exact h
  | wake => exact h.2

@[simp] theorem undrained_handle (m : PumpMessage) : (Pump.handle m).undrained = 0 := by
  cases m <;> rfl

@[simp] theorem isOver_handle (m : PumpMessage) : (Pump.handle m).isOver = false := by
  cases m <;> rfl

theorem positions_go_append (n : Nat) (xs ys : List Item) :
    positions.go n (xs ++ ys) =
      positions.go n xs ++ positions.go (n + (xs.flatMap Item.payload).length) ys := by
  induction xs generalizing n with
  | nil => rfl
  | cons x xs ih =>
      cases x with
      | data b =>
          simp only [List.cons_append, positions.go, ih, List.flatMap_cons, Item.payload,
            List.length_append, Nat.add_assoc]
      | line => simp only [List.cons_append, positions.go, ih, List.flatMap_cons, Item.payload,
            List.nil_append]

@[simp] theorem positions_data (w : Inner) (b : List Byte) :
    positions (w.write (.data b)).received = positions w.received := by
  change positions.go 0 (w.received ++ [_]) = _
  rw [positions_go_append]
  exact List.append_nil _

@[simp] theorem positions_line (w : Inner) :
    positions (w.write .line).received = positions w.received ++ [w.written.length] := by
  change positions.go 0 (w.received ++ [_]) = _
  rw [positions_go_append, Nat.zero_add]
  rfl

/-! ## The stream -/

/-- `reclaim` has been called. -/
def Caller.gone : Caller → Bool
  | .reclaiming | .reclaimed => true
  | _ => false

/-- What holds whatever the caller does: every accepted byte is written or on its way, in order, the
backlog counts it, and each flush is answered after the bytes it covers. -/
structure Sound (s : State) : Prop where
  flow : s.accepted = s.inner.written ++ payload s.pipe
  one : ∀ b, s.pump = .coalescing b → s.held = none
  count : s.queued = ((payload s.pipe).length + s.caller.counted.length + s.pump.undrained : Nat)
  covered : Covered s.requests s.inner.written.length s.pipe
  acking : ∀ ack, s.pump = .acking ack → Answered s.requests s.inner.flushed ack
  acked : ∀ ack ∈ s.acks, Answered s.requests s.inner.flushed ack
  flushed : s.inner.flushed ≤ s.inner.written.length
  lines : List.Forall₂ (· ≤ ·) (positions s.inner.received) s.decided
  beating : ∀ n, s.pump = .beating n → s.inner.written.length ≤ n
  ended : s.pump.isOver = true → s.pipe = [] ∧ s.tx = false
  gone : s.tx = false ↔ s.caller.gone = true
  reclaimed : s.caller = .reclaimed → s.pump = .done

/-- What a step of the caller that sends nothing leaves as it is. -/
theorem Sound.caller_quiet {s s' : State} (h : Sound s) (haccepted : s'.accepted = s.accepted)
    (hinner : s'.inner = s.inner) (hpump : s'.pump = s.pump) (hheld : s'.held = s.held)
    (hqueue : s'.queue = s.queue) (hrequests : s'.requests = s.requests) (hacks : s'.acks = s.acks)
    (hdecided : s'.decided = s.decided) (htx : s'.tx = s.tx)
    (hgone : s'.caller.gone = s.caller.gone) (hcaller : s'.caller = .reclaimed → s.pump = .done)
    (hcount : s'.queued + s.caller.counted.length = s.queued + s'.caller.counted.length) :
    Sound s' := by
  have hpipe : s'.pipe = s.pipe := by rw [State.pipe, State.pipe, hpump, hheld, hqueue]
  constructor
  case flow => rw [haccepted, hinner, hpipe]; exact h.flow
  case one => rw [hpump, hheld]; exact h.one
  case count =>
    have := h.count
    rw [hpipe, hpump]
    omega
  case covered => rw [hrequests, hinner, hpipe]; exact h.covered
  case acking => rw [hpump, hrequests, hinner]; exact h.acking
  case acked => rw [hacks, hrequests, hinner]; exact h.acked
  case flushed => rw [hinner]; exact h.flushed
  case lines => rw [hinner, hdecided]; exact h.lines
  case beating => rw [hpump, hinner]; exact h.beating
  case ended => rw [hpump, hpipe, htx]; exact h.ended
  case gone => rw [htx, hgone]; exact h.gone
  case reclaimed => rw [hpump]; exact hcaller

/-- A step of the caller that sends a message. -/
theorem Sound.caller_send {s s' : State} (h : Sound s) (m : PumpMessage)
    (hqueue : s'.queue = s.queue ++ [m]) (haccepted : s'.accepted = s.accepted ++ m.data)
    (hm : ∀ ack, m = .flush ack → Answered s'.requests s.accepted.length ack)
    (hrequests : s'.requests = s.requests ∨ ∃ r, s'.requests = s.requests ++ [r])
    (hinner : s'.inner = s.inner) (hpump : s'.pump = s.pump) (hheld : s'.held = s.held)
    (hacks : s'.acks = s.acks) (hdecided : s'.decided = s.decided) (htx : s'.tx = s.tx)
    (hopen : s.tx = true) (hgone : s'.caller.gone = false)
    (hcount : s'.queued + s.caller.counted.length =
      s.queued + m.data.length + s'.caller.counted.length) :
    Sound s' := by
  have hpipe : s'.pipe = s.pipe ++ [m] := by
    simp only [State.pipe, hpump, hheld, hqueue, List.append_assoc]
  have hgrow : ∀ {n ack}, Answered s.requests n ack → Answered s'.requests n ack := by
    intro n ack hanswered
    rcases hrequests with hsame | ⟨r, hr⟩
    · rwa [hsame]
    · rw [hr]
      exact hanswered.append r
  have hcovers : ∀ {n ms}, Covered s.requests n ms → Covered s'.requests n ms := by
    intro n ms hcovered
    rcases hrequests with hsame | ⟨r, hr⟩
    · rwa [hsame]
    · rw [hr]
      exact hcovered.append_request r
  constructor
  case flow =>
    rw [haccepted, hinner, hpipe, payload_append, ← List.append_assoc, ← h.flow]
    simp
  case one => rw [hpump, hheld]; exact h.one
  case count =>
    have := h.count
    simp only [hpipe, hpump, payload_append, payload_cons, payload_nil, List.append_nil,
      List.length_append]
    omega
  case covered =>
    rw [hinner, hpipe, covered_append]
    refine ⟨hcovers h.covered, fun ack hack => ?_, trivial⟩
    have hlength := congrArg List.length h.flow
    rw [List.length_append] at hlength
    rw [← hlength]
    exact hm ack hack
  case acking =>
    intro ack hack
    rw [hinner]
    exact hgrow (h.acking ack (hpump ▸ hack))
  case acked =>
    intro ack hack
    rw [hinner]
    exact hgrow (h.acked ack (hacks ▸ hack))
  case flushed => rw [hinner]; exact h.flushed
  case lines => rw [hinner, hdecided]; exact h.lines
  case beating => rw [hpump, hinner]; exact h.beating
  case ended =>
    intro hover
    rw [hpump] at hover
    exact nomatch hopen.symm.trans (h.ended hover).2
  case gone =>
    rw [htx, hgone, hopen]
    exact ⟨fun h => h.symm, fun h => h.symm⟩
  case reclaimed =>
    intro hcaller
    rw [hcaller] at hgone
    exact nomatch hgone

theorem Sound.begin {s : State} (h : Sound s) {last : Answer} (hidle : s.caller = .idle last)
    (c : Call) : Sound (begin s c) := by
  have hcounted : s.caller.counted = [] := by rw [hidle]; rfl
  have hgone : s.caller.gone = false := by rw [hidle]; rfl
  cases c with
  | reclaim =>
      have hopen : s.tx = true := by
        cases htx : s.tx with
        | true => rfl
        | false => exact nomatch hgone.symm.trans (h.gone.1 htx)
      constructor
      case flow => exact h.flow
      case one => exact h.one
      case count =>
        have := h.count
        rw [hcounted] at this
        exact this
      case covered => exact h.covered
      case acking => exact h.acking
      case acked => exact h.acked
      case flushed => exact h.flushed
      case lines => exact h.lines
      case beating => exact h.beating
      case ended => exact fun hover => ⟨(h.ended hover).1, rfl⟩
      case gone => exact ⟨fun _ => rfl, fun _ => rfl⟩
      case reclaimed => exact nofun
  | _ =>
      refine h.caller_quiet rfl rfl rfl rfl rfl rfl rfl rfl rfl hgone.symm nofun ?_
      rw [hcounted]
      rfl

theorem Sound.call {s : State} (h : Sound s) (c : Call) : Sound (call c s) := by
  unfold Heartbeat.call
  split
  next last hidle => exact h.begin hidle c
  next => exact h

theorem Sound.callerStep {s : State} (h : Sound s) : Sound (callerStep s) := by
  unfold Heartbeat.callerStep
  cases hcaller : s.caller with
  | idle last => exact h
  | reclaimed => exact h
  | checking buf =>
      dsimp only
      split
      all_goals
        refine h.caller_quiet rfl rfl rfl rfl rfl rfl rfl rfl rfl ?_ nofun ?_
        all_goals rw [hcaller]; rfl
  | rechecking buf =>
      dsimp only
      split
      all_goals
        refine h.caller_quiet rfl rfl rfl rfl rfl rfl rfl rfl rfl ?_ nofun ?_
        all_goals rw [hcaller]; rfl
  | lowering buf =>
      refine h.caller_quiet rfl rfl rfl rfl rfl rfl rfl rfl rfl ?_ nofun ?_
      all_goals rw [hcaller]; rfl
  | counting buf =>
      refine h.caller_quiet rfl rfl rfl rfl rfl rfl rfl rfl rfl ?_ nofun ?_
      · rw [hcaller]; rfl
      · rw [hcaller]
        simp only [Caller.counted, List.length_nil]
        omega
  | sending buf =>
      dsimp only
      split
      next hsend =>
        refine h.caller_send (.bytes buf) rfl rfl nofun (Or.inl rfl) rfl rfl rfl rfl rfl rfl ?_
          rfl ?_
        · exact (Bool.and_eq_true _ _ ▸ hsend).1
        · rw [hcaller]
          simp only [Caller.counted, PumpMessage.data, List.length_nil]
          omega
      next =>
        refine h.caller_quiet rfl rfl rfl rfl rfl rfl rfl rfl rfl ?_ nofun ?_
        all_goals rw [hcaller]; rfl
  | uncounting buf =>
      refine h.caller_quiet rfl rfl rfl rfl rfl rfl rfl rfl rfl ?_ nofun ?_
      · rw [hcaller]; rfl
      · rw [hcaller]
        simp only [Caller.counted, List.length_nil]
        omega
  | requesting =>
      dsimp only
      split
      next ack hack =>
        refine h.caller_quiet rfl rfl rfl rfl rfl rfl rfl rfl rfl ?_ nofun ?_
        all_goals rw [hcaller]; rfl
      next =>
        split
        next hsend =>
          refine h.caller_send (.flush s.requests.length) rfl (List.append_nil _).symm ?_
            (Or.inr ⟨_, rfl⟩) rfl rfl rfl rfl rfl rfl ?_ rfl ?_
          · intro ack hack
            cases hack
            exact ⟨s.accepted.length, by simp, Nat.le_refl _⟩
          · exact (Bool.and_eq_true _ _ ▸ hsend).1
          · rw [hcaller]
            simp [Caller.counted, PumpMessage.data]
        next =>
          refine h.caller_quiet rfl rfl rfl rfl rfl rfl rfl rfl rfl ?_ nofun ?_
          all_goals rw [hcaller]; rfl
  | polling =>
      dsimp only
      split
      next => exact h
      next ack hack =>
        split
        next hacked =>
          unfold takeAck
          split
          all_goals
            refine h.caller_quiet rfl rfl rfl rfl rfl rfl rfl rfl rfl ?_ nofun ?_
            all_goals rw [hcaller]; rfl
        next =>
          split
          all_goals
            refine h.caller_quiet rfl rfl rfl rfl rfl rfl rfl rfl rfl ?_ nofun ?_
            all_goals rw [hcaller]; rfl
  | rearming =>
      refine h.caller_quiet rfl rfl rfl rfl rfl rfl rfl rfl rfl ?_ nofun ?_
      all_goals rw [hcaller]; rfl
  | arming =>
      refine h.caller_quiet rfl rfl rfl rfl rfl rfl rfl rfl rfl ?_ nofun ?_
      all_goals rw [hcaller]; rfl
  | waking =>
      dsimp only
      split
      next hsend =>
        refine h.caller_send .wake rfl (List.append_nil _).symm nofun (Or.inl rfl) rfl rfl rfl rfl
          rfl rfl ?_ rfl ?_
        · exact (Bool.and_eq_true _ _ ▸ hsend).1
        · rw [hcaller]
          simp [Caller.counted, PumpMessage.data]
      next =>
        refine h.caller_quiet rfl rfl rfl rfl rfl rfl rfl rfl rfl ?_ nofun ?_
        all_goals rw [hcaller]; rfl
  | disarming =>
      refine h.caller_quiet rfl rfl rfl rfl rfl rfl rfl rfl rfl ?_ nofun ?_
      all_goals rw [hcaller]; rfl
  | reclaiming =>
      dsimp only
      split
      next hdone =>
        refine h.caller_quiet rfl rfl rfl rfl rfl rfl rfl rfl rfl ?_ (fun _ => hdone) ?_
        all_goals rw [hcaller]; rfl
      next => exact h

/-- A step of the pump between the pipe and itself, with nothing written. -/
theorem Sound.pump_quiet {s s' : State} (h : Sound s) (hcaller : s'.caller = s.caller)
    (haccepted : s'.accepted = s.accepted) (hinner : s'.inner = s.inner)
    (hrequests : s'.requests = s.requests) (hacks : s'.acks = s.acks)
    (hdecided : s'.decided = s.decided) (htx : s'.tx = s.tx) (hqueued : s'.queued = s.queued)
    (hundrained : s'.pump.undrained = s.pump.undrained) (hopen : s.pump.isOver = false)
    (hpayload : payload s'.pipe = payload s.pipe)
    (hcovered : ∀ {n}, Covered s.requests n s.pipe → Covered s.requests n s'.pipe)
    (hone : ∀ b, s'.pump = .coalescing b → s'.held = none)
    (hacking : ∀ ack, s'.pump ≠ .acking ack)
    (hbeating : ∀ n, s'.pump = .beating n → n = s.accepted.length)
    (hended : s'.pump.isOver = true → s'.pipe = [] ∧ s.tx = false) : Sound s' := by
  constructor
  case flow => rw [haccepted, hinner, hpayload]; exact h.flow
  case one => exact hone
  case count => rw [hqueued, hpayload, hcaller, hundrained]; exact h.count
  case covered => rw [hrequests, hinner]; exact hcovered h.covered
  case acking => exact fun ack hack => absurd hack (hacking ack)
  case acked => rw [hacks, hrequests, hinner]; exact h.acked
  case flushed => rw [hinner]; exact h.flushed
  case lines => rw [hinner, hdecided]; exact h.lines
  case beating =>
    intro n hn
    have hlength := congrArg List.length h.flow
    rw [List.length_append] at hlength
    rw [hinner, hbeating n hn]
    omega
  case ended => rw [htx]; exact hended
  case gone => rw [htx, hcaller]; exact h.gone
  case reclaimed =>
    intro hgone
    rw [hcaller] at hgone
    rw [h.reclaimed hgone] at hopen
    exact nomatch hopen

/-- A step of the pump that hands the first `w` bytes of the pipe, or a keepalive, to the inner
writer, or flushes it. -/
theorem Sound.pump_inner {s s' : State} (h : Sound s) (w : List Byte)
    (hcaller : s'.caller = s.caller) (haccepted : s'.accepted = s.accepted)
    (hrequests : s'.requests = s.requests) (hacks : s'.acks = s.acks) (htx : s'.tx = s.tx)
    (hqueued : s'.queued = s.queued) (hwritten : s'.inner.written = s.inner.written ++ w)
    (hpayload : payload s.pipe = w ++ payload s'.pipe)
    (hundrained : s'.pump.undrained = s.pump.undrained + w.length)
    (hcovered : ∀ {n}, Covered s.requests n s.pipe → Covered s.requests (n + w.length) s'.pipe)
    (hflushed : s.inner.flushed ≤ s'.inner.flushed)
    (hbounded : s'.inner.flushed ≤ s'.inner.written.length)
    (hacking : ∀ ack, s'.pump = .acking ack → Answered s.requests s'.inner.flushed ack)
    (hlines : List.Forall₂ (· ≤ ·) (positions s'.inner.received) s'.decided)
    (hopen : s.pump.isOver = false) (hopen' : s'.pump.isOver = false)
    (hone : ∀ b, s'.pump ≠ .coalescing b) (hbeating : ∀ n, s'.pump ≠ .beating n) : Sound s' := by
  constructor
  case flow => rw [haccepted, h.flow, hwritten, hpayload, List.append_assoc]
  case one => exact fun b hb => absurd hb (hone b)
  case count =>
    have := h.count
    rw [hpayload, List.length_append] at this
    rw [hqueued, this, hcaller, hundrained]
    congr 1
    omega
  case covered =>
    rw [hrequests, hwritten, List.length_append]
    exact hcovered h.covered
  case acking => rw [hrequests]; exact hacking
  case acked =>
    intro ack hack
    rw [hrequests]
    exact (h.acked ack (hacks ▸ hack)).mono hflushed
  case flushed => exact hbounded
  case lines => exact hlines
  case beating => exact fun n hn => absurd hn (hbeating n)
  case ended => exact fun hover => nomatch hopen'.symm.trans hover
  case gone => rw [htx, hcaller]; exact h.gone
  case reclaimed =>
    intro hgone
    rw [hcaller] at hgone
    rw [h.reclaimed hgone] at hopen
    exact nomatch hopen

theorem Sound.pumpStep {s : State} (h : Sound s) (b : Branch) : Sound (pumpStep b s) := by
  unfold Heartbeat.pumpStep
  cases hpump : s.pump with
  | selecting =>
      dsimp only
      cases hheld : s.held with
      | some m =>
          have hpipe : s.pipe = m :: s.queue := by
            rw [State.pipe, hpump, hheld]
            rfl
          refine h.pump_quiet rfl rfl rfl rfl rfl rfl rfl rfl ?_ ?_ ?_ ?_ ?_ ?_ ?_ ?_
          · rw [hpump]; exact undrained_handle m
          · rw [hpump]; rfl
          · rw [hpipe]; exact payload_handle m s.queue
          · rw [hpipe]; exact covered_handle
          · exact fun _ _ => rfl
          · cases m <;> exact nofun
          · cases m <;> exact nofun
          · cases m <;> exact nofun
      | none =>
          cases b with
          | timer =>
              refine h.pump_quiet rfl rfl rfl rfl rfl rfl rfl rfl ?_ ?_ ?_ ?_ nofun nofun nofun
                nofun
              · rw [hpump]; rfl
              · rw [hpump]; rfl
              · rw [State.pipe, State.pipe, hpump, hheld]; rfl
              · rw [State.pipe, State.pipe, hpump, hheld]; exact id
          | recv =>
              dsimp only
              cases hqueue : s.queue with
              | cons m queue =>
                  have hpipe : s.pipe = m :: queue := by
                    rw [State.pipe, hpump, hheld, hqueue]
                    rfl
                  refine h.pump_quiet rfl rfl rfl rfl rfl rfl rfl rfl ?_ ?_ ?_ ?_ ?_ ?_ ?_ ?_
                  · rw [hpump]; exact undrained_handle m
                  · rw [hpump]; rfl
                  · rw [hpipe]; exact payload_handle m queue
                  · rw [hpipe]; exact covered_handle
                  · exact fun _ _ => rfl
                  · cases m <;> exact nofun
                  · cases m <;> exact nofun
                  · cases m <;> exact nofun
              | nil =>
                  dsimp only
                  split
                  next => exact h
                  next hgone =>
                    have hpipe : s.pipe = [] := by
                      rw [State.pipe, hpump, hheld, hqueue]
                      rfl
                    refine h.pump_quiet rfl rfl rfl rfl rfl rfl rfl rfl ?_ ?_ ?_ ?_ nofun nofun
                      nofun ?_
                    · rw [hpump]; rfl
                    · rw [hpump]; rfl
                    · rw [State.pipe, State.pipe, hpump, hheld, hqueue]; rfl
                    · rw [State.pipe, State.pipe, hpump, hheld, hqueue]; exact id
                    · exact fun _ => ⟨rfl, Bool.eq_false_iff.2 hgone⟩
  | fired =>
      dsimp only
      split
      next =>
        refine h.pump_quiet rfl rfl rfl rfl rfl rfl rfl rfl ?_ ?_ ?_ ?_ nofun nofun ?_ nofun
        · rw [hpump]; rfl
        · rw [hpump]; rfl
        · rw [State.pipe, State.pipe, hpump]; rfl
        · rw [State.pipe, State.pipe, hpump]; exact id
        · exact fun n hn => (Pump.beating.inj hn).symm
      next =>
        refine h.pump_quiet rfl rfl rfl rfl rfl rfl rfl rfl ?_ ?_ ?_ ?_ nofun nofun nofun nofun
        · rw [hpump]; rfl
        · rw [hpump]; rfl
        · rw [State.pipe, State.pipe, hpump]; rfl
        · rw [State.pipe, State.pipe, hpump]; exact id
  | beating n =>
      refine h.pump_inner [] rfl rfl rfl rfl rfl rfl ?_ ?_ ?_ ?_ ?_ ?_ nofun ?_ ?_ rfl nofun nofun
      · rw [Inner.written_line, List.append_nil]
      · rw [State.pipe, State.pipe, hpump]; rfl
      · rw [hpump]; rfl
      · rw [State.pipe, State.pipe, hpump]; exact id
      · rw [Inner.flushed_write]
      · rw [Inner.flushed_write, Inner.written_line]; exact h.flushed
      · rw [positions_line]
        exact List.rel_append h.lines (.cons (h.beating n hpump) .nil)
      · rw [hpump]; rfl
  | beatFlushing =>
      refine h.pump_inner [] rfl rfl rfl rfl rfl rfl ?_ ?_ ?_ ?_ h.flushed (Nat.le_refl _) nofun
        h.lines ?_ rfl nofun nofun
      · rw [Inner.written_flush, List.append_nil]
      · rw [State.pipe, State.pipe, hpump]; rfl
      · rw [hpump]; rfl
      · rw [State.pipe, State.pipe, hpump]; exact id
      · rw [hpump]; rfl
  | coalescing b =>
      have hheld : s.held = none := h.one b hpump
      have hpipe : s.pipe = .bytes b :: s.queue := by
        rw [State.pipe, hpump, hheld]
        rfl
      have hwriting : ∀ {held : Option PumpMessage} {queue : List PumpMessage},
          s.queue = held.toList ++ queue →
          Sound { s with queue := queue, held := held, pump := .writing b } := by
        intro held queue hqueue
        refine h.pump_quiet rfl rfl rfl rfl rfl rfl rfl rfl ?_ ?_ ?_ ?_ nofun nofun nofun nofun
        · rw [hpump]; rfl
        · rw [hpump]; rfl
        · rw [hpipe, hqueue]; rfl
        · rw [hpipe, hqueue]; exact id
      have hdirect : Sound { s with pump := .writing b } := by
        have hsame := @hwriting none s.queue rfl
        rw [← hheld] at hsame
        exact hsame
      dsimp only
      split
      next =>
        cases hqueue : s.queue with
        | nil =>
            rw [hqueue] at hdirect
            exact hdirect
        | cons m queue =>
            cases m with
            | bytes more =>
                dsimp only
                split
                next =>
                  refine h.pump_quiet rfl rfl rfl rfl rfl rfl rfl rfl ?_ ?_ ?_ ?_
                    (fun _ _ => hheld) nofun nofun nofun
                  · rw [hpump]; rfl
                  · rw [hpump]; rfl
                  · rw [State.pipe, hpipe, hheld, hqueue]
                    exact List.append_assoc b more _
                  · intro n hcovered
                    rw [hpipe, hqueue] at hcovered
                    rw [State.pipe, hheld]
                    exact covered_merge hcovered
                next => exact hwriting hqueue
            | flush ack => exact hwriting hqueue
            | wake => exact hwriting hqueue
      next => exact hdirect
  | writing b =>
      refine h.pump_inner b rfl rfl rfl rfl rfl rfl ?_ ?_ ?_ ?_ ?_ ?_ nofun ?_ ?_ rfl nofun nofun
      · exact Inner.written_data s.inner b
      · rw [State.pipe, State.pipe, hpump]; rfl
      · rw [hpump]; exact (Nat.zero_add _).symm
      · rw [State.pipe, State.pipe, hpump]; exact fun hcovered => hcovered.2
      · rw [Inner.flushed_write]
      · rw [Inner.flushed_write, Inner.written_data, List.length_append]
        exact Nat.le_add_right_of_le h.flushed
      · rw [positions_data]; exact h.lines
      · rw [hpump]; rfl
  | draining n =>
      have hpipe : s.pipe = s.held.toList ++ s.queue := by rw [State.pipe, hpump]; rfl
      constructor
      case flow => rw [h.flow, hpipe]; rfl
      case one => exact nofun
      case count =>
        have := h.count
        rw [hpump, hpipe] at this
        change s.queued - n = ((payload (s.held.toList ++ s.queue)).length +
          s.caller.counted.length + 0 : Nat)
        rw [this]
        simp only [Pump.undrained]
        omega
      case covered =>
        have := h.covered
        rw [hpipe] at this
        exact this
      case acking => exact nofun
      case acked => exact h.acked
      case flushed => exact h.flushed
      case lines => exact h.lines
      case beating => exact nofun
      case ended => exact nofun
      case gone => exact h.gone
      case reclaimed => exact fun hgone => nomatch hpump.symm.trans (h.reclaimed hgone)
  | flushing ack =>
      have hpipe : s.pipe = .flush ack :: (s.held.toList ++ s.queue) := by
        rw [State.pipe, hpump]
        rfl
      refine h.pump_inner [] rfl rfl rfl rfl rfl rfl ?_ ?_ ?_ ?_ h.flushed (Nat.le_refl _) ?_
        h.lines ?_ rfl nofun nofun
      · rw [Inner.written_flush, List.append_nil]
      · rw [hpipe]; rfl
      · rw [hpump]; rfl
      · rw [hpipe]; exact fun hcovered => hcovered.2
      · -- everything before the flush is written by now
        intro other hother
        cases hother
        have hcovered := h.covered
        rw [hpipe] at hcovered
        exact hcovered.1 ack rfl
      · rw [hpump]; rfl
  | acking ack =>
      have hpipe : s.pipe = s.held.toList ++ s.queue := by rw [State.pipe, hpump]; rfl
      have hacked : Sound { s with acks := ack :: s.acks } :=
        { h with
          acked := by
            intro other hother
            rcases List.mem_cons.1 hother with rfl | hmem
            · exact h.acking _ hpump
            · exact h.acked other hmem }
      refine hacked.pump_quiet rfl rfl rfl rfl rfl rfl rfl rfl ?_ ?_ ?_ ?_ nofun nofun nofun nofun
      · rw [hpump]; rfl
      · rw [hpump]; rfl
      · rw [State.pipe, State.pipe, hpump]; rfl
      · rw [State.pipe, State.pipe, hpump]; exact id
  | ending =>
      obtain ⟨hempty, hgone⟩ := h.ended (by rw [hpump]; rfl)
      have hpipe : State.pipe { s with pump := .done } = s.pipe := by
        rw [State.pipe, State.pipe, hpump]
        rfl
      constructor
      case flow => rw [hpipe]; exact h.flow
      case one => exact nofun
      case count =>
        have := h.count
        rw [hpump] at this
        rw [hpipe]
        exact this
      case covered => rw [hpipe]; exact h.covered
      case acking => exact nofun
      case acked => exact h.acked
      case flushed => exact h.flushed
      case lines => exact h.lines
      case beating => exact nofun
      case ended => exact fun _ => ⟨hpipe.trans hempty, hgone⟩
      case gone => exact h.gone
      case reclaimed => exact fun _ => rfl
  | done => exact h

theorem Sound.step {s : State} (h : Sound s) (a : Action) : Sound (step s a) := by
  cases a with
  | call c => exact h.call c
  | caller => exact h.callerStep
  | pump b => exact h.pumpStep b

theorem sound_new : Sound State.new := by
  constructor
  case flow => rfl
  case one => exact nofun
  case count => rfl
  case covered => trivial
  case acking => exact nofun
  case acked => exact nofun
  case flushed => exact Nat.le_refl _
  case lines => exact .nil
  case beating => exact nofun
  case ended => exact nofun
  case gone => exact ⟨nofun, nofun⟩
  case reclaimed => exact nofun

/-! ## The flag -/

/-- The caller is not in a call. -/
def Caller.isIdle : Caller → Bool
  | .idle _ => true
  | _ => false

/-- No stale flush is polled: when a `poll_flush` begins, a flush that is still pending was
requested after the last accepted byte. -/
def Fresh (s : State) (a : Action) : Prop :=
  a = .call .pollFlush ∧ s.caller.isIdle = true →
    ∀ ack ∈ s.pendingFlush, s.requests[ack]? = some s.accepted.length

instance (s : State) (a : Action) : Decidable (Fresh s a) :=
  inferInstanceAs (Decidable (_ ∧ _ → ∀ ack ∈ s.pendingFlush, _))

/-- `arm` is called only when every accepted byte was written. -/
def ArmsWritten (s : State) (a : Action) : Prop :=
  a = .call .arm ∧ s.caller.isIdle = true → s.inner.written = s.accepted

instance (s : State) (a : Action) : Decidable (ArmsWritten s a) :=
  inferInstanceAs (Decidable (_ ∧ _ → _ = _))

/-- The caller is between the lowering of the flag and the send of the bytes. -/
def Caller.writes : Caller → Bool
  | .counting _ | .sending _ | .uncounting _ => true
  | _ => false

/-- The caller is about to raise the flag. -/
def Caller.raises : Caller → Bool
  | .arming | .rearming => true
  | _ => false

/-- What holds when no stale flush is polled: the flag is up only where the flag was raised for all
bytes accepted so far. -/
structure Marked (s : State) : Prop where
  armed : s.armed = true → s.accepted.length ∈ s.marks
  raises : s.caller.raises = true → s.accepted.length ∈ s.marks
  writes : s.caller.writes = true → s.armed = false
  polling : s.caller = .requesting ∨ s.caller = .polling → ∀ ack, s.pendingFlush = some ack →
    s.requests[ack]? = some s.accepted.length
  flushed : s.caller = .rearming ∨ s.caller = .idle .flushed →
    s.inner.flushed = s.accepted.length
  beating : ∀ n, s.pump = .beating n → n ∈ s.marks
  decided : ∀ n ∈ s.decided, n ∈ s.marks

theorem Sound.written_le {s : State} (h : Sound s) :
    s.inner.written.length ≤ s.accepted.length := by
  rw [h.flow, List.length_append]
  exact Nat.le_add_right _ _

/-- An acknowledged flush that was requested for all accepted bytes has covered them. -/
theorem Sound.flushed_all {s : State} (h : Sound s) {ack : Nat} (hack : ack ∈ s.acks)
    (hrequest : s.requests[ack]? = some s.accepted.length) :
    s.inner.flushed = s.accepted.length := by
  obtain ⟨r, hr, hle⟩ := h.acked ack hack
  cases Option.some.inj (hr.symm.trans hrequest)
  exact Nat.le_antisymm (Nat.le_trans h.flushed h.written_le) hle

/-- All accepted bytes are written once they are flushed. -/
theorem Sound.written_of_flushed {s : State} (h : Sound s)
    (hflushed : s.inner.flushed = s.accepted.length) : s.inner.written = s.accepted := by
  have hprefix : s.inner.written <+: s.accepted := ⟨_, h.flow.symm⟩
  exact hprefix.eq_of_length (Nat.le_antisymm h.written_le (hflushed ▸ h.flushed))

theorem Marked.begin {s : State} (h : Marked s) (c : Call) (hidle : s.caller.isIdle = true)
    (hfresh : Fresh s (.call c)) : Marked (begin s c) := by
  cases c with
  | arm =>
      refine ⟨fun _ => List.mem_cons_self, fun _ => List.mem_cons_self, nofun, ?_, ?_, ?_, ?_⟩
      · exact fun hcaller => hcaller.elim nofun nofun
      · exact fun hcaller => hcaller.elim nofun nofun
      · exact fun n hn => List.mem_cons_of_mem _ (h.beating n hn)
      · exact fun n hn => List.mem_cons_of_mem _ (h.decided n hn)
  | pollFlush =>
      exact ⟨h.armed, nofun, nofun, fun _ => hfresh ⟨rfl, hidle⟩,
        fun hcaller => hcaller.elim nofun nofun, h.beating, h.decided⟩
  | _ =>
      exact ⟨h.armed, nofun, nofun, fun hcaller => hcaller.elim nofun nofun,
        fun hcaller => hcaller.elim nofun nofun, h.beating, h.decided⟩

/-- A step of the caller to a place that asks for nothing. -/
theorem Marked.caller_quiet {s s' : State} (h : Marked s) (haccepted : s'.accepted = s.accepted)
    (hmarks : s'.marks = s.marks) (hpump : s'.pump = s.pump) (hdecided : s'.decided = s.decided)
    (harmed : s'.armed = true → s.armed = true) (hraises : s'.caller.raises = false)
    (hwrites : s'.caller.writes = true → s'.armed = false)
    (hpolling : s'.caller ≠ .requesting ∧ s'.caller ≠ .polling)
    (hflushed : s'.caller ≠ .rearming ∧ s'.caller ≠ .idle .flushed) : Marked s' := by
  constructor
  case armed => rw [haccepted, hmarks]; exact fun hup => h.armed (harmed hup)
  case raises => exact fun hraise => nomatch hraises.symm.trans hraise
  case writes => exact hwrites
  case polling => exact fun hcaller => (hcaller.elim hpolling.1 hpolling.2).elim
  case flushed => exact fun hcaller => (hcaller.elim hflushed.1 hflushed.2).elim
  case beating => rw [hpump, hmarks]; exact h.beating
  case decided => rw [hdecided, hmarks]; exact h.decided

theorem Marked.callerStep {s : State} (hs : Sound s) (h : Marked s) : Marked (callerStep s) := by
  unfold Heartbeat.callerStep
  cases hcaller : s.caller with
  | idle last => exact h
  | reclaimed => exact h
  | checking buf =>
      dsimp only
      split
      all_goals exact h.caller_quiet rfl rfl rfl rfl id rfl nofun ⟨nofun, nofun⟩ ⟨nofun, nofun⟩
  | rechecking buf =>
      dsimp only
      split
      all_goals exact h.caller_quiet rfl rfl rfl rfl id rfl nofun ⟨nofun, nofun⟩ ⟨nofun, nofun⟩
  | lowering buf =>
      exact h.caller_quiet rfl rfl rfl rfl nofun rfl (fun _ => rfl) ⟨nofun, nofun⟩ ⟨nofun, nofun⟩
  | counting buf =>
      have hlow : s.armed = false := h.writes (by rw [hcaller]; rfl)
      exact h.caller_quiet rfl rfl rfl rfl id rfl (fun _ => hlow) ⟨nofun, nofun⟩ ⟨nofun, nofun⟩
  | sending buf =>
      have hlow : s.armed = false := h.writes (by rw [hcaller]; rfl)
      dsimp only
      split
      next =>
        -- the flag is down while the bytes are accepted
        constructor
        case armed => exact fun hup => nomatch hlow.symm.trans hup
        case raises => exact nofun
        case writes => exact nofun
        case polling => exact fun hcaller => hcaller.elim nofun nofun
        case flushed => exact fun hcaller => hcaller.elim nofun nofun
        case beating => exact h.beating
        case decided => exact h.decided
      next =>
        exact h.caller_quiet rfl rfl rfl rfl id rfl (fun _ => hlow) ⟨nofun, nofun⟩ ⟨nofun, nofun⟩
  | uncounting buf =>
      exact h.caller_quiet rfl rfl rfl rfl id rfl nofun ⟨nofun, nofun⟩ ⟨nofun, nofun⟩
  | requesting =>
      dsimp only
      split
      next ack hack =>
        have hfresh := h.polling (Or.inl hcaller)
        exact ⟨h.armed, nofun, nofun, fun _ => hfresh, fun hcaller => hcaller.elim nofun nofun,
          h.beating, h.decided⟩
      next =>
        split
        next =>
          refine ⟨h.armed, nofun, nofun, fun _ ack hack => ?_,
            fun hcaller => hcaller.elim nofun nofun, h.beating, h.decided⟩
          cases hack
          exact List.getElem?_concat_length
        next => exact h.caller_quiet rfl rfl rfl rfl id rfl nofun ⟨nofun, nofun⟩ ⟨nofun, nofun⟩
  | polling =>
      dsimp only
      split
      next => exact h
      next ack hack =>
        split
        next hacked =>
          have hflushed := hs.flushed_all hacked (h.polling (Or.inr hcaller) ack hack)
          unfold takeAck
          rw [if_pos hflushed]
          constructor
          case armed => exact fun _ => List.mem_cons_self
          case raises => exact fun _ => List.mem_cons_self
          case writes => dsimp only; split <;> exact nofun
          case polling => exact fun _ => nofun
          case flushed => exact fun _ => hflushed
          case beating => exact fun n hn => List.mem_cons_of_mem _ (h.beating n hn)
          case decided => exact fun n hn => List.mem_cons_of_mem _ (h.decided n hn)
        next =>
          split
          all_goals
            exact h.caller_quiet rfl rfl rfl rfl id rfl nofun ⟨nofun, nofun⟩ ⟨nofun, nofun⟩
  | rearming =>
      have hmarked := h.raises (by rw [hcaller]; rfl)
      have hflushed := h.flushed (Or.inl hcaller)
      exact ⟨fun _ => hmarked, nofun, nofun, fun hcaller => hcaller.elim nofun nofun,
        fun _ => hflushed, h.beating, h.decided⟩
  | arming =>
      have hmarked := h.raises (by rw [hcaller]; rfl)
      exact ⟨fun _ => hmarked, nofun, nofun, fun hcaller => hcaller.elim nofun nofun,
        fun hcaller => hcaller.elim nofun nofun, h.beating, h.decided⟩
  | waking => exact h.caller_quiet rfl rfl rfl rfl id rfl nofun ⟨nofun, nofun⟩ ⟨nofun, nofun⟩
  | disarming =>
      exact h.caller_quiet rfl rfl rfl rfl nofun rfl nofun ⟨nofun, nofun⟩ ⟨nofun, nofun⟩
  | reclaiming =>
      dsimp only
      split
      next => exact h.caller_quiet rfl rfl rfl rfl id rfl nofun ⟨nofun, nofun⟩ ⟨nofun, nofun⟩
      next => exact h

/-- What the steps of the pump leave to the caller; what is written stays, and a flush is a flush of
all of it. -/
structure PumpFrame (s s' : State) : Prop where
  caller : s'.caller = s.caller
  tx : s'.tx = s.tx
  commandActive : s'.commandActive = s.commandActive
  pendingFlush : s'.pendingFlush = s.pendingFlush
  armed : s'.armed = s.armed
  accepted : s'.accepted = s.accepted
  requests : s'.requests = s.requests
  marks : s'.marks = s.marks
  written : s.inner.written <+: s'.inner.written
  flushed : s'.inner.flushed = s.inner.flushed ∨ s'.inner.flushed = s.inner.written.length

theorem PumpFrame.refl (s : State) : PumpFrame s s :=
  ⟨rfl, rfl, rfl, rfl, rfl, rfl, rfl, rfl, List.prefix_rfl, Or.inl rfl⟩

/-- A step of the pump between the pipe and itself. -/
theorem PumpFrame.move (s : State) (queue : List PumpMessage) (acks : List Nat) (queued : Int)
    (held : Option PumpMessage) (pump : Pump) :
    PumpFrame s
      { s with queue := queue, acks := acks, queued := queued, held := held, pump := pump } :=
  ⟨rfl, rfl, rfl, rfl, rfl, rfl, rfl, rfl, List.prefix_rfl, Or.inl rfl⟩

/-- What a step of the pump does to the keepalives: it finds the flag up, or writes one, or has
nothing to do with them. -/
theorem pumpStep_beats (b : Branch) (s : State) :
    PumpFrame s (pumpStep b s) ∧
      ((s.armed = true ∧ (pumpStep b s).pump = .beating s.accepted.length ∧
          (pumpStep b s).decided = s.decided ∧ (pumpStep b s).inner = s.inner) ∨
        (∃ n, s.pump = .beating n ∧ (pumpStep b s).pump = .beatFlushing ∧
          (pumpStep b s).decided = s.decided ++ [n] ∧
          (pumpStep b s).inner = s.inner.write .line) ∨
        ((∀ n, (pumpStep b s).pump ≠ .beating n) ∧ (pumpStep b s).decided = s.decided ∧
          positions (pumpStep b s).inner.received = positions s.inner.received)) := by
  unfold pumpStep
  cases hpump : s.pump with
  | selecting =>
      dsimp only
      cases s.held with
      | some m =>
          refine ⟨.move s _ _ _ _ _, Or.inr (Or.inr ⟨?_, rfl, rfl⟩)⟩
          cases m <;> exact nofun
      | none =>
          cases b with
          | timer =>
              exact ⟨.move s _ _ _ _ _, Or.inr (Or.inr ⟨nofun, rfl, rfl⟩)⟩
          | recv =>
              dsimp only
              cases s.queue with
              | cons m queue =>
                  refine ⟨.move s _ _ _ _ _, Or.inr (Or.inr ⟨?_, rfl, rfl⟩)⟩
                  cases m <;> exact nofun
              | nil =>
                  dsimp only
                  split
                  · refine ⟨.refl s, Or.inr (Or.inr ⟨?_, rfl, rfl⟩)⟩
                    rw [hpump]
                    exact nofun
                  · exact ⟨.move s _ _ _ _ _,
                      Or.inr (Or.inr ⟨nofun, rfl, rfl⟩)⟩
  | fired =>
      dsimp only
      split
      next hup => exact ⟨.move s _ _ _ _ _, Or.inl ⟨hup, rfl, rfl, rfl⟩⟩
      next => exact ⟨.move s _ _ _ _ _, Or.inr (Or.inr ⟨nofun, rfl, rfl⟩)⟩
  | beating n =>
      have hwritten : s.inner.written <+: (s.inner.write .line).written := by
        rw [Inner.written_line]
      exact ⟨⟨rfl, rfl, rfl, rfl, rfl, rfl, rfl, rfl, hwritten, Or.inl rfl⟩,
        Or.inr (Or.inl ⟨n, rfl, rfl, rfl, rfl⟩)⟩
  | coalescing c =>
      dsimp only
      split
      next =>
        split
        next => exact ⟨.move s _ _ _ _ _, Or.inr (Or.inr ⟨nofun, rfl, rfl⟩)⟩
        next m queue =>
          split
          next =>
            split
            all_goals
              exact ⟨.move s _ _ _ _ _, Or.inr (Or.inr ⟨nofun, rfl, rfl⟩)⟩
          next =>
            exact ⟨.move s _ _ _ _ _, Or.inr (Or.inr ⟨nofun, rfl, rfl⟩)⟩
      next => exact ⟨.move s _ _ _ _ _, Or.inr (Or.inr ⟨nofun, rfl, rfl⟩)⟩
  | writing c =>
      have hwritten : s.inner.written <+: (s.inner.write (.data c)).written :=
        ⟨c, (Inner.written_data s.inner c).symm⟩
      exact ⟨⟨rfl, rfl, rfl, rfl, rfl, rfl, rfl, rfl, hwritten, Or.inl rfl⟩,
        Or.inr (Or.inr ⟨nofun, rfl, positions_data s.inner c⟩)⟩
  | done => exact ⟨.refl s, Or.inr (Or.inr ⟨by rw [hpump]; exact nofun, rfl, rfl⟩)⟩
  | beatFlushing =>
      exact ⟨⟨rfl, rfl, rfl, rfl, rfl, rfl, rfl, rfl, List.prefix_rfl, Or.inr rfl⟩,
        Or.inr (Or.inr ⟨nofun, rfl, rfl⟩)⟩
  | flushing ack =>
      exact ⟨⟨rfl, rfl, rfl, rfl, rfl, rfl, rfl, rfl, List.prefix_rfl, Or.inr rfl⟩,
        Or.inr (Or.inr ⟨nofun, rfl, rfl⟩)⟩
  | _ => exact ⟨.move s _ _ _ _ _, Or.inr (Or.inr ⟨nofun, rfl, rfl⟩)⟩

theorem Marked.pumpStep {s : State} (hs : Sound s) (h : Marked s) (b : Branch) :
    Marked (pumpStep b s) := by
  obtain ⟨hframe, hbeats⟩ := pumpStep_beats b s
  constructor
  case armed => rw [hframe.armed, hframe.accepted, hframe.marks]; exact h.armed
  case raises => rw [hframe.caller, hframe.accepted, hframe.marks]; exact h.raises
  case writes => rw [hframe.caller, hframe.armed]; exact h.writes
  case polling =>
    rw [hframe.caller, hframe.pendingFlush, hframe.requests, hframe.accepted]
    exact h.polling
  case flushed =>
    rw [hframe.caller, hframe.accepted]
    intro hcaller
    have hall := h.flushed hcaller
    rcases hframe.flushed with hsame | hwritten
    · rw [hsame, hall]
    · rw [hwritten, hs.written_of_flushed hall]
  case beating =>
    rw [hframe.marks]
    intro n hn
    rcases hbeats with ⟨hup, hbeating, -⟩ | ⟨m, -, hbeaten, -⟩ | ⟨hnot, -⟩
    · rw [← Pump.beating.inj (hbeating.symm.trans hn)]
      exact h.armed hup
    · exact nomatch hbeaten.symm.trans hn
    · exact absurd hn (hnot n)
  case decided =>
    rw [hframe.marks]
    intro n hn
    rcases hbeats with ⟨-, -, hsame, -⟩ | ⟨m, hbeating, -, hmore, -⟩ | ⟨-, hsame, -⟩
    · exact h.decided n (hsame ▸ hn)
    · rw [hmore] at hn
      rcases List.mem_append.1 hn with hold | hnew
      · exact h.decided n hold
      · rw [List.mem_singleton.1 hnew]
        exact h.beating m hbeating
    · exact h.decided n (hsame ▸ hn)

/-- What holds when the flag is also raised by `arm` only with nothing on its way: a keepalive is
written where the flag was raised. -/
structure Aligned (s : State) : Prop where
  armed : s.armed = true → s.inner.written = s.accepted
  arming : s.caller = .arming → s.inner.written = s.accepted
  beating : ∀ n, s.pump = .beating n → n = s.inner.written.length
  lines : ∀ n ∈ positions s.inner.received, n ∈ s.marks

theorem Aligned.begin {s : State} (h : Aligned s) (c : Call) (hidle : s.caller.isIdle = true)
    (harms : ArmsWritten s (.call c)) : Aligned (begin s c) := by
  cases c with
  | arm =>
      exact ⟨h.armed, fun _ => harms ⟨rfl, hidle⟩, h.beating,
        fun n hn => List.mem_cons_of_mem _ (h.lines n hn)⟩
  | _ => exact ⟨h.armed, nofun, h.beating, h.lines⟩

/-- A step of the caller that accepts nothing. -/
theorem Aligned.caller_quiet {s s' : State} (h : Aligned s) (haccepted : s'.accepted = s.accepted)
    (hinner : s'.inner = s.inner) (hmarks : ∀ n ∈ s.marks, n ∈ s'.marks)
    (hpump : s'.pump = s.pump) (harmed : s'.armed = true → s.armed = true ∨
      s.inner.written = s.accepted) (hcaller : s'.caller ≠ .arming) : Aligned s' := by
  constructor
  case armed =>
    rw [hinner, haccepted]
    exact fun hup => (harmed hup).elim h.armed id
  case arming => exact fun harming => absurd harming hcaller
  case beating => rw [hpump, hinner]; exact h.beating
  case lines =>
    rw [hinner]
    exact fun n hn => hmarks n (h.lines n hn)

theorem Aligned.callerStep {s : State} (hs : Sound s) (hm : Marked s) (h : Aligned s) :
    Aligned (callerStep s) := by
  unfold Heartbeat.callerStep
  cases hcaller : s.caller with
  | idle last => exact h
  | reclaimed => exact h
  | checking buf =>
      dsimp only
      split
      all_goals exact h.caller_quiet rfl rfl (fun _ => id) rfl Or.inl nofun
  | rechecking buf =>
      dsimp only
      split
      all_goals exact h.caller_quiet rfl rfl (fun _ => id) rfl Or.inl nofun
  | sending buf =>
      have hlow := hm.writes (by rw [hcaller]; rfl)
      dsimp only
      split
      next => exact ⟨fun hup => (nomatch hlow.symm.trans hup), nofun, h.beating, h.lines⟩
      next => exact h.caller_quiet rfl rfl (fun _ => id) rfl Or.inl nofun
  | requesting =>
      dsimp only
      split
      next => exact h.caller_quiet rfl rfl (fun _ => id) rfl Or.inl nofun
      next =>
        split
        all_goals exact h.caller_quiet rfl rfl (fun _ => id) rfl Or.inl nofun
  | polling =>
      dsimp only
      split
      next => exact h
      next ack hack =>
        split
        next =>
          unfold takeAck
          refine h.caller_quiet rfl rfl ?_ rfl Or.inl ?_
          · intro n hn
            dsimp only
            split
            · exact List.mem_cons_of_mem _ hn
            · exact hn
          · dsimp only
            split <;> exact nofun
        next =>
          split
          all_goals exact h.caller_quiet rfl rfl (fun _ => id) rfl Or.inl nofun
  | rearming =>
      have hall := hs.written_of_flushed (hm.flushed (Or.inl hcaller))
      exact h.caller_quiet rfl rfl (fun _ => id) rfl (fun _ => Or.inr hall) nofun
  | arming =>
      have hall := h.arming hcaller
      exact h.caller_quiet rfl rfl (fun _ => id) rfl (fun _ => Or.inr hall) nofun
  | lowering buf => exact h.caller_quiet rfl rfl (fun _ => id) rfl nofun nofun
  | disarming => exact h.caller_quiet rfl rfl (fun _ => id) rfl nofun nofun
  | counting buf => exact h.caller_quiet rfl rfl (fun _ => id) rfl Or.inl nofun
  | uncounting buf => exact h.caller_quiet rfl rfl (fun _ => id) rfl Or.inl nofun
  | waking => exact h.caller_quiet rfl rfl (fun _ => id) rfl Or.inl nofun
  | reclaiming =>
      dsimp only
      split
      next => exact h.caller_quiet rfl rfl (fun _ => id) rfl Or.inl nofun
      next => exact h

theorem Aligned.pumpStep {s : State} (hs : Sound s) (hm : Marked s) (h : Aligned s) (b : Branch) :
    Aligned (pumpStep b s) := by
  obtain ⟨hframe, hbeats⟩ := pumpStep_beats b s
  have hall : s.inner.written = s.accepted →
      (Heartbeat.pumpStep b s).inner.written = (Heartbeat.pumpStep b s).accepted := by
    -- the pump cannot write more than was accepted
    intro hwritten
    have hafter := (hs.pumpStep b).written_le
    rw [hframe.accepted] at hafter ⊢
    have hfirst := hframe.written
    rw [hwritten] at hfirst
    exact (hfirst.eq_of_length_le hafter).symm
  constructor
  case armed => rw [hframe.armed]; exact fun hup => hall (h.armed hup)
  case arming => rw [hframe.caller]; exact fun harming => hall (h.arming harming)
  case beating =>
    intro n hn
    rcases hbeats with ⟨hup, hbeating, -, hinner⟩ | ⟨m, -, hbeaten, -⟩ | ⟨hnot, -⟩
    · rw [← Pump.beating.inj (hbeating.symm.trans hn), hinner, h.armed hup]
    · exact nomatch hbeaten.symm.trans hn
    · exact absurd hn (hnot n)
  case lines =>
    rw [hframe.marks]
    rcases hbeats with ⟨-, -, -, hinner⟩ | ⟨m, hbeating, -, -, hinner⟩ | ⟨-, -, hsame⟩
    · rw [hinner]; exact h.lines
    · rw [hinner, positions_line]
      intro n hn
      rcases List.mem_append.1 hn with hold | hnew
      · exact h.lines n hold
      · rw [List.mem_singleton.1 hnew, ← h.beating m hbeating]
        exact hm.beating m hbeating
    · rw [hsame]; exact h.lines

/-! ## Every run -/

theorem Marked.step {s : State} (hs : Sound s) (h : Marked s) {a : Action} (hfresh : Fresh s a) :
    Marked (step s a) := by
  cases a with
  | call c =>
      change Marked (Heartbeat.call c s)
      unfold Heartbeat.call
      split
      next last hidle => exact h.begin c (by rw [hidle]; rfl) hfresh
      next => exact h
  | caller => exact h.callerStep hs
  | pump b => exact h.pumpStep hs b

theorem Aligned.step {s : State} (hs : Sound s) (hm : Marked s) (h : Aligned s) {a : Action}
    (harms : ArmsWritten s a) : Aligned (step s a) := by
  cases a with
  | call c =>
      change Aligned (Heartbeat.call c s)
      unfold Heartbeat.call
      split
      next last hidle => exact h.begin c (by rw [hidle]; rfl) harms
      next => exact h
  | caller => exact h.callerStep hs hm
  | pump b => exact h.pumpStep hs hm b

theorem marked_new : Marked State.new :=
  ⟨nofun, nofun, nofun, nofun, fun hcaller => hcaller.elim nofun nofun, nofun, nofun⟩

theorem aligned_new : Aligned State.new := ⟨nofun, nofun, nofun, nofun⟩

theorem marked_run (actions : List Action) (hfresh : Guarded step Fresh .new actions) :
    Sound (exec step .new actions) ∧ Marked (exec step .new actions) :=
  exec_invariant (I := fun s => Sound s ∧ Marked s)
    (fun _ _ h ha => ⟨h.1.step _, h.2.step h.1 ha⟩) ⟨sound_new, marked_new⟩ hfresh

theorem aligned_run (actions : List Action) (hfresh : Guarded step Fresh .new actions)
    (harms : Guarded step ArmsWritten .new actions) : Aligned (exec step .new actions) := by
  have hrun := exec_invariant (I := fun s => (Sound s ∧ Marked s) ∧ Aligned s)
    (fun s a h ha => ⟨⟨h.1.1.step a, h.1.2.step h.1.1 ha.1⟩, h.2.step h.1.1 h.1.2 ha.2⟩)
    ⟨⟨sound_new, marked_new⟩, aligned_new⟩ (hfresh.and harms)
  exact hrun.2

/-- **Keepalives split no response.** In every run that polls no stale flush the inner writer gets
the accepted bytes in order; the pump decides on a keepalive only where no byte was accepted since
an `arm` or a flush that covered them all, and writes it there if `arm` is called with every
accepted byte written; a flush that is answered with success covers all accepted bytes; `reclaim`
returns when they are written; and `queued` is what is accepted and not written, and what the two
parties are about to add or subtract. -/
theorem keepalives_split_no_response (actions : List Action)
    (hfresh : Guarded step Fresh .new actions) :
    let s := exec step .new actions
    s.inner.written <+: s.accepted ∧
    List.Forall₂ (· ≤ ·) (positions s.inner.received) s.decided ∧
    (∀ n ∈ s.decided, n ∈ s.marks) ∧
    (Guarded step ArmsWritten .new actions → ∀ n ∈ positions s.inner.received, n ∈ s.marks) ∧
    (s.caller = .idle .flushed →
      s.inner.written = s.accepted ∧ s.inner.flushed = s.accepted.length) ∧
    (s.caller = .reclaimed → s.inner.written = s.accepted) ∧
    s.queued = (s.accepted.length - s.inner.written.length + s.caller.counted.length +
      s.pump.undrained : Nat) ∧
    ∀ n, s.pump = .draining n → (n : Int) ≤ s.queued := by
  intro s
  obtain ⟨hsound, hmarked⟩ := marked_run actions hfresh
  change Sound s at hsound
  change Marked s at hmarked
  have hcount : s.queued = (s.accepted.length - s.inner.written.length +
      s.caller.counted.length + s.pump.undrained : Nat) := by
    have hlength := congrArg List.length hsound.flow
    rw [List.length_append] at hlength
    rw [hsound.count, hlength, Nat.add_sub_cancel_left]
  refine ⟨⟨_, hsound.flow.symm⟩, hsound.lines, hmarked.decided, ?_, ?_, ?_, hcount, ?_⟩
  · exact fun harms => (aligned_run actions hfresh harms).lines
  · intro hcaller
    have hflushed := hmarked.flushed (Or.inr hcaller)
    exact ⟨hsound.written_of_flushed hflushed, hflushed⟩
  · intro hcaller
    have hdone := hsound.reclaimed hcaller
    have hempty := (hsound.ended (by rw [hdone]; rfl)).1
    rw [hsound.flow, hempty, payload_nil, List.append_nil]
  · intro n hn
    have hundrained : s.pump.undrained = n := by rw [hn]; rfl
    omega

/-! ## Concrete connections -/

/-- The bytes of a text. -/
def bytesOf (text : String) : List Byte := text.toList.map fun c => c.toNat.toUInt8

/-- A call with the `n` steps it takes. -/
def callOf (c : Call) (n : Nat) : List Action := .call c :: List.replicate n .caller

/-- The pump takes `n` steps, with its next branch `recv`. -/
def pumps (n : Nat) : List Action := List.replicate n (.pump .recv)

/-- The timer fires and a keepalive is written if the flag is up. -/
def fires : List Action := List.replicate 4 (.pump .timer)

/-- A command of one response: the flag is raised, the response is written and flushed. -/
def answersCommand : List Action :=
  callOf .arm 2 ++ pumps 1 ++ callOf (.pollWrite (bytesOf "a")) 4 ++ callOf .pollFlush 2 ++
    pumps 7 ++ callOf .pollFlush 3 ++ fires

theorem keepalives_split_no_response_command :
    let s := exec step .new answersCommand
    positions s.inner.received = [1] ∧ ∀ n ∈ positions s.inner.received, n ∈ s.marks := by
  intro s
  have h := keepalives_split_no_response answersCommand (by decide)
  exact ⟨by decide, h.2.2.2.1 (by decide)⟩

/-- The flush of `a` is abandoned, `b` is written, and the next flush takes the old answer. -/
def abandonsFlush : List Action :=
  callOf .arm 2 ++ pumps 1 ++ callOf (.pollWrite (bytesOf "a")) 4 ++ callOf .pollFlush 2 ++
    pumps 7 ++ callOf (.pollWrite (bytesOf "b")) 4 ++ callOf .pollFlush 3

/-- The flush reports success for a byte that was not written, and the keepalive goes between the
two bytes. -/
theorem stale_flush_splits_a_response :
    let s := exec step .new abandonsFlush
    let t := exec step .new (abandonsFlush ++ fires ++ pumps 3)
    (s.caller = .idle .flushed ∧ s.accepted = bytesOf "ab" ∧ s.inner.written = bytesOf "a") ∧
    t.inner.received.flatMap Item.raw = bytesOf "a" ++ HEARTBEAT_LINE ++ bytesOf "b" ∧
    ∃ n ∈ positions t.inner.received, n ∉ t.marks := by
  refine ⟨by decide, by decide, 1, by decide, by decide⟩

end AsterBridge.Imap.Heartbeat
