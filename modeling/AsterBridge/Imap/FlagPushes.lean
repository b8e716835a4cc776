import AsterBridge.Db.Database
import AsterBridge.Lib.Runs

/-!
# STORE and the pushes of its flag changes

A STORE sets flags in the cache, queues every change of `\Seen` and `\Flagged`
(`record_pending_flag_pushes`) and starts tasks that tell the server
(`push_read_status_chunk`). `retry_pending_flag_pushes` starts such tasks for queued
rows. All of them run side by side, and so does the server, which carries out a
request some time after it was sent, even one whose answer was a failure.

A task pushes a chunk of messages. Here every message of a chunk has a push of its
own: the rows and flags that a chunk reads and writes are per message, and pushes whose
steps interleave freely include those that go through a chunk together.
-/

set_option autoImplicit false

namespace AsterBridge.Imap

open AsterBridge.Lib AsterBridge.Db

/-! ## STORE -/

/-- `apply_flags`: add, remove or replace. -/
def applyFlags (current : BitVec 32) (op : Int) (mask : BitVec 32) : BitVec 32 :=
  if op = 1 then current ||| mask
  else if op = -1 then current &&& ~~~mask
  else mask

/-- A message that a STORE names: its row in `list_cached_message_meta`. -/
structure StoreTarget where
  uid : Nat
  id : String
  oldFlags : BitVec 32
  deriving DecidableEq, Repr

/-- A STORE between its parts: the listing is read, or the flags are written and these
changes are not queued yet, bit by bit. -/
inductive StoreTask where
  | listed (folder : String) (op : Int) (mask : BitVec 32) (targets : List StoreTarget)
  | written (changes : List (Fin 64 × List (String × Bool)))
  deriving DecidableEq, Repr

/-- The messages of a folder with these UIDs. -/
def storeTargets (db : Database) (folder : String) (uids : List Nat) : List StoreTarget :=
  ((db.cache.listCachedMessageMeta folder).filter fun m => uids.contains m.imapUid).map fun m =>
    ⟨m.imapUid, m.asterId, m.row.flags.setWidth 32⟩

/-- The flags of all targets, in one transaction. -/
def writeStore (db : Database) (folder : String) (op : Int) (mask : BitVec 32)
    (targets : List StoreTarget) : Database :=
  targets.foldl (fun db t => db.onCache fun c =>
    c.updateMessageFlags t.uid folder ((applyFlags t.oldFlags op mask).setWidth 64)) db

/-- The targets whose bit changes, with the new value: `seen_changes` and
`star_changes`. -/
def changesOf (op : Int) (mask : BitVec 32) (targets : List StoreTarget) (bit : Fin 64) :
    List (String × Bool) :=
  targets.filterMap fun t =>
    let value := (applyFlags t.oldFlags op mask).getLsbD bit.val
    if t.oldFlags.getLsbD bit.val ≠ value then some (t.id, value) else none

/-! ## Pushes -/

/-- What a push asks for: in bulk first, then for one message. -/
inductive PushMode where
  | bulk
  | single
  deriving DecidableEq, Repr

/-- The next step of a push: look at the flags; drop the queued row, since the change is
superseded; send; wait for the answer, where `applied` says whether the server has
carried the request out; drop the row, since the change is made; count the failure. -/
inductive PushPhase where
  | check
  | superseded
  | send
  | sent (applied : Bool)
  | made
  | failed
  | finished
  deriving DecidableEq, Repr

/-- A push of a value for a bit of a message. -/
structure Push where
  id : String
  bit : Fin 64
  value : Bool
  retries : Nat
  mode : PushMode
  attempt : Nat
  phase : PushPhase
  deriving DecidableEq, Repr

/-- The bits that the server has a field for: `is_read` and `is_starred`. -/
def flagField (bit : Fin 64) : Option String :=
  if bit = 0 then some "is_read" else if bit = 2 then some "is_starred" else none

def READ_STATUS_RATE_LIMIT_RETRIES : Nat := 3
def PENDING_FLAG_PUSH_BATCH : Nat := 500
def PENDING_FLAG_PUSH_SETTLE_MS : Int := 120000
def PENDING_FLAG_PUSH_MAX_ATTEMPTS : Int := 20

/-- A push before its first step. A queued row whose bit has no field is dropped. -/
def Push.start (id : String) (bit : Fin 64) (value : Bool) (retries : Nat) : Push where
  id := id
  bit := bit
  value := value
  retries := retries
  mode := .bulk
  attempt := 0
  phase := if (flagField bit).isSome then .check else .superseded

/-- The changes of `push_flag_status`: each message once, with its last value. -/
def wantedChanges : List (String × Bool) → List (String × Bool)
  | [] => []
  | (id, value) :: rest =>
      let last := (rest.filter fun c => c.1 = id).getLast?
      (id, (last.map (·.2)).getD value) :: (wantedChanges rest).filter fun c => c.1 ≠ id

/-- `read_status_still_wanted`: a message that is not cached wants every value. -/
def readStatusStillWanted (db : Database) (id : String) (value : Bool) (bit : Fin 64) : Bool :=
  ((db.cache.getMessageFlagsById id).map fun flags => flags.getLsbD bit.val == value).getD true

/-- How the server answers: done, no such message (404), too many requests (429), any
other error that `flag_push_should_retry` accepts, or one that it does not. -/
inductive Answer where
  | ok
  | notFound
  | rateLimited
  | transient
  | error
  deriving DecidableEq, Repr

/-- A push after an answer. Too many requests: wait and look again, up to the limit. Any
other failure in bulk: the messages one at a time. -/
def Push.answered (p : Push) (a : Answer) : Push :=
  let again := if p.attempt < p.retries then { p with attempt := p.attempt + 1, phase := .check }
    else { p with phase := .failed }
  match p.mode, a with
  | _, .ok => { p with phase := .made }
  | _, .rateLimited => again
  | .bulk, _ => { p with mode := .single, attempt := 0, phase := .check }
  | .single, .notFound => { p with phase := .made }
  | .single, .transient => again
  | .single, .error => { p with phase := .failed }

/-! ## The system -/

/-- A request that the server may still carry out although its answer is in. -/
structure LateRequest where
  id : String
  bit : Fin 64
  value : Bool
  deriving DecidableEq, Repr

/-- The database, the server's flags of the messages it has, and everything that is
under way. `dropped` keeps the keys whose row was given up for too many attempts, until
a new change is queued. -/
structure PushState where
  db : Database
  server : String → Option (Fin 64 → Bool)
  stores : List StoreTask
  pushes : List Push
  late : List LateRequest
  dropped : List (String × Fin 64)

/-- The server carries out a request, if it has the message. -/
def carryOut (server : String → Option (Fin 64 → Bool)) (id : String) (bit : Fin 64)
    (value : Bool) : String → Option (Fin 64 → Bool) := fun j =>
  if j = id then (server id).map fun flags b => if b = bit then value else flags b else server j

/-- One step of one party. -/
inductive PushEvent where
  | storeList (folder : String) (uids : List Nat) (op : Int) (mask : BitVec 32)
  | storeWrite (i : Nat)
  | storePush (i : Nat) (now : Int)
  | push (i : Nat)
  | serverApplies (i : Nat)
  | answer (i : Nat) (a : Answer) (late : Bool)
  | lateApplies (i : Nat)
  | serverForgets (id : String)
  | dropExhausted
  | retry (now : Int)
  deriving DecidableEq, Repr

namespace PushState

/-- The queue after a function of it. -/
def onQueue (s : PushState) (f : FlagPushQueue → FlagPushQueue) : PushState :=
  { s with db := { s.db with flagPushes := f s.db.flagPushes } }

/-- A push with its next phase. -/
def setPhase (s : PushState) (i : Nat) (p : Push) (phase : PushPhase) : PushState :=
  { s with pushes := s.pushes.set i { p with phase } }

/-- `push_flag_status`: the changes are queued, and a task starts. -/
def pushFlagStatus (s : PushState) (now : Int) (bit : Fin 64) (changes : List (String × Bool)) :
    PushState :=
  let queued := s.onQueue fun q => q.recordPendingFlagPushes now changes bit
  { queued with
    pushes := s.pushes ++ (wantedChanges changes).map fun c =>
      Push.start c.1 bit c.2 READ_STATUS_RATE_LIMIT_RETRIES
    dropped := s.dropped.filter fun k => !(k.2 = bit && (changes.map (·.1)).contains k.1) }

/-- The next step of a push that does not wait for the server. -/
def pushStep (s : PushState) (i : Nat) (p : Push) : PushState :=
  match p.phase with
  | .check =>
      s.setPhase i p (if readStatusStillWanted s.db p.id p.value p.bit then .send else .superseded)
  | .superseded | .made =>
      (s.onQueue fun q => q.clearPendingFlagPushes [p.id] p.bit p.value).setPhase i p .finished
  | .send => s.setPhase i p (.sent false)
  | .sent _ => s
  | .failed => (s.onQueue fun q => q.noteFailedFlagPush p.id p.bit p.value).setPhase i p .finished
  | .finished => s

/-- An answer to a push. The server says that a request is done only once it is, or
when it has no such message, which it may also say. After a failure a request that was not
carried out may be carried out `late`. -/
def answerStep (s : PushState) (i : Nat) (p : Push) (a : Answer) (late : Bool) : PushState :=
  match p.phase with
  | .sent applied =>
      if (a = .ok ∧ applied = false ∨ a = .notFound) ∧ (s.server p.id).isSome then s
      else
        { s with
          pushes := s.pushes.set i (p.answered a)
          late := if late && !applied then s.late ++ [⟨p.id, p.bit, p.value⟩] else s.late }
  | _ => s

/-- The rows that `drop_exhausted_flag_pushes` deletes. -/
def exhausted (s : PushState) : List (String × Fin 64) :=
  (s.db.flagPushes.rows.filter fun e => PENDING_FLAG_PUSH_MAX_ATTEMPTS ≤ e.2.attempts).map (·.1)

/-- The pushes that `retry_pending_flag_pushes` starts. -/
def retried (s : PushState) (now : Int) : List Push :=
  (s.db.flagPushes.pendingFlagPushes now PENDING_FLAG_PUSH_SETTLE_MS PENDING_FLAG_PUSH_BATCH).map
    fun row => Push.start row.1 row.2.1 row.2.2 0

def step (s : PushState) : PushEvent → PushState
  | .storeList folder uids op mask =>
      { s with stores := s.stores ++ [.listed folder op mask (storeTargets s.db folder uids)] }
  | .storeWrite i =>
      match s.stores[i]? with
      | some (.listed folder op mask targets) =>
          { s with
            db := writeStore s.db folder op mask targets
            stores := s.stores.set i (.written
              [(0, changesOf op mask targets 0), (2, changesOf op mask targets 2)]) }
      | _ => s
  | .storePush i now =>
      match s.stores[i]? with
      | some (.written ((bit, changes) :: rest)) =>
          { s.pushFlagStatus now bit changes with stores := s.stores.set i (.written rest) }
      | _ => s
  | .push i =>
      match s.pushes[i]? with
      | some p => s.pushStep i p
      | none => s
  | .serverApplies i =>
      match s.pushes[i]? with
      | some p =>
          if p.phase = .sent false then
            { s.setPhase i p (.sent true) with server := carryOut s.server p.id p.bit p.value }
          else s
      | none => s
  | .answer i a late =>
      match s.pushes[i]? with
      | some p => s.answerStep i p a late
      | none => s
  | .lateApplies i =>
      match s.late[i]? with
      | some r =>
          { s with server := carryOut s.server r.id r.bit r.value, late := s.late.eraseIdx i }
      | none => s
  | .serverForgets id => { s with server := fun j => if j = id then none else s.server j }
  | .dropExhausted =>
      { s.onQueue fun q => q.dropExhaustedFlagPushes PENDING_FLAG_PUSH_MAX_ATTEMPTS with
        dropped := s.dropped ++ s.exhausted }
  | .retry now => { s with pushes := s.pushes ++ s.retried now }

end PushState

end AsterBridge.Imap
