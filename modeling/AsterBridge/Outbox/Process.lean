import AsterBridge.Db.Cache
import AsterBridge.Db.Outbox
import AsterBridge.Error
import AsterBridge.Lib.Unicode
import AsterBridge.Smtp.Session

/-!
# The outbox loop

`outbox.rs`: `process_one` takes a row to the server, `run_outbox_loop` takes every due row
to `process_one`, one at a time. A step of the system is what happens between two points at
which other tasks, the server or a crash can step in. Its action carries the clock, the
results of the statements and of the send, and the contents of the Sent folder.

The notice that a failed send puts into the inbox is left out: it touches neither the
outbox nor the Sent folder.
-/

set_option autoImplicit false

namespace AsterBridge.Outbox

open AsterBridge.Lib AsterBridge.Lib.Text AsterBridge.Lib.Unicode AsterBridge.Db

/-! ## When a row is due -/

/-- `MAX_ATTEMPTS` -/
def maxAttempts : Int := 7

/-- `STALE_SENDING_SECS` -/
def staleSendingSecs : Int := 600

/-- `BACKOFF_SECS` -/
def backoffSecs : List Int := [30, 60, 120, 300, 900, 1800, 3600]

/-- `ready_to_retry` -/
def readyToRetry (now : Int) (row : OutboxRow) : Bool :=
  if row.attempts ≤ 0 then true
  else
    let idx := (min (row.attempts - 1) (backoffSecs.length - 1)).toNat
    row.lastAttemptAt.getD row.queuedAt + backoffSecs.getD idx 0 ≤ now

/-- `due_for_automatic_send` -/
def dueForAutomaticSend (now : Int) (row : OutboxRow) : Bool :=
  row.status ≠ .failed && row.attempts < maxAttempts && readyToRetry now row

/-! ## The copy in the Sent folder -/

/-- What `mail_parser` reads of a message: its subject and its Message-ID. -/
structure ParsedMail where
  subject : Option String
  messageId : Option String

/-- Third-party readers: the mail parser, the JSON reader of the stored metadata (its text
`message_id`), and the date readers of `chrono`, which give the timestamp. -/
structure Readers where
  parse : List UInt8 → Option ParsedMail
  metaMessageId : String → Option String
  rfc3339 : List Char → Option Int
  rfc2822 : List Char → Option Int
  fromFormat : List Char → String → Option Int

/-- `parse_datetime_lenient`, down to the timestamp. -/
def parseDatetimeLenient (x : Readers) (s : String) : Option Int :=
  let t := trim s.toList
  let noWeekday := match find [','] t with
    | some pos => trim (t.drop (pos + 1))
    | none => t
  (x.rfc3339 t).orElse fun _ => (x.rfc2822 t).orElse fun _ =>
    (x.fromFormat noWeekday "%d %b %Y %H:%M:%S %z").orElse fun _ =>
      x.fromFormat noWeekday "%d %b %Y %H:%M %z"

/-- `normalize_message_id` -/
def normalizeMessageId (raw : String) : List Char :=
  let isBracket (c : Char) : Bool := c == '<' || c == '>'
  trim (((trim raw.toList).dropWhile isBracket).rdropWhile isBracket)

/-- `stored_message_id` -/
def storedMessageId (x : Readers) (m : CachedMessage) : Option (List Char) :=
  ((m.row.rawHeaders.bind x.metaMessageId).map normalizeMessageId).filter (· ≠ [])

/-- `str::split` at a character. -/
def splitOn (sep : Char) (cs : List Char) : List (List Char) := cs.splitOn sep

/-- The addresses that `sent_copy_exists` looks for. -/
def envelopeAddrs (T : CaseTables) (row : OutboxRow) : List (List Char) :=
  ((splitOn ',' row.envelopeTo.toList).map fun s => T.toLowercase (trim s)).filter (· ≠ [])

/-- A cached message that counts as the copy of a message without a Message-ID. -/
def looksSent (T : CaseTables) (x : Readers) (row : OutboxRow) (subject : List Char)
    (m : CachedMessage) : Bool :=
  (m.row.subject.map fun s => trim s.toList) = some subject &&
    ((m.row.date.bind (parseDatetimeLenient x)).any fun d => row.queuedAt - 60 ≤ d) &&
    m.row.recipients.any fun r =>
      (envelopeAddrs T row).any fun a => contains (T.toLowercase r.toList) a

/-- `sent_copy_exists`; `sent` is `none` where the listing of the Sent folder fails. -/
def sentCopyExists (T : CaseTables) (x : Readers) (sent : Option (List CachedMessage))
    (row : OutboxRow) : Bool :=
  match x.parse row.rawMime with
  | none => false
  | some parsed =>
      match (parsed.subject.map fun s => trim s.toList).filter (· ≠ []) with
      | none => false
      | some subject =>
          match sent with
          | none => false
          | some sent =>
              match (parsed.messageId.map normalizeMessageId).filter (· ≠ []) with
              | some messageId =>
                  sent.any fun m => (storedMessageId x m).any fun stored =>
                    eqIgnoreAsciiCase stored messageId
              | none =>
                  if row.attempts = 0 || (envelopeAddrs T row).isEmpty then false
                  else sent.any (looksSent T x row subject)

/-! ## The send -/

/-- What `try_send_row` passes to `build_threaded_send_payload`. -/
structure Submission where
  rawMime : List UInt8
  sender : Option String
  recipients : List String
deriving DecidableEq

/-- The arguments of `try_send_row`. -/
def submissionOf (row : OutboxRow) : Submission where
  rawMime := row.rawMime
  sender := if row.envelopeFrom.isEmpty then none else some row.envelopeFrom
  recipients := ((splitOn ',' row.envelopeTo.toList).filter (· ≠ [])).map String.ofList

/-! ## The loop -/

/-- Where the loop is: not running; waiting, or between two of the rows `rest` that it has
listed; inside `process_one` after it has claimed the row, or after it has found no copy. -/
inductive Worker where
  | down
  | running (rest : List (Int × OutboxRow))
  | claimed (id : Int) (row : OutboxRow) (rest : List (Int × OutboxRow))
  | sending (id : Int) (row : OutboxRow) (rest : List (Int × OutboxRow))

/-- What happens to a row. `carriedOut` is the server's: it has sent the mail. -/
inductive Event where
  | inserted (id : Int) (row : OutboxRow)
  | claimed (id : Int)
  | released (id : Int)
  | copyFound (id : Int) (row : OutboxRow) (sent : List CachedMessage)
  | carriedOut (id : Int) (mail : Submission)

/-- The database, the loop, and what has happened. -/
structure System where
  outbox : Db.Outbox
  worker : Worker
  transcript : List Event

/-- The loop is not running yet. -/
def System.start (outbox : Db.Outbox) : System := ⟨outbox, .down, []⟩

/-- A step. `ok` flags say whether a statement succeeds; an error of the send may hide that
the server has carried it out. -/
inductive Action where
  | insert (rawMime : List UInt8) (envelopeFrom envelopeTo : String) (now : Int)
  | run (now : Int) (resetOk : Bool)
  | tick (now : Int) (resetOk listOk : Bool)
  | next (now : Int) (claimOk : Bool)
  | trigger (id : Int) (getOk : Bool) (now : Int) (claimOk : Bool)
  | check (sent : Option (List CachedMessage)) (now : Int) (markOk : Bool)
  | sent (result : Except BridgeError Unit) (tookEffect : Bool) (now : Int) (markOk : Bool)
  | crash (tookEffect : Bool)

namespace System

/-- The head of `process_one`: `outbox_mark_sending`, and what depends on its count. -/
def claim (s : System) (id : Int) (row : OutboxRow) (rest : List (Int × OutboxRow)) (now : Int)
    (ok : Bool) : System :=
  if ok ∧ 0 < (s.outbox.markSending id now).2 then
    ⟨(s.outbox.markSending id now).1, .claimed id row rest, s.transcript ++ [.claimed id]⟩
  else { s with worker := .running rest }

/-- The end of `process_one`, with the last update of the row if that succeeds. -/
def release (s : System) (id : Int) (rest : List (Int × OutboxRow)) (ok : Bool)
    (update : Db.Outbox → Db.Outbox) : System :=
  ⟨if ok then update s.outbox else s.outbox, .running rest, s.transcript ++ [.released id]⟩

/-- The update of `process_one` after a send that failed. -/
def afterError (id : Int) (row : OutboxRow) (e : BridgeError) (now : Int) (o : Db.Outbox) :
    Db.Outbox :=
  if !Smtp.isTransientSendError e then o.markFailed id e.toText now
  else if maxAttempts ≤ row.attempts + 1 then o.markFailed id e.toText now
  else o.bumpAttempt id e.toText now

/-- The server carries out the send of a row. -/
def carryOut (s : System) (id : Int) (row : OutboxRow) (tookEffect : Bool) : System :=
  if tookEffect then { s with transcript := s.transcript ++ [.carriedOut id (submissionOf row)] }
  else s

/-- **One step of the outbox.** -/
def step (T : CaseTables) (x : Readers) (s : System) : Action → System
  | .insert rawMime envelopeFrom envelopeTo now =>
      let row := Db.Outbox.newRow rawMime envelopeFrom envelopeTo now
      { s with
        outbox := (s.outbox.insert row).1
        transcript := s.transcript ++ [.inserted (s.outbox.insert row).2 row] }
  | .run now resetOk =>
      match s.worker with
      | .down =>
          let o := if resetOk then s.outbox.resetStaleSending 0 now else s.outbox
          ⟨o, .running [], s.transcript⟩
      | _ => s
  | .tick now resetOk listOk =>
      match s.worker with
      | .running [] =>
          let o := if resetOk then s.outbox.resetStaleSending staleSendingSecs now else s.outbox
          ⟨o, .running (if listOk then o.listPending else []), s.transcript⟩
      | _ => s
  | .next now claimOk =>
      match s.worker with
      | .running ((id, row) :: rest) =>
          if dueForAutomaticSend now row then s.claim id row rest now claimOk
          else { s with worker := .running rest }
      | _ => s
  | .trigger id getOk now claimOk =>
      match s.worker with
      | .running [] =>
          match (if getOk then s.outbox.get id else none) with
          | some row => if row.status = .sent then s else s.claim id row [] now claimOk
          | none => s
      | _ => s
  | .check sent now markOk =>
      match s.worker with
      | .claimed id row rest =>
          if sentCopyExists T x sent row then
            let found : System :=
              { s with transcript := s.transcript ++ [.copyFound id row (sent.getD [])] }
            found.release id rest markOk fun o => o.markSent id now
          else { s with worker := .sending id row rest }
      | _ => s
  | .sent result tookEffect now markOk =>
      match s.worker with
      | .sending id row rest =>
          match result with
          | .ok () => (s.carryOut id row true).release id rest markOk fun o => o.markSent id now
          | .error e =>
              (s.carryOut id row tookEffect).release id rest markOk (afterError id row e now)
      | _ => s
  | .crash tookEffect =>
      match s.worker with
      | .claimed id _ _ => { s with worker := .down, transcript := s.transcript ++ [.released id] }
      | .sending id row _ =>
          { s.carryOut id row tookEffect with
            worker := .down
            transcript := (s.carryOut id row tookEffect).transcript ++ [.released id] }
      | _ => { s with worker := .down }

end System

end AsterBridge.Outbox
