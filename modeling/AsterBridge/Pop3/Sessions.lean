import AsterBridge.Error
import AsterBridge.Lib.Locks
import AsterBridge.Lib.Unicode
import AsterBridge.Pop3.Maildrop

/-!
# Sessions on one maildrop

`run_session_inner` of `pop3/server.rs`, for any number of connections at the same time, while
synchronisation changes the cache. A connection is a task. It takes one step for each line that it
reads, and while it carries out QUIT one step for each message, since it waits for the server
there. `POP3_SESSION_ACTIVE` is the lock of the maildrop, taken by PASS and given back when the
function returns.

DELE only marks. What the server is asked to move to the trash, and what then leaves the cache, are
the messages that this client marked and did not unmark (`trash_is_marked`), whatever happens to
the connection.
-/

set_option autoImplicit false

namespace AsterBridge.Pop3.Sessions

open AsterBridge.Lib AsterBridge.Lib.Text AsterBridge.Lib.Lines AsterBridge.Lib.Unicode
open AsterBridge.Lib.Tasks AsterBridge.Lib.Runs AsterBridge.Render

/-! ## The cache and the maildrop -/

/-- A row of `message_cache` with its attachments. -/
structure Row where
  folder : String
  message : StoredMessage
  attachments : List CachedAttachment

/-- What all connections share: the rows in the order of their UIDs, and `POP3_SESSION_ACTIVE` with
the connection that set it. -/
structure Shared where
  rows : List Row
  active : Option Nat

/-- `list_cached_message_meta` and `list_attachment_meta_for_folder` of the inbox; no message is
deleted yet. -/
def listInbox (rows : List Row) : List Entry :=
  (rows.filter fun r => r.folder == "inbox").map fun r =>
    ⟨listed r.message, r.attachments.map listedAttachment, false⟩

/-- `get_cached_message` with `get_message_attachments` -/
def getCachedMessage (rows : List Row) (asterId : String) : Option Row :=
  rows.find? fun r => r.message.asterId == asterId

/-- `delete_message_by_aster_id` -/
def deleteMessageByAsterId (rows : List Row) (asterId : String) : List Row :=
  rows.filter fun r => r.message.asterId != asterId

/-- `n == 0 || n > messages.len() || deleted[n - 1]` is false: the message of that number. -/
def entryAt (maildrop : List Entry) (n : Nat) : Option Entry :=
  if n = 0 then none else maildrop[n - 1]?.filter fun e => !e.deleted

/-- `deleted[n - 1] = true` -/
def mark (maildrop : List Entry) (n : Nat) : List Entry :=
  maildrop.modify (n - 1) fun e => { e with deleted := true }

/-- The loop of RSET. -/
def unmarkAll (maildrop : List Entry) : List Entry :=
  maildrop.map fun e => { e with deleted := false }

/-! ## Replies -/

/-- `TLS_REQUIRED_TEXT` -/
def tlsRequiredText : String := "Turn on SSL/TLS for this account in your mail app, then try again"

/-- `BAD_CREDENTIALS_TEXT` -/
def badCredentialsText : String :=
  "Sign-in failed. Use the username and app password shown in Aster Bridge"

/-- `ATTACHMENTS_UNAVAILABLE` -/
def attachmentsUnavailable : List Char :=
  ("-ERR [SYS/TEMP] the attachments of this message could not be downloaded; " ++
    "try again later").toList ++ crlf

/-- A reply of one line. -/
def reply (text : String) : List Char := text.toList ++ crlf

/-- The lines of a reply after its first, with the end. -/
def listingReply (first : String) (lines : List (List Char)) : List Char :=
  reply first ++ lines.flatten ++ reply "."

/-- `uidl_line` -/
def uidlLine (n : Nat) (asterId : String) : List Char :=
  (toString n ++ " ").toList ++
    (asterId.toList.filter fun c => decide ('\x21' ≤ c ∧ c ≤ '\x7e')) ++ crlf

/-- The messages that are not deleted, with their numbers. -/
def numbered (maildrop : List Entry) : List (Entry × Nat) :=
  (maildrop.zipIdx 1).filter fun e => !e.1.deleted

/-- What `pop3_size` says of an entry. -/
def entrySize (x : RenderCrates) (e : Entry) : Nat := listSize x e.message e.attachments

/-- The capabilities, with STLS where the connection can be upgraded. -/
def capabilities (stlsCapable : Bool) : List Char :=
  listingReply "+OK Capability list follows"
    ((if stlsCapable then [reply "STLS"] else []) ++
      ["USER", "UIDL", "TOP", "RESP-CODES", "EXPIRE NEVER", "IMPLEMENTATION Aster Bridge"].map
        reply)

/-- The reply to LIST. -/
def replyList (x : RenderCrates) (maildrop : List Entry) (args : List Char) : List Char :=
  if args = [] then
    listingReply ("+OK " ++ toString (numbered maildrop).length ++ " messages (" ++
        toString (statOctets x maildrop) ++ " octets)")
      ((numbered maildrop).map fun e => reply (toString e.2 ++ " " ++ toString (entrySize x e.1)))
  else
    match parseUInt (2 ^ 64) (String.ofList args) with
    | none => reply "-ERR syntax error"
    | some n =>
        match entryAt maildrop n with
        | none => reply "-ERR no such message"
        | some e => reply ("+OK " ++ toString n ++ " " ++ toString (entrySize x e))

/-- The reply to UIDL. -/
def replyUidl (maildrop : List Entry) (args : List Char) : List Char :=
  if args = [] then
    listingReply "+OK" ((numbered maildrop).map fun e => uidlLine e.2 e.1.message.asterId)
  else
    match parseUInt (2 ^ 64) (String.ofList args) with
    | none => reply "-ERR syntax error"
    | some n =>
        match entryAt maildrop n with
        | none => reply "-ERR no such message"
        | some e => "+OK ".toList ++ uidlLine n e.message.asterId

/-- The reply to QUIT. -/
def replyQuit (anyFailed : Bool) : List Char :=
  if anyFailed then reply "-ERR [SYS/TEMP] some deleted messages not removed"
  else reply "+OK Aster Bridge POP3 server signing off"

/-! ## Connections -/

/-- Third-party code: what rendering uses, and the case tables of Unicode. -/
structure Pop3Crates where
  render : RenderCrates
  caseMaps : CaseMaps

/-- The commands that the source knows. -/
inductive Verb where
  | user | apop | stls | pass | capa | quit
  | stat | list | uidl | retr | top | dele | rset | noop
  | other
deriving DecidableEq

/-- The arms of the two matches on `cmd`. -/
def verbOf (cmd : List Char) : Verb :=
  if cmd = "USER".toList then .user
  else if cmd = "APOP".toList then .apop
  else if cmd = "STLS".toList then .stls
  else if cmd = "PASS".toList then .pass
  else if cmd = "CAPA".toList then .capa
  else if cmd = "QUIT".toList then .quit
  else if cmd = "STAT".toList then .stat
  else if cmd = "LIST".toList then .list
  else if cmd = "UIDL".toList then .uidl
  else if cmd = "RETR".toList then .retr
  else if cmd = "TOP".toList then .top
  else if cmd = "DELE".toList then .dele
  else if cmd = "RSET".toList then .rset
  else if cmd = "NOOP".toList then .noop
  else .other

/-- A line as `cmd` and `args`. -/
def readLine (x : Pop3Crates) (line : List Char) : Verb × List Char :=
  let trimmed := trimEnd line
  match splitOnce ' ' trimmed with
  | some (cmd, args) => (verbOf (x.caseMaps.toUppercase cmd), trim args)
  | none => (verbOf (x.caseMaps.toUppercase trimmed), [])

/-- `parse::<usize>` -/
def parseNumber (args : List Char) : Option Nat := parseUInt (2 ^ 64) (String.ofList args)

/-- `MAX_FAILED_AUTH` -/
def maxFailedAuth : Nat := 5

/-- A connection that has not signed in. -/
structure Client where
  stlsCapable : Bool
  userName : Option (List Char)
  refreshedIdentities : Bool
  failedAuth : Nat

/-- The client of a new stream. -/
def Client.new (stlsCapable : Bool) : Client := ⟨stlsCapable, none, false, 0⟩

/-- Where the function stands. `closing` and `signedOff` are its last writes, behind a `break`;
after QUIT the reply tells whether a removal failed. -/
inductive Phase where
  | signingIn (c : Client)
  | transaction
  | quitting (i : Nat) (anyFailed : Bool)
  | signedOff (anyFailed : Bool)
  | closing (locked : Bool)
  | returned

/-- Whether `_session_lock` is set. -/
def Phase.holds : Phase → Bool
  | .signingIn _ => false
  | .transaction => true
  | .quitting _ _ => true
  | .signedOff _ => true
  | .closing locked => locked
  | .returned => false

/-- A connection: `messages` with `deleted`, the lines that were read since it signed in, what the
server was asked to move to the trash, with its answers, and what was written. -/
structure Conn where
  phase : Phase
  maildrop : List Entry
  lines : List (List Char)
  asked : List (String × Except BridgeError Unit)
  written : List (List Char)

/-- `write_all` of a reply, in a phase. -/
def Conn.say (t : Conn) (phase : Phase) (text : List Char) : Conn :=
  { t with
    phase
    written := t.written ++ [text] }

/-- A new connection has its greeting. -/
def Conn.start (stlsCapable : Bool) : Conn :=
  ⟨.signingIn (Client.new stlsCapable), [], [], [], [reply "+OK Aster Bridge POP3 ready"]⟩

/-- What is found out while a line is carried out: whether the app password is known, whether the
account goes by the user name, before its identities are fetched again and after, whether the
database can be read, whether the TLS handshake succeeds, and the rows after the attachments of a
message were fetched, unless they are not available. -/
structure Answers where
  matched : Bool
  accepted : Bool
  acceptedNow : Bool
  listing : Bool
  attachmentListing : Bool
  handshake : Bool
  fill : Option (List Row)

/-! ## Signing in -/

/-- Whether PASS is accepted, and `refreshed_identities`. -/
def passAccepted (c : Client) (a : Answers) : Bool × Bool :=
  if a.matched = false then (false, c.refreshedIdentities)
  else if a.accepted then (true, c.refreshedIdentities)
  else (a.acceptedNow, true)

/-- `unwrap_or_default` of the two listings. -/
def openMaildrop (a : Answers) (rows : List Row) : List Entry :=
  if a.listing = false then []
  else if a.attachmentListing then listInbox rows
  else (listInbox rows).map fun e => { e with attachments := [] }

/-- PASS, when USER is there. -/
def signIn (i : Nat) (s : Shared) (t : Conn) (c : Client) (a : Answers) : Shared × Conn :=
  let (accepted, refreshedIdentities) := passAccepted c a
  if accepted then
    match s.active with
    | some _ =>
        (s, t.say (.closing false)
          (reply "-ERR [IN-USE] Maildrop already locked by another session"))
    | none =>
        ({ s with active := some i },
          ({ t with maildrop := openMaildrop a s.rows } : Conn).say .transaction
            (reply "+OK maildrop ready"))
  else if maxFailedAuth ≤ c.failedAuth + 1 then
    (s, t.say (.closing false) (reply "-ERR too many failed attempts"))
  else
    (s, t.say (.signingIn { c with refreshedIdentities, failedAuth := c.failedAuth + 1 })
      (reply ("-ERR " ++ badCredentialsText)))

/-- A line before the connection has signed in. -/
def signInLine (x : Pop3Crates) (i : Nat) (s : Shared) (t : Conn) (c : Client) (line : List Char)
    (a : Answers) : Shared × Conn :=
  let here : Phase := .signingIn c
  match readLine x line with
  | (.user, args) =>
      if c.stlsCapable then
        (s, t.say here (reply ("-ERR [PRIVACYREQUIRED] " ++ tlsRequiredText)))
      else (s, t.say (.signingIn { c with userName := some args }) (reply "+OK user accepted"))
  | (.apop, _) => (s, t.say here (reply "-ERR APOP not supported"))
  | (.stls, _) =>
      if c.stlsCapable = false then (s, t.say here (reply "-ERR STLS not available"))
      else if a.handshake then
        -- the session begins anew on the encrypted stream, without a greeting
        (s, t.say (.signingIn (Client.new false)) (reply "+OK Begin TLS negotiation"))
      else (s, t.say .returned (reply "+OK Begin TLS negotiation"))
  | (.pass, _) =>
      if c.stlsCapable then
        (s, t.say here (reply ("-ERR [PRIVACYREQUIRED] " ++ tlsRequiredText)))
      else if c.userName = none then (s, t.say here (reply "-ERR USER required first"))
      else signIn i s t c a
  | (.capa, _) => (s, t.say here (capabilities c.stlsCapable))
  | (.quit, _) => (s, t.say (.closing false) (reply "+OK bye"))
  | _ => (s, t.say here (reply "-ERR please authenticate first"))

/-! ## The transaction -/

/-- `with_attachments`: the rows after the fetch, and the message with its parts. -/
def withAttachments (rows : List Row) (fill : Option (List Row)) (stored : Row) :
    List Row × Option Row :=
  if stored.message.attachmentsState ≠ .onDemand then (rows, some stored)
  else
    match fill with
    | none => (rows, none)
    | some filled =>
        (filled, (getCachedMessage filled stored.message.asterId).filter fun r =>
          r.message.attachmentsState != .onDemand)

/-- `full_message_text` of a row. -/
def rowText (x : Pop3Crates) (r : Row) : List Char :=
  fullMessageText x.render r.message r.attachments

/-- The reply to RETR, with the rows after it. -/
def retr (x : Pop3Crates) (rows : List Row) (maildrop : List Entry) (args : List Char)
    (fill : Option (List Row)) : List Row × List Char :=
  match parseNumber args with
  | none => (rows, reply "-ERR syntax error")
  | some n =>
      match entryAt maildrop n with
      | none => (rows, reply "-ERR no such message")
      | some e =>
          match getCachedMessage rows e.message.asterId with
          | none => (rows, reply "-ERR message body unavailable")
          | some stored =>
              match withAttachments rows fill stored with
              | (after, none) => (after, attachmentsUnavailable)
              | (after, some full) => (after, retrResponse (rowText x full))

/-- The two numbers of TOP, 0 for what is no number. -/
def topNumbers (args : List Char) : Nat × Nat :=
  match splitOnce ' ' args with
  | some (number, count) => ((parseNumber number).getD 0, (parseNumber count).getD 0)
  | none => ((parseNumber args).getD 0, 0)

/-- The reply to TOP, with the rows after it. -/
def top (x : Pop3Crates) (rows : List Row) (maildrop : List Entry) (args : List Char)
    (fill : Option (List Row)) : List Row × List Char :=
  let (n, lineCount) := topNumbers args
  match (entryAt maildrop n).bind fun e => getCachedMessage rows e.message.asterId with
  | none => (rows, reply "-ERR no such message")
  | some stored =>
      if lineCount = 0 then (rows, topResponse (rowText x stored) lineCount)
      else
        match withAttachments rows fill stored with
        | (after, none) => (after, attachmentsUnavailable)
        | (after, some full) => (after, topResponse (rowText x full) lineCount)

/-- DELE: the maildrop after it, and the reply. -/
def dele (maildrop : List Entry) (args : List Char) : List Entry × List Char :=
  match parseNumber args with
  | none => (maildrop, reply "-ERR syntax error")
  | some n =>
      match entryAt maildrop n with
      | none => (maildrop, reply "-ERR no such message")
      | some _ => (mark maildrop n, reply ("+OK message " ++ toString n ++ " deleted"))

/-- A reply that changes nothing of the session. -/
def Conn.answer (t : Conn) (text : List Char) : Conn := t.say .transaction text

/-- A line after the connection has signed in. -/
def transactionLine (x : Pop3Crates) (s : Shared) (before : Conn) (line : List Char) (a : Answers) :
    Shared × Conn :=
  let t : Conn := { before with lines := before.lines ++ [line] }
  match readLine x line with
  | (.stat, _) =>
      (s, t.answer (reply ("+OK " ++ toString (numbered t.maildrop).length ++ " " ++
        toString (statOctets x.render t.maildrop))))
  | (.list, args) => (s, t.answer (replyList x.render t.maildrop args))
  | (.uidl, args) => (s, t.answer (replyUidl t.maildrop args))
  | (.retr, args) =>
      let (rows, text) := retr x s.rows t.maildrop args a.fill
      ({ s with rows }, t.answer text)
  | (.top, args) =>
      let (rows, text) := top x s.rows t.maildrop args a.fill
      ({ s with rows }, t.answer text)
  | (.dele, args) =>
      let (maildrop, text) := dele t.maildrop args
      (s, ({ t with maildrop } : Conn).answer text)
  | (.rset, _) =>
      (s, ({ t with maildrop := unmarkAll t.maildrop } : Conn).answer
        (reply ("+OK " ++ toString t.maildrop.length ++ " messages")))
  | (.noop, _) => (s, t.answer (reply "+OK"))
  | (.capa, _) => (s, t.answer (capabilities false))
  | (.quit, _) => (s, { t with phase := .quitting 0 false })
  | _ => (s, t.answer (reply "-ERR unknown command"))

/-! ## QUIT -/

/-- `server_gone` -/
def serverGone : Except BridgeError Unit → Bool
  | .ok () => true
  | .error (.api m) => "404".toList.isPrefixOf m.toList
  | .error _ => false

/-- One round of the loop of QUIT, with the answer of `set_mailbox_flags` and whether the database
carries out the deletion; behind the last message, the reply. -/
def quitStep (s : Shared) (t : Conn) (i : Nat) (anyFailed : Bool) (status : Except BridgeError Unit)
    (deletes : Bool) : Shared × Conn :=
  match t.maildrop[i]? with
  | none => (s, t.say (.signedOff anyFailed) (replyQuit anyFailed))
  | some e =>
      if e.deleted = false then (s, { t with phase := .quitting (i + 1) anyFailed })
      else if serverGone status then
        ((if deletes then { s with rows := deleteMessageByAsterId s.rows e.message.asterId }
          else s),
          { t with
            phase := .quitting (i + 1) anyFailed
            asked := t.asked ++ [(e.message.asterId, status)] })
      else
        (s,
          { t with
            phase := .quitting (i + 1) true
            asked := t.asked ++ [(e.message.asterId, status)] })

/-! ## The program -/

/-- What happens to a connection: a line arrives; the time before signing in is over; the stream
ends or cannot be read; the task ends where it waits, since a write fails or the bridge shuts down;
the server answers. -/
inductive Choice where
  | line (text : List Char) (answers : Answers)
  | timeout
  | hangup
  | dropped
  | status (status : Except BridgeError Unit) (deletes : Bool)

/-- The function returns, and `Pop3SessionLock` is dropped. -/
def leave (s : Shared) (t : Conn) : Shared × Conn :=
  (if t.phase.holds then { s with active := none } else s, { t with phase := .returned })

/-- A step of `run_session_inner`. -/
def run (x : Pop3Crates) (i : Nat) (g : Choice) (s : Shared) (t : Conn) : Shared × Conn :=
  match t.phase, g with
  | .returned, _ => (s, t)
  | _, .dropped => leave s t
  | .signedOff _, _ => leave s t
  | .closing _, _ => leave s t
  | .signingIn c, .line text a => signInLine x i s t c text a
  | .signingIn _, .timeout => (s, t.say (.closing false) (reply "-ERR idle timeout"))
  | .signingIn _, .hangup => (s, { t with phase := .closing false })
  | .signingIn _, .status _ _ => (s, t)
  | .transaction, .line text a => transactionLine x s t text a
  | .transaction, .hangup => (s, { t with phase := .closing true })
  | .transaction, .timeout => (s, t)
  | .transaction, .status _ _ => (s, t)
  | .quitting k anyFailed, .status r deletes => quitStep s t k anyFailed r deletes
  | .quitting _ _, .line _ _ => (s, t)
  | .quitting _ _, .timeout => (s, t)
  | .quitting _ _, .hangup => (s, t)

/-- Connections are accepted, and synchronisation replaces the rows. -/
def program (x : Pop3Crates) : Program Shared Conn Bool Choice (List Row) where
  initial := Conn.start
  run := run x
  outside rows s := { s with rows }

/-! ## One lock, one holder -/

section Lock

variable {x : Pop3Crates} {i : Nat} {s : Shared} {t : Conn} {c : Client}

/-- What a line can do before signing in: the connection stays outside, or it takes a free
maildrop. -/
inductive BeforeSignIn (i : Nat) (s : Shared) (t : Conn) (a : Answers) : Shared × Conn → Prop where
  | outside (t' : Conn) (hfree : t'.phase.holds = false) (hmail : t'.maildrop = t.maildrop)
      (hlines : t'.lines = t.lines) (hasked : t'.asked = t.asked) : BeforeSignIn i s t a (s, t')
  | opened (t' : Conn) (hfree : s.active = none) (hphase : t'.phase = .transaction)
      (hmail : t'.maildrop = openMaildrop a s.rows) (hlines : t'.lines = t.lines)
      (hasked : t'.asked = t.asked) : BeforeSignIn i s t a ({ s with active := some i }, t')

theorem signIn_cases (a : Answers) : BeforeSignIn i s t a (signIn i s t c a) := by
  unfold signIn
  dsimp only
  split
  · split
    · exact .outside _ rfl rfl rfl rfl
    · rename_i hfree
      exact .opened _ hfree rfl rfl rfl rfl
  · split
    · exact .outside _ rfl rfl rfl rfl
    · exact .outside _ rfl rfl rfl rfl

theorem signInLine_cases (line : List Char) (a : Answers) :
    BeforeSignIn i s t a (signInLine x i s t c line a) := by
  unfold signInLine
  dsimp only
  split
  · split <;> exact .outside _ rfl rfl rfl rfl
  · exact .outside _ rfl rfl rfl rfl
  · split
    · exact .outside _ rfl rfl rfl rfl
    · split <;> exact .outside _ rfl rfl rfl rfl
  · split
    · exact .outside _ rfl rfl rfl rfl
    · split
      · exact .outside _ rfl rfl rfl rfl
      · exact signIn_cases a
  · exact .outside _ rfl rfl rfl rfl
  · exact .outside _ rfl rfl rfl rfl
  · exact .outside _ rfl rfl rfl rfl

/-- A line of the transaction leaves the lock, and the connection holds it afterwards. -/
theorem transactionLine_lock (line : List Char) (a : Answers) :
    (transactionLine x s t line a).1.active = s.active ∧
      (transactionLine x s t line a).2.phase.holds = true := by
  unfold transactionLine
  dsimp only
  split <;> exact ⟨rfl, rfl⟩

theorem quitStep_lock (k : Nat) (anyFailed : Bool) (r : Except BridgeError Unit) (deletes : Bool) :
    (quitStep s t k anyFailed r deletes).1.active = s.active ∧
      (quitStep s t k anyFailed r deletes).2.phase.holds = true := by
  unfold quitStep
  split
  · exact ⟨rfl, rfl⟩
  · split
    · exact ⟨rfl, rfl⟩
    · split
      · cases deletes <;> exact ⟨rfl, rfl⟩
      · exact ⟨rfl, rfl⟩

/-- The predicate of the lock rules. -/
abbrev Holds (t : Conn) : Prop := t.phase.holds = true

theorem leave_keeps : Keeps Shared.active Holds i s t (leave s t).1 (leave s t).2 := by
  cases hheld : t.phase.holds with
  | true =>
      refine .release hheld ?_ Bool.false_ne_true
      simp [leave, hheld]
  | false =>
      refine .stay (by simp [leave, hheld]) ?_
      change false = true ↔ t.phase.holds = true
      rw [hheld]

/-- A step from and to a phase that holds the lock. -/
theorem keeps_held {r : Shared × Conn} (ht : t.phase.holds = true)
    (h : r.1.active = s.active ∧ r.2.phase.holds = true) :
    Keeps Shared.active Holds i s t r.1 r.2 :=
  .stay h.1 (iff_of_true h.2 ht)

/-- A step from and to a phase that does not hold it. -/
theorem keeps_outside {t' : Conn} (ht : t.phase.holds = false) (ht' : t'.phase.holds = false) :
    Keeps Shared.active Holds i s t s t' :=
  .stay rfl (by simp [Holds, ht, ht'])

theorem keeps_of_beforeSignIn {a : Answers} {r : Shared × Conn} (ht : t.phase.holds = false)
    (h : BeforeSignIn i s t a r) : Keeps Shared.active Holds i s t r.1 r.2 := by
  cases h with
  | outside t' hfree hmail hlines hasked => exact keeps_outside ht hfree
  | opened t' hfree hphase hmail hlines hasked =>
      refine .take hfree rfl ?_
      rw [Holds, hphase]
      rfl

/-- **Step lemma** of the lock. -/
theorem run_keeps (g : Choice) :
    Keeps Shared.active Holds i s t (run x i g s t).1 (run x i g s t).2 := by
  unfold run
  split
  · exact .stay rfl Iff.rfl
  · exact leave_keeps
  · exact leave_keeps
  · exact leave_keeps
  · rename_i hphase
    exact keeps_of_beforeSignIn (by rw [hphase]; rfl) (signInLine_cases _ _)
  · rename_i hphase
    exact keeps_outside (by rw [hphase]; rfl) rfl
  · rename_i hphase
    exact keeps_outside (by rw [hphase]; rfl) rfl
  · exact .stay rfl Iff.rfl
  · rename_i hphase
    exact keeps_held (by rw [hphase]; rfl) (transactionLine_lock _ _)
  · rename_i hphase
    -- the lock is given back when the function returns, not when the stream ends
    exact keeps_held (r := (s, _)) (by rw [hphase]; rfl) ⟨rfl, rfl⟩
  · exact .stay rfl Iff.rfl
  · exact .stay rfl Iff.rfl
  · rename_i hphase
    exact keeps_held (by rw [hphase]; rfl) (quitStep_lock _ _ _ _)
  · exact .stay rfl Iff.rfl
  · exact .stay rfl Iff.rfl
  · exact .stay rfl Iff.rfl

theorem lockProgram (x : Pop3Crates) : LockProgram (program x) Shared.active Holds where
  initial _ := Bool.false_ne_true
  run _ g _ _ := run_keeps g
  outside _ _ := rfl

end Lock

/-! ## What the client marked -/

/-- The line is DELE with this number. -/
def NamesDele (x : Pop3Crates) (n : Nat) (line : List Char) : Prop :=
  (readLine x line).1 = .dele ∧ parseNumber (readLine x line).2 = some n

/-- Among the lines is a DELE of this number, and no RSET behind it. -/
def MarkedBy (x : Pop3Crates) (n : Nat) (lines : List (List Char)) : Prop :=
  ∃ before line after, lines = before ++ line :: after ∧ NamesDele x n line ∧
    ∀ l ∈ after, (readLine x l).1 ≠ .rset

section Marks

variable {x : Pop3Crates} {n : Nat} {line : List Char} {lines : List (List Char)}
  {maildrop : List Entry}

theorem not_markedBy_nil : ¬MarkedBy x n [] := by
  rintro ⟨before, line, after, h, -, -⟩
  simp at h

/-- A line marks, or leaves what was marked unless it is RSET. -/
theorem markedBy_append : MarkedBy x n (lines ++ [line]) ↔
    NamesDele x n line ∨ MarkedBy x n lines ∧ (readLine x line).1 ≠ .rset := by
  constructor
  · rintro ⟨before, l, after, heq, hdele, hafter⟩
    cases after using List.reverseRecOn with
    | nil =>
        left
        obtain ⟨-, hl⟩ := List.append_inj' heq rfl
        obtain rfl := List.singleton_inj.1 hl
        exact hdele
    | append_singleton after last =>
        right
        rw [← List.cons_append, ← List.append_assoc] at heq
        obtain ⟨hlines, hlast⟩ := List.append_inj' heq rfl
        obtain rfl := List.singleton_inj.1 hlast
        refine ⟨⟨before, l, after, hlines, hdele, fun d hd => ?_⟩, ?_⟩
        · exact hafter d (List.mem_append_left _ hd)
        · exact hafter line (List.mem_append_right _ List.mem_cons_self)
  · rintro (hdele | ⟨⟨before, l, after, rfl, hdele, hafter⟩, hline⟩)
    · exact ⟨lines, line, [], rfl, hdele, fun _ h => absurd h List.not_mem_nil⟩
    · refine ⟨before, l, after ++ [line], by simp, hdele, fun d hd => ?_⟩
      rcases List.mem_append.1 hd with hd | hd
      · exact hafter d hd
      · rw [List.mem_singleton.1 hd]
        exact hline

/-- Every flag of the maildrop says what the lines say. -/
def Flagged (x : Pop3Crates) (maildrop : List Entry) (lines : List (List Char)) : Prop :=
  ∀ k e, maildrop[k]? = some e → (e.deleted = true ↔ MarkedBy x (k + 1) lines)

/-- A line that is neither DELE nor RSET. -/
theorem Flagged.keep (h : Flagged x maildrop lines) (hdele : (readLine x line).1 ≠ .dele)
    (hrset : (readLine x line).1 ≠ .rset) : Flagged x maildrop (lines ++ [line]) := by
  intro k e he
  rw [h k e he, markedBy_append]
  constructor
  · intro hmarked
    exact Or.inr ⟨hmarked, hrset⟩
  · rintro (hnames | hmarked)
    · exact absurd hnames.1 hdele
    · exact hmarked.1

theorem Flagged.rset (hrset : (readLine x line).1 = .rset) :
    Flagged x (unmarkAll maildrop) (lines ++ [line]) := by
  intro k e he
  rw [unmarkAll, List.getElem?_map, Option.map_eq_some_iff] at he
  obtain ⟨d, -, rfl⟩ := he
  refine iff_of_false Bool.false_ne_true ?_
  rw [markedBy_append]
  rintro (hnames | hmarked)
  · rw [hnames.1] at hrset
    cases hrset
  · exact hmarked.2 hrset

/-- What DELE does to the flag of a message. -/
theorem dele_flag (args : List Char) {k : Nat} {e : Entry}
    (he : (dele maildrop args).1[k]? = some e) :
    ∃ d, maildrop[k]? = some d ∧ e.message = d.message ∧
      (e.deleted = true ↔ d.deleted = true ∨ parseNumber args = some (k + 1)) := by
  unfold dele at he
  cases hn : parseNumber args with
  | none =>
      rw [hn] at he
      exact ⟨e, he, rfl, by simp⟩
  | some n =>
      simp only [hn] at he
      cases hentry : entryAt maildrop n with
      | none =>
          -- no such message, or one that is deleted already
          rw [hentry] at he
          refine ⟨e, he, rfl, Or.inl, ?_⟩
          rintro (hdeleted | hk)
          · exact hdeleted
          · obtain rfl := Option.some.inj hk
            rw [entryAt, if_neg (Nat.succ_ne_zero k), Nat.add_sub_cancel, he] at hentry
            simpa using hentry
      | some d =>
          simp only [hentry, mark, List.getElem?_modify] at he
          obtain ⟨d', hd', rfl⟩ := Option.map_eq_some_iff.1 he
          have hpos : n ≠ 0 := by
            rintro rfl
            simp [entryAt] at hentry
          refine ⟨d', hd', ?_, ?_⟩
          · split <;> rfl
          · by_cases hk : n - 1 = k
            · have hnk : n = k + 1 := by omega
              simp [hnk]
            · have hnk : n ≠ k + 1 := by omega
              simp [hk, hnk]

theorem Flagged.dele (h : Flagged x maildrop lines) (hdele : (readLine x line).1 = .dele) :
    Flagged x (dele maildrop (readLine x line).2).1 (lines ++ [line]) := by
  intro k e he
  obtain ⟨d, hd, -, hflag⟩ := dele_flag _ he
  rw [hflag, h k d hd, markedBy_append, NamesDele, hdele]
  constructor
  · rintro (hmarked | hnames)
    · exact Or.inr ⟨hmarked, by decide⟩
    · exact Or.inl ⟨rfl, hnames⟩
  · rintro (hnames | hmarked)
    · exact Or.inr hnames.2
    · exact Or.inl hmarked.1

theorem flagged_openMaildrop (a : Answers) (rows : List Row) :
    Flagged x (openMaildrop a rows) [] := by
  intro k e he
  refine iff_of_false ?_ not_markedBy_nil
  have hmem := List.mem_of_getElem? he
  have hall : ∀ d ∈ listInbox rows, d.deleted = false := by
    intro d hd
    obtain ⟨r, -, rfl⟩ := List.mem_map.1 hd
    rfl
  unfold openMaildrop at hmem
  split at hmem
  · cases hmem
  · split at hmem
    · simp [hall e hmem]
    · obtain ⟨d, hd, rfl⟩ := List.mem_map.1 hmem
      simp [hall d hd]

end Marks

/-! ## What the server was asked -/

/-- The ids of the messages that are marked, in order. -/
def markedIds (maildrop : List Entry) : List String :=
  (maildrop.filter fun e => e.deleted).map fun e => e.message.asterId

/-- The last line that was read is QUIT. -/
def Quits (x : Pop3Crates) (lines : List (List Char)) : Prop :=
  ∃ line, lines.getLast? = some line ∧ (readLine x line).1 = .quit

/-- Some answer does not say that the message is gone. -/
def someFailed (asked : List (String × Except BridgeError Unit)) : Bool :=
  asked.any fun a => !serverGone a.2

/-- What was asked for, by phase: nothing before QUIT, then the marked messages in order. -/
def Asked (x : Pop3Crates) (t : Conn) : Phase → Prop
  | .signingIn _ => t.asked = [] ∧ t.lines = [] ∧ t.maildrop = []
  | .transaction => t.asked = []
  | .quitting i anyFailed => t.asked.map Prod.fst = markedIds (t.maildrop.take i) ∧
      anyFailed = someFailed t.asked ∧ Quits x t.lines
  | .signedOff anyFailed => t.asked.map Prod.fst = markedIds t.maildrop ∧
      anyFailed = someFailed t.asked ∧ Quits x t.lines ∧
      t.written.getLast? = some (replyQuit anyFailed)
  | .closing _ => t.asked = []
  | .returned => t.asked.map Prod.fst <+: markedIds t.maildrop ∧ (t.asked ≠ [] → Quits x t.lines)

/-- What holds of a connection after every step. -/
structure Good (x : Pop3Crates) (t : Conn) : Prop where
  flags : Flagged x t.maildrop t.lines
  asked : Asked x t t.phase

section Trash

variable {x : Pop3Crates} {i : Nat} {s : Shared} {t : Conn} {maildrop : List Entry}

theorem markedIds_take_succ {k : Nat} {e : Entry} (he : maildrop[k]? = some e) :
    markedIds (maildrop.take (k + 1)) =
      markedIds (maildrop.take k) ++ if e.deleted then [e.message.asterId] else [] := by
  rw [markedIds, markedIds, List.take_add_one, he, List.filter_append, List.map_append]
  cases hdeleted : e.deleted <;> simp [hdeleted]

theorem markedIds_take (maildrop : List Entry) (k : Nat) :
    markedIds (maildrop.take k) <+: markedIds maildrop :=
  ((List.take_prefix k maildrop).filter _).map _

theorem someFailed_append (asked : List (String × Except BridgeError Unit)) (id : String)
    (r : Except BridgeError Unit) :
    someFailed (asked ++ [(id, r)]) = (someFailed asked || !serverGone r) := by
  simp [someFailed]

/-- Whatever the phase, only marked messages were asked for, and only behind QUIT. -/
theorem Asked.marked {p : Phase} (h : Asked x t p) :
    t.asked.map Prod.fst <+: markedIds t.maildrop ∧ (t.asked ≠ [] → Quits x t.lines) := by
  have hnone : t.asked = [] → t.asked.map Prod.fst <+: markedIds t.maildrop ∧
      (t.asked ≠ [] → Quits x t.lines) := by
    intro hasked
    rw [hasked]
    exact ⟨List.nil_prefix, fun hne => absurd rfl hne⟩
  cases p with
  | signingIn c => exact hnone h.1
  | transaction => exact hnone h
  | quitting k anyFailed =>
      obtain ⟨hids, -, hquits⟩ := h
      rw [hids]
      exact ⟨markedIds_take _ _, fun _ => hquits⟩
  | signedOff anyFailed =>
      obtain ⟨hids, -, hquits, -⟩ := h
      rw [hids]
      exact ⟨List.prefix_refl _, fun _ => hquits⟩
  | closing locked => exact hnone h
  | returned => exact h

theorem Good.leave (h : Good x t) : Good x (leave s t).2 :=
  ⟨h.flags, h.asked.marked⟩

/-- A connection that has read nothing and holds nothing. -/
theorem asked_of_outside {p : Phase} (hfree : p.holds = false) (hmail : t.maildrop = [])
    (hlines : t.lines = []) (hasked : t.asked = []) : Asked x t p := by
  cases p with
  | signingIn c => exact ⟨hasked, hlines, hmail⟩
  | transaction => cases hfree
  | quitting k anyFailed => cases hfree
  | signedOff anyFailed => cases hfree
  | closing locked => exact hasked
  | returned =>
      rw [Asked, hasked]
      exact ⟨List.nil_prefix, fun hne => absurd rfl hne⟩

theorem good_of_beforeSignIn {a : Answers} {r : Shared × Conn} {c : Client} (h : Good x t)
    (hphase : t.phase = .signingIn c) (hr : BeforeSignIn i s t a r) : Good x r.2 := by
  obtain ⟨hasked, hlines, hmail⟩ : t.asked = [] ∧ t.lines = [] ∧ t.maildrop = [] := by
    have hthis := h.asked
    rwa [hphase] at hthis
  cases hr with
  | outside t' hfree hmail' hlines' hasked' =>
      rw [hmail] at hmail'
      rw [hlines] at hlines'
      refine ⟨?_, asked_of_outside hfree hmail' hlines' (hasked'.trans hasked)⟩
      intro k e he
      rw [hmail'] at he
      simp at he
  | opened t' hfree hphase' hmail' hlines' hasked' =>
      refine ⟨?_, ?_⟩
      · rw [hmail', hlines', hlines]
        exact flagged_openMaildrop a s.rows
      · rw [hphase']
        exact hasked'.trans hasked

/-- **Step lemma** for a line: the flags follow the lines, and nothing is asked for. -/
theorem Good.transactionLine (h : Good x t) (hphase : t.phase = .transaction) (line : List Char)
    (a : Answers) : Good x (transactionLine x s t line a).2 := by
  have hasked : t.asked = [] := by
    have hthis := h.asked
    rwa [hphase] at hthis
  cases hline : readLine x line with
  | mk verb args =>
  have hverb : (readLine x line).1 = verb := by rw [hline]
  -- every command but DELE and RSET keeps the flags
  have hkeep : verb ≠ .dele → verb ≠ .rset → Flagged x t.maildrop (t.lines ++ [line]) := by
    intro hdele hrset
    apply h.flags.keep
    · rwa [hverb]
    · rwa [hverb]
  unfold Sessions.transactionLine
  rw [hline]
  cases verb with
  | dele =>
      have hdele := h.flags.dele hverb
      rw [hline] at hdele
      exact ⟨hdele, hasked⟩
  | rset => exact ⟨Flagged.rset hverb, hasked⟩
  | quit =>
      -- the first round of the loop is still to come
      refine ⟨hkeep (by decide) (by decide), ?_, ?_, line, List.getLast?_concat, hverb⟩
      · change t.asked.map Prod.fst = _
        rw [hasked]
        rfl
      · change false = someFailed t.asked
        rw [hasked]
        rfl
  | stat => exact ⟨hkeep (by decide) (by decide), hasked⟩
  | list => exact ⟨hkeep (by decide) (by decide), hasked⟩
  | uidl => exact ⟨hkeep (by decide) (by decide), hasked⟩
  | retr => exact ⟨hkeep (by decide) (by decide), hasked⟩
  | top => exact ⟨hkeep (by decide) (by decide), hasked⟩
  | noop => exact ⟨hkeep (by decide) (by decide), hasked⟩
  | capa => exact ⟨hkeep (by decide) (by decide), hasked⟩
  | user => exact ⟨hkeep (by decide) (by decide), hasked⟩
  | apop => exact ⟨hkeep (by decide) (by decide), hasked⟩
  | stls => exact ⟨hkeep (by decide) (by decide), hasked⟩
  | pass => exact ⟨hkeep (by decide) (by decide), hasked⟩
  | other => exact ⟨hkeep (by decide) (by decide), hasked⟩

/-- **Step lemma** for a round of QUIT: a marked message is asked for, any other is passed over. -/
theorem Good.quitStep (h : Good x t) {k : Nat} {anyFailed : Bool}
    (hphase : t.phase = .quitting k anyFailed) (r : Except BridgeError Unit) (deletes : Bool) :
    Good x (quitStep s t k anyFailed r deletes).2 := by
  obtain ⟨hids, hfailed, hquits⟩ : t.asked.map Prod.fst = markedIds (t.maildrop.take k) ∧
      anyFailed = someFailed t.asked ∧ Quits x t.lines := by
    have hthis := h.asked
    rwa [hphase] at hthis
  unfold Sessions.quitStep
  cases he : t.maildrop[k]? with
  | none =>
      -- behind the last message
      refine ⟨h.flags, ?_, hfailed, hquits, List.getLast?_concat⟩
      rw [List.getElem?_eq_none_iff] at he
      rwa [List.take_of_length_le he] at hids
  | some e =>
      have hnext := markedIds_take_succ he
      dsimp only
      cases hdeleted : e.deleted with
      | false =>
          refine ⟨h.flags, ?_, hfailed, hquits⟩
          change t.asked.map Prod.fst = markedIds (t.maildrop.take (k + 1))
          rw [hnext, hdeleted, hids]
          simp
      | true =>
          have hasked : (t.asked ++ [(e.message.asterId, r)]).map Prod.fst =
              markedIds (t.maildrop.take (k + 1)) := by
            rw [hnext, hdeleted, List.map_append, hids]
            rfl
          rw [if_neg (by decide)]
          cases hgone : serverGone r with
          | true =>
              refine ⟨h.flags, hasked, ?_, hquits⟩
              change anyFailed = someFailed (t.asked ++ [(e.message.asterId, r)])
              rw [someFailed_append, ← hfailed, hgone]
              simp
          | false =>
              refine ⟨h.flags, hasked, ?_, hquits⟩
              change true = someFailed (t.asked ++ [(e.message.asterId, r)])
              rw [someFailed_append, hgone]
              simp

/-- **Step lemma** of a connection. -/
theorem Good.run (h : Good x t) (g : Choice) : Good x (run x i g s t).2 := by
  unfold Sessions.run
  split
  · exact h
  · exact h.leave
  · exact h.leave
  · exact h.leave
  · rename_i hphase
    exact good_of_beforeSignIn h hphase (signInLine_cases _ _)
  · rename_i hphase
    have hthis := h.asked
    rw [hphase] at hthis
    exact ⟨h.flags, hthis.1⟩
  · rename_i hphase
    have hthis := h.asked
    rw [hphase] at hthis
    exact ⟨h.flags, hthis.1⟩
  · exact h
  · rename_i hphase
    exact h.transactionLine hphase _ _
  · rename_i hphase
    have hthis := h.asked
    rw [hphase] at hthis
    exact ⟨h.flags, hthis⟩
  · exact h
  · exact h
  · rename_i hphase
    exact h.quitStep hphase _ _
  · exact h
  · exact h
  · exact h

theorem good_start (stlsCapable : Bool) : Good x (Conn.start stlsCapable) := by
  refine ⟨?_, rfl, rfl, rfl⟩
  intro k e he
  simp [Conn.start] at he

/-- Every connection is `Good`, whatever the others do. -/
theorem good_outline (x : Pop3Crates) :
    Outline (program x) (fun _ _ => True) (fun _ => True) (fun _ _ t => Good x t) where
  call _ _ c _ := good_start c
  own _ _ _ g _ _ _ h := ⟨trivial, h.run g⟩
  others _ _ _ _ _ _ _ _ _ _ _ _ h := h
  outside _ _ _ _ := trivial
  outsideTask _ _ _ _ _ _ h := h

end Trash

/-! ## The cache -/

section Rows

variable {x : Pop3Crates} {i : Nat} {s : Shared} {t : Conn} {r : Row}

/-- What a step does to rows and requests, where no attachments are fetched in it: nothing, or one
request, behind which the message may leave the cache. -/
inductive Removes (s : Shared) (t : Conn) (r : Shared × Conn) : Prop where
  | none (hrows : r.1.rows = s.rows) (hasked : r.2.asked = t.asked)
  | one (id : String) (status : Except BridgeError Unit)
      (hasked : r.2.asked = t.asked ++ [(id, status)])
      (hrows : r.1.rows = s.rows ∨
        serverGone status = true ∧ r.1.rows = deleteMessageByAsterId s.rows id)

theorem removes_of_beforeSignIn {a : Answers} {r : Shared × Conn} (h : BeforeSignIn i s t a r) :
    Removes s t r := by
  cases h with
  | outside t' hfree hmail hlines hasked => exact .none rfl hasked
  | opened t' hfree hphase hmail hlines hasked => exact .none rfl hasked

theorem withAttachments_rows (rows : List Row) (stored : Row) :
    (withAttachments rows none stored).1 = rows := by
  unfold withAttachments
  split <;> rfl

theorem retr_rows (rows : List Row) (maildrop : List Entry) (args : List Char) :
    (retr x rows maildrop args none).1 = rows := by
  unfold retr
  split
  · rfl
  · split
    · rfl
    · split
      · rfl
      · rename_i stored _
        have hrows := withAttachments_rows rows stored
        split
        · rename_i heq
          rwa [heq] at hrows
        · rename_i heq
          rwa [heq] at hrows

theorem top_rows (rows : List Row) (maildrop : List Entry) (args : List Char) :
    (top x rows maildrop args none).1 = rows := by
  unfold top
  dsimp only
  split
  · rfl
  · split
    · rfl
    · rename_i stored _ _
      have hrows := withAttachments_rows rows stored
      split
      · rename_i heq
        rwa [heq] at hrows
      · rename_i heq
        rwa [heq] at hrows

theorem removes_transactionLine (line : List Char) (a : Answers) (hfill : a.fill = none) :
    Removes s t (transactionLine x s t line a) := by
  unfold transactionLine
  rw [hfill]
  dsimp only
  split
  case h_4 => exact .none (retr_rows _ _ _) rfl
  case h_5 => exact .none (top_rows _ _ _) rfl
  all_goals exact .none rfl rfl

theorem removes_quitStep (k : Nat) (anyFailed : Bool) (status : Except BridgeError Unit)
    (deletes : Bool) : Removes s t (quitStep s t k anyFailed status deletes) := by
  unfold quitStep
  split
  · exact .none rfl rfl
  · rename_i e _
    split
    · exact .none rfl rfl
    · split
      · rename_i hgone
        refine .one e.message.asterId status rfl ?_
        cases deletes with
        | false => exact Or.inl rfl
        | true => exact Or.inr ⟨hgone, rfl⟩
      · exact .one e.message.asterId status rfl (Or.inl rfl)

/-- No attachments are fetched in the step. -/
def Choice.Plain : Choice → Prop
  | .line _ a => a.fill = none
  | _ => True

theorem removes_run (g : Choice) (hplain : g.Plain) : Removes s t (run x i g s t) := by
  have hleave : Removes s t (leave s t) := by
    refine .none ?_ rfl
    unfold leave
    split <;> rfl
  unfold run
  split
  · exact .none rfl rfl
  · exact hleave
  · exact hleave
  · exact hleave
  · exact removes_of_beforeSignIn (signInLine_cases _ _)
  · exact .none rfl rfl
  · exact .none rfl rfl
  · exact .none rfl rfl
  · exact removes_transactionLine _ _ hplain
  · exact .none rfl rfl
  · exact .none rfl rfl
  · exact .none rfl rfl
  · exact removes_quitStep _ _ _ _
  · exact .none rfl rfl
  · exact .none rfl rfl
  · exact .none rfl rfl

/-- A connection asked for the message, and the server says that it is gone. -/
def Gone (s : System Shared Conn) (id : String) : Prop :=
  ∃ t ∈ s.tasks, ∃ status, (id, status) ∈ t.asked ∧ serverGone status = true

/-- A row is in the cache, or a connection asked for its message. -/
def Accounted (rows : List Row) (s : System Shared Conn) : Prop :=
  ∀ r ∈ rows, r ∈ s.shared.rows ∨ Gone s r.message.asterId

/-- Neither synchronisation nor a download of attachments writes rows. -/
def Quiet : Event Bool Choice (List Row) → Prop
  | .call _ => True
  | .run _ g => g.Plain
  | .outside _ => False

/-- **Step lemma** of the cache. -/
theorem Accounted.step {rows : List Row} {s : System Shared Conn} (h : Accounted rows s)
    (e : Event Bool Choice (List Row)) (hquiet : Quiet e) :
    Accounted rows ((program x).step s e) := by
  cases e with
  | outside rows' => cases hquiet
  | call c =>
      intro r hr
      rcases h r hr with hin | ⟨t, ht, status, hasked, hgone⟩
      · exact Or.inl hin
      · exact Or.inr ⟨t, List.mem_append_left _ ht, status, hasked, hgone⟩
  | run i g =>
      cases hi : s.tasks[i]? with
      | none => rwa [step_run_none g hi]
      | some t =>
          have hstep : (program x).step s (.run i g) =
              ⟨(run x i g s.shared t).1, s.tasks.set i (run x i g s.shared t).2⟩ := step_run g hi
          have hremoves := removes_run (x := x) (i := i) (s := s.shared) (t := t) g hquiet
          have hlt : i < s.tasks.length := (List.getElem?_eq_some_iff.1 hi).1
          have hself : (run x i g s.shared t).2 ∈ s.tasks.set i (run x i g s.shared t).2 :=
            List.mem_set hlt _
          -- what was asked for stays asked for
          have hgone : ∀ id, Gone s id → Gone ((program x).step s (.run i g)) id := by
            rintro id ⟨u, hu, status, hasked, hgone⟩
            rw [hstep]
            obtain ⟨j, hj⟩ := List.getElem?_of_mem hu
            by_cases hij : j = i
            · subst hij
              obtain rfl := Option.some.inj (hi.symm.trans hj)
              refine ⟨_, hself, status, ?_, hgone⟩
              cases hremoves with
              | none hrows hsame => rwa [hsame]
              | one id' status' hmore hrows =>
                  rw [hmore]
                  exact List.mem_append_left _ hasked
            · refine ⟨u, ?_, status, hasked, hgone⟩
              apply List.mem_of_getElem? (i := j)
              rw [List.getElem?_set_ne (Ne.symm hij), hj]
          intro r hr
          rcases h r hr with hin | hbefore
          · cases hremoves with
            | none hrows hasked =>
                left
                rw [hstep, hrows]
                exact hin
            | one id status hasked hrows =>
                rcases hrows with hrows | ⟨hgoneNow, hrows⟩
                · left
                  rw [hstep, hrows]
                  exact hin
                · by_cases hid : r.message.asterId = id
                  · right
                    rw [hstep]
                    refine ⟨_, hself, status, ?_, hgoneNow⟩
                    rw [hasked, hid]
                    exact List.mem_append_right _ List.mem_cons_self
                  · left
                    rw [hstep, hrows]
                    exact List.mem_filter.2 ⟨hin, by simpa using hid⟩
          · exact Or.inr (hgone _ hbefore)

end Rows

/-! ## Runs -/

/-- The state after events, from a cache with these rows and no connection. -/
def after (x : Pop3Crates) (rows : List Row) (events : List (Event Bool Choice (List Row))) :
    System Shared Conn :=
  exec (program x).step (System.start ⟨rows, none⟩) events

/-- The client of the connection marked a message with this id, and sent QUIT. -/
def Marked (x : Pop3Crates) (t : Conn) (id : String) : Prop :=
  (∃ (k : Nat) (e : Entry), t.maildrop[k]? = some e ∧ e.message.asterId = id ∧
    MarkedBy x (k + 1) t.lines) ∧
    Quits x t.lines

section Runs

variable {x : Pop3Crates} {t : Conn} {maildrop : List Entry}

theorem mem_markedIds {id : String} : id ∈ markedIds maildrop ↔
    ∃ (k : Nat) (e : Entry), maildrop[k]? = some e ∧ e.message.asterId = id ∧
      e.deleted = true := by
  rw [markedIds, List.mem_map]
  constructor
  · rintro ⟨e, he, rfl⟩
    obtain ⟨hmem, hdeleted⟩ := List.mem_filter.1 he
    obtain ⟨k, hk⟩ := List.getElem?_of_mem hmem
    exact ⟨k, e, hk, rfl, hdeleted⟩
  · rintro ⟨k, e, hk, rfl, hdeleted⟩
    exact ⟨e, List.mem_filter.2 ⟨List.mem_of_getElem? hk, hdeleted⟩, rfl⟩

/-- Only what the client marked was asked for. -/
theorem Good.marked (h : Good x t) {a : String × Except BridgeError Unit} (ha : a ∈ t.asked) :
    Marked x t a.1 := by
  obtain ⟨hids, hquits⟩ := h.asked.marked
  obtain ⟨k, e, he, hid, hdeleted⟩ := mem_markedIds.1 (hids.subset (List.mem_map_of_mem ha))
  exact ⟨⟨k, e, he, hid, (h.flags k e he).1 hdeleted⟩, hquits (List.ne_nil_of_mem ha)⟩

/-- Behind the reply to QUIT, all that the client marked was asked for, and the reply tells whether
the server says of each that it is gone. -/
theorem Good.signedOff (h : Good x t) {anyFailed : Bool} (hphase : t.phase = .signedOff anyFailed) :
    t.written.getLast? = some (replyQuit anyFailed) ∧
      (anyFailed = false ↔ ∀ a ∈ t.asked, serverGone a.2 = true) ∧
      ∀ (k : Nat) (e : Entry), t.maildrop[k]? = some e → MarkedBy x (k + 1) t.lines →
        ∃ status, (e.message.asterId, status) ∈ t.asked := by
  have hasked := h.asked
  rw [hphase] at hasked
  obtain ⟨hids, hfailed, -, hreply⟩ := hasked
  refine ⟨hreply, ?_, ?_⟩
  · rw [hfailed, someFailed, List.any_eq_false]
    simp
  · intro k e he hmarked
    have hmem : e.message.asterId ∈ t.asked.map Prod.fst := by
      rw [hids, mem_markedIds]
      exact ⟨k, e, he, rfl, (h.flags k e he).2 hmarked⟩
    obtain ⟨⟨id, status⟩, hin, heq⟩ := List.mem_map.1 hmem
    obtain rfl : id = e.message.asterId := heq
    exact ⟨status, hin⟩

end Runs

/-- **Sessions on one maildrop.** Whatever the connections read, whenever they end and whatever
synchronisation writes in between: the lock names exactly the connection that has the maildrop. The
server is asked to trash only what the client of the connection marked and confirmed by QUIT; where
the reply to QUIT was written, all of it was asked for, and the reply is the friendly one exactly
when the server says of each message that it is gone. While synchronisation rests, no message
leaves the cache for another reason. -/
theorem trash_is_marked (x : Pop3Crates) (rows : List Row)
    (events : List (Event Bool Choice (List Row))) :
    (∀ i, (after x rows events).shared.active = some i ↔
      ∃ t, (after x rows events).tasks[i]? = some t ∧ t.phase.holds = true) ∧
    (∀ t ∈ (after x rows events).tasks,
      (∀ a ∈ t.asked, Marked x t a.1) ∧
      ∀ anyFailed, t.phase = .signedOff anyFailed →
        t.written.getLast? = some (replyQuit anyFailed) ∧
        (anyFailed = false ↔ ∀ a ∈ t.asked, serverGone a.2 = true) ∧
        ∀ (k : Nat) (e : Entry), t.maildrop[k]? = some e → MarkedBy x (k + 1) t.lines →
          ∃ status, (e.message.asterId, status) ∈ t.asked) ∧
    ((∀ e ∈ events, Quiet e) → ∀ r ∈ rows, r ∈ (after x rows events).shared.rows ∨
      ∃ t ∈ (after x rows events).tasks, Marked x t r.message.asterId) := by
  have hgood : ∀ t ∈ (after x rows events).tasks, Good x t := by
    intro t ht
    obtain ⟨i, hi⟩ := List.getElem?_of_mem ht
    have hholds := (good_outline x).exec_start ⟨rows, none⟩ trivial events (guarded_true _ _ _)
    exact hholds.2 i t hi
  refine ⟨(lockProgram x).exec rfl events, ?_, ?_⟩
  · intro t ht
    exact ⟨fun a ha => (hgood t ht).marked ha, fun _ hphase => (hgood t ht).signedOff hphase⟩
  · intro hquiet r hr
    have haccounted : Accounted rows (after x rows events) := by
      have hkept : Guarded (program x).step (fun _ e => Quiet e) (System.start ⟨rows, none⟩)
          events := guarded_of_forall hquiet
      refine exec_invariant (I := Accounted rows) ?_ ?_ hkept
      · intro s e h hok
        exact h.step e hok
      · intro r hr
        exact Or.inl hr
    rcases haccounted r hr with hin | ⟨t, ht, status, hasked, -⟩
    · exact Or.inl hin
    · exact Or.inr ⟨t, ht, (hgood t ht).marked hasked⟩

end AsterBridge.Pop3.Sessions
