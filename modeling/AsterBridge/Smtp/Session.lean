import AsterBridge.Auth.Session
import AsterBridge.Error
import AsterBridge.Lib.Utf8

/-!
# An SMTP connection

`handle_session_inner` of `smtp/server.rs`, one read at a time. A read carries the bytes
that `read_line_bytes` returns and the answers the server gets while it handles them. What
a step does outside the connection, and what it writes, are its events.

A failed write ends the connection. It is a read error after the step that writes, since
nothing the step still does then is seen by anyone.
-/

set_option autoImplicit false

namespace AsterBridge.Smtp

open AsterBridge.Lib AsterBridge.Lib.Text AsterBridge.Auth

/-- `Vec<u8>` -/
abbrev Bytes := List UInt8

/-! ## Constants -/

/-- `MAX_LINE_LENGTH` -/
def maxLineLength : Nat := 998

/-- `MAX_DATA_LINE_LENGTH` -/
def maxDataLineLength : Nat := 1000000

/-- `MAX_DATA_SIZE` -/
def maxDataSize : Nat := 70 * 1024 * 1024

/-- `MAX_RECIPIENTS` -/
def maxRecipients : Nat := 100

/-- `MAX_FAILED_AUTH` -/
def maxFailedAuth : Nat := 5

/-- `SEND_IN_PROGRESS_TEXT` -/
def sendInProgressText : String := "still being sent"

/-- `TLS_REQUIRED_TEXT` -/
def tlsRequiredText : String :=
  "Turn on SSL/TLS for this account in your mail app, then try again"

/-- `BAD_CREDENTIALS_TEXT` -/
def badCredentialsText : String :=
  "Sign-in failed. Use the username and app password shown in Aster Bridge"

/-! ## Helpers of the session -/

/-- `is_transient_send_error` -/
def isTransientSendError : BridgeError → Bool
  | .network _ => true
  | .io _ => true
  | .api msg =>
      ["408", "429", "500", "502", "503", "504"].any
          (fun code => code.toList.isPrefixOf msg.toList) ||
        ("409".toList.isPrefixOf msg.toList && contains msg.toList sendInProgressText.toList)
  | _ => false

/-- `find_ci_prefix` -/
def findCiPrefix (haystack needle : List Char) : Option Nat :=
  if needle.isEmpty then none
  else find (needle.map Char.toLower) (haystack.map Char.toLower)

/-- `extract_addr` -/
def extractAddr (s : List Char) : String :=
  let trimmed := trim s
  let isBracket (c : Char) : Bool := c == '<' || c == '>'
  let word := (trimStart trimmed).takeWhile fun c => !isWhitespace c
  let bare := String.ofList ((word.dropWhile isBracket).rdropWhile isBracket)
  match find ['<'] trimmed, (find ['>'] trimmed.reverse).map (trimmed.length - 1 - ·) with
  | some lt, some gt =>
      if lt < gt then String.ofList (trim ((trimmed.take gt).drop (lt + 1))) else bare
  | _, _ => bare

/-- `to_uppercase`, as far as a command name can tell: the other characters outside ASCII
keep one in upper case, and no command name has one. -/
def toUppercase (c : Char) : List Char :=
  match c with
  | 'ß' => ['S', 'S']
  | 'ı' => ['I']
  | 'ſ' => ['S']
  | 'ﬀ' => ['F', 'F']
  | 'ﬁ' => ['F', 'I']
  | 'ﬂ' => ['F', 'L']
  | 'ﬃ' => ['F', 'F', 'I']
  | 'ﬄ' => ['F', 'F', 'L']
  | 'ﬅ' => ['S', 'T']
  | 'ﬆ' => ['S', 'T']
  | c => [c.toUpper]

/-- The command names that the session matches. -/
inductive Verb where
  | ehlo
  | helo
  | starttls
  | auth
  | mail
  | rcpt
  | data
  | rset
  | quit
  | unknown
deriving DecidableEq

/-- The match on `cmd.to_uppercase()`. -/
def Verb.ofCmd (cmd : List Char) : Verb :=
  match String.ofList (cmd.flatMap toUppercase) with
  | "EHLO" => .ehlo
  | "HELO" => .helo
  | "STARTTLS" => .starttls
  | "AUTH" => .auth
  | "MAIL" => .mail
  | "RCPT" => .rcpt
  | "DATA" => .data
  | "RSET" => .rset
  | "QUIT" => .quit
  | _ => .unknown

/-- The text up to the first space, and the text after it. -/
def splitCmd (trimmed : List Char) : List Char × List Char :=
  (trimmed.takeWhile (· != ' '), (trimmed.dropWhile (· != ' ')).drop 1)

/-- Third-party readers: the base64 engine `STANDARD`, and whether the header parser of
`mail_parser` finds a Message-ID, `none` where it finds no headers. -/
structure Crates where
  base64Decode : List Char → Option Bytes
  hasMessageId : Bytes → Option Bool

/-- A line of DATA without the trailing CR and LF. -/
def stripLineEnd (line : Bytes) : Bytes := line.rdropWhile fun b => b == 13 || b == 10

/-- What a line of DATA adds to the message: the leading dot is removed. -/
def dataLine (line : Bytes) : Bytes :=
  (match stripLineEnd line with
    | 46 :: rest => rest
    | bytes => bytes) ++ [13, 10]

/-- The header section in lower case, empty where it is not UTF-8. -/
def headerSection (raw : Bytes) : List Char :=
  let stop := (find [13, 10, 13, 10] raw).getD raw.length
  ((Utf8.fromUtf8 (raw.take stop)).getD []).map Char.toLower

/-- `is_pgp_mime` -/
def isPgpMime (raw : Bytes) : Bool :=
  contains (headerSection raw) "content-type: multipart/encrypted".toList &&
    contains (headerSection raw) "application/pgp-encrypted".toList

/-- The domain that `with_message_id` takes from the sender. -/
def messageIdDomain (mailFrom : Option String) : Option (List Char) :=
  mailFrom.bind fun address =>
    (find ['@'] address.toList.reverse).bind fun pos =>
      let domain := trim (address.toList.drop (address.toList.length - pos))
      if !domain.isEmpty && (String.ofList domain).utf8ByteSize ≤ 253 &&
          domain.all (fun c => c.isAlphanum || c == '.' || c == '-') then some domain
      else none

/-- The header that `with_message_id` puts before a message. -/
def messageIdHeader (uuid : String) (domain : List Char) : Bytes :=
  Utf8.encode ("Message-ID: <" ++ uuid ++ "@" ++ String.ofList (domain.map Char.toLower) ++ ">\r\n")

/-- `with_message_id` -/
def withMessageId (x : Crates) (uuid : String) (raw : Bytes) (mailFrom : Option String) :
    Option Bytes :=
  match x.hasMessageId raw with
  | some false => (messageIdDomain mailFrom).map fun domain => messageIdHeader uuid domain ++ raw
  | _ => none

/-- The name and the password of an AUTH PLAIN response. -/
def plainCredentials (decoded : Bytes) : Option (Option String × String) :=
  let text (bytes : Bytes) : String := String.ofList (Utf8.fromUtf8Lossy bytes)
  let first := decoded.takeWhile (· != 0)
  match decoded.drop first.length with
  | [] => none
  | _ :: rest =>
      let second := rest.takeWhile (· != 0)
      match rest.drop second.length with
      | [] => some (none, text rest)
      | _ :: third => some (some (text second), text third)

/-! ## The state of a connection -/

/-- `SmtpState` -/
inductive SmtpState where
  | connected
  | greeted
  | authenticated
  | mailFrom
  | rcptTo
  | data
deriving DecidableEq

/-- `SmtpSession` -/
structure SmtpSession where
  state : SmtpState
  authenticated : Bool
  mailFrom : Option String
  rcptTo : List String
  dataBuffer : Bytes

/-- The session at the start of `handle_session_inner`. -/
def SmtpSession.start : SmtpSession := ⟨.connected, false, none, [], []⟩

/-- Where the session waits for its next line: in the main loop, in an AUTH exchange, in
the loop that skips the rest of an oversize message, or nowhere. -/
inductive Phase where
  | command
  | authPlain
  | authLoginName
  | authLoginPassword (nameLine : Bytes)
  | draining
  | closed
deriving DecidableEq

/-- The variables of `handle_session_inner`. -/
structure Conn where
  starttlsCapable : Bool
  smtp : SmtpSession
  failedAuth : Nat
  refreshedIdentities : Bool
  phase : Phase

/-- A connection after the greeting. -/
def Conn.start (starttlsCapable : Bool) : Conn := ⟨starttlsCapable, .start, 0, false, .command⟩

/-- What the session learns while it handles one read: the account at its first and at its
second look, the app password that matches, the TLS handshake, a new UUID, and the results
of the send and of the outbox. -/
structure Answers where
  session : Session
  sessionAgain : Session
  passwordId : String → String → Option String
  tlsAccepted : Bool
  uuid : String
  sent : Except BridgeError Bool
  storesSentCopy : Bool
  outboxId : Option Nat

/-- One read of the session. `timeout` is the limit on a read before sign-in, `deadline`
the limit on the whole connection before sign-in. -/
inductive Input where
  | read (line : Bytes) (answers : Answers)
  | readError
  | timeout
  | deadline

/-- What a step does: the line it has read, what it writes, and its effects. The replies
235, 354, and 250 to MAIL and RCPT have an event of their own. -/
inductive Event where
  | received (line : Bytes)
  | replied (text : String)
  | signedIn (passwordId : String)
  | upgraded
  | senderAccepted (address : String)
  | recipientAccepted (address : String)
  | startMailInput
  | sendViaApi (mailFrom : Option String) (rcptTo : List String) (message : Bytes)
  | outboxInsert (id : Nat) (message : Bytes) (envelopeFrom envelopeTo : String)
  | noteOutgoingMessage (message : Bytes)
deriving DecidableEq

namespace Conn

def close (c : Conn) : Conn := { c with phase := .closed }

/-! ## DATA -/

/-- The reply to a message that the server refuses. -/
def sendRefusal : BridgeError → String
  | .planUpgradeRequired _ => "550 5.7.1 Plan upgrade required to send via Aster Bridge\r\n"
  | .messageTooLarge msg => "552 5.3.4 " ++ String.ofList (responseText msg.toList) ++ "\r\n"
  | .recipientKey msg => "550 5.7.5 " ++ String.ofList (responseText msg.toList) ++ "\r\n"
  | _ => "550 Send rejected\r\n"

/-- What follows the call of `send_via_api`. -/
def afterSend (a : Answers) (smtp : SmtpSession) (raw outgoing : Bytes) : List Event :=
  match a.sent with
  | .ok storesSentCopy =>
      (if storesSentCopy then [.noteOutgoingMessage raw] else []) ++
        [.replied "250 OK Message accepted\r\n"]
  | .error e =>
      if isTransientSendError e then
        match a.outboxId with
        | some id =>
            .outboxInsert id outgoing (smtp.mailFrom.getD "") (String.intercalate "," smtp.rcptTo) ::
              ((if a.storesSentCopy then [.noteOutgoingMessage raw] else []) ++
                [.replied "250 OK queued\r\n"])
        | none => [.replied "451 Temporary failure, please retry\r\n"]
      else [.replied (sendRefusal e)]

/-- The transaction is over. -/
def resetTransaction (c : Conn) : Conn :=
  { c with smtp := { c.smtp with
      state := .authenticated, mailFrom := none, rcptTo := [], dataBuffer := [] } }

/-- The line `.` of DATA. -/
def endOfData (x : Crates) (a : Answers) (c : Conn) : Conn × List Event :=
  let raw := c.smtp.dataBuffer
  if isPgpMime raw then
    (c.resetTransaction,
      [.replied ("550 5.7.0 OpenPGP/MIME messages are not supported; " ++
        "Aster uses built-in end-to-end encryption\r\n")])
  else
    let outgoing := (withMessageId x a.uuid raw c.smtp.mailFrom).getD raw
    (c.resetTransaction,
      .sendViaApi c.smtp.mailFrom c.smtp.rcptTo outgoing :: afterSend a c.smtp raw outgoing)

/-- A line in the state `Data`. -/
def inData (x : Crates) (a : Answers) (c : Conn) (line : Bytes) : Conn × List Event :=
  if stripLineEnd line = [46] then c.endOfData x a
  else if maxDataSize < c.smtp.dataBuffer.length + (dataLine line).length then
    ({ c with smtp := { c.smtp with dataBuffer := [] }, phase := .draining }, [])
  else ({ c with smtp := { c.smtp with dataBuffer := c.smtp.dataBuffer ++ dataLine line } }, [])

/-- A line without the last byte, where that is `b`. -/
def stripSuffix (b : UInt8) (line : Bytes) : Bytes :=
  if line.getLast? = some b then line.dropLast else line

/-- A read of the loop after an oversize message. -/
def inDrain (c : Conn) (line : Bytes) : Conn × List Event :=
  if line = [] ∨ stripSuffix 13 (stripSuffix 10 line) = [46] then
    ({ c with smtp := { c.smtp with state := .authenticated }, phase := .command },
      [.replied "552 Message exceeds maximum size\r\n"])
  else (c, [])

/-! ## AUTH -/

/-- The end of AUTH, with the credentials that could be read. -/
def finishAuth (a : Answers) (c : Conn) (credentials : Option (Option String × String)) :
    Conn × List Event :=
  let verified := credentials.bind fun (loginName, password) =>
    (a.passwordId (loginName.getD "") password).map fun id => (loginName, id)
  let refused := match verified with
    | some (some name, _) => !a.session.acceptsLoginName name
    | _ => false
  let c := { c with phase := .command, refreshedIdentities := c.refreshedIdentities || refused }
  let matched := match verified with
    | some (some name, id) =>
        if a.session.acceptsLoginName name || a.sessionAgain.acceptsLoginName name then some id
        else none
    | some (none, id) => some id
    | none => none
  match matched with
  | some id =>
      ({ c with smtp := { c.smtp with authenticated := true, state := .authenticated } },
        [.signedIn id])
  | none =>
      let c := { c with failedAuth := c.failedAuth + 1 }
      let bad := Event.replied ("535 5.7.8 " ++ badCredentialsText ++ "\r\n")
      if maxFailedAuth ≤ c.failedAuth then
        (c.close, [bad, .replied "421 Too many failed attempts\r\n"])
      else (c, [bad])

/-- A base64 line of an AUTH exchange, without what is not UTF-8. -/
def authLine (line : Bytes) : List Char := trimEnd ((Utf8.fromUtf8 line).getD [])

/-- The credentials of an AUTH PLAIN response. -/
def readPlain (x : Crates) (text : List Char) : Option (Option String × String) :=
  (x.base64Decode text).bind plainCredentials

/-- The credentials of an AUTH LOGIN exchange. -/
def readLogin (x : Crates) (nameLine passwordLine : Bytes) : Option (Option String × String) :=
  (x.base64Decode (authLine nameLine)).bind fun name =>
    (x.base64Decode (authLine passwordLine)).map fun password =>
      (some (String.ofList (Utf8.fromUtf8Lossy name)), String.ofList (Utf8.fromUtf8Lossy password))

/-- `AUTH` -/
def auth (x : Crates) (a : Answers) (c : Conn) (args : List Char) : Conn × List Event :=
  if c.smtp.state ≠ .greeted then (c, [.replied "503 Bad sequence\r\n"])
  else if c.starttlsCapable then (c, [.replied ("538 5.7.11 " ++ tlsRequiredText ++ "\r\n")])
  else
    let authType := (splitCmd args).1
    if eqIgnoreAsciiCase authType "PLAIN".toList then
      if args.contains ' ' then c.finishAuth a (readPlain x (splitCmd args).2)
      else ({ c with phase := .authPlain }, [.replied "334 \r\n"])
    else if eqIgnoreAsciiCase authType "LOGIN".toList then
      ({ c with phase := .authLoginName }, [.replied "334 VXNlcm5hbWU6\r\n"])
    else (c, [.replied "504 Unrecognized auth type\r\n"])

/-! ## The other commands -/

/-- `EHLO` and `HELO` -/
def hello (c : Conn) (verb : Verb) : Conn × List Event :=
  let c := { c with smtp := { c.smtp with
    state := .greeted, mailFrom := none, rcptTo := [], dataBuffer := [] } }
  if verb = .helo then (c, [.replied "250 Aster Bridge\r\n"])
  else
    (c, [.replied "250-Aster Bridge\r\n", .replied "250-AUTH PLAIN LOGIN\r\n"] ++
      (if c.starttlsCapable then [.replied "250-STARTTLS\r\n"] else []) ++
      [.replied "250-8BITMIME\r\n", .replied ("250 SIZE " ++ toString maxDataSize ++ "\r\n")])

/-- `STARTTLS`: after the handshake a new session starts on the same connection. -/
def starttls (a : Answers) (c : Conn) : Conn × List Event :=
  if c.smtp.authenticated then (c, [.replied "503 Bad sequence of commands\r\n"])
  else if !c.starttlsCapable then (c, [.replied "454 STARTTLS not available\r\n"])
  else
    let ready := Event.replied "220 Ready to start TLS\r\n"
    if a.tlsAccepted then (Conn.start false, [ready, .upgraded]) else (c.close, [ready])

/-- The account may send as `address`. -/
def identityOk (s : Session) (address : String) : Bool :=
  eqIgnoreAsciiCase address.toList s.email.toList ||
    (s.findSendIdentity address).any SendIdentity.enabled

/-- `MAIL` -/
def mail (a : Answers) (c : Conn) (args : List Char) : Conn × List Event :=
  if !c.smtp.authenticated then (c, [.replied "530 Authentication required\r\n"])
  else if c.smtp.state = .mailFrom ∨ c.smtp.state = .rcptTo then
    (c, [.replied "503 5.5.1 Nested MAIL command\r\n"])
  else
    match findCiPrefix args "FROM:".toList with
    | none => (c, [.replied "501 Syntax error\r\n"])
    | some start =>
        let fromAddr := extractAddr (args.drop (start + 5))
        let sender := if fromAddr.isEmpty then a.session.defaultSenderAddress else fromAddr
        let known := identityOk a.session sender
        -- the send-as list is rebuilt once per connection before a refusal
        let ok := known || (!c.refreshedIdentities && identityOk a.sessionAgain sender)
        let c := { c with refreshedIdentities := c.refreshedIdentities || !known }
        if !ok then
          (c, [.replied ("553 5.1.8 Sender address rejected: not an enabled address, alias, " ++
            "or domain address of this account\r\n")])
        else
          ({ c with smtp := { c.smtp with
              mailFrom := some sender, rcptTo := [], dataBuffer := [], state := .mailFrom } },
            [.senderAccepted sender])

/-- `RCPT` -/
def rcpt (c : Conn) (args : List Char) : Conn × List Event :=
  if c.smtp.state ≠ .mailFrom ∧ c.smtp.state ≠ .rcptTo then
    (c, [.replied "503 Bad sequence\r\n"])
  else if maxRecipients ≤ c.smtp.rcptTo.length then
    (c, [.replied "452 Too many recipients\r\n"])
  else
    match findCiPrefix args "TO:".toList with
    | none => (c, [.replied "501 Syntax error\r\n"])
    | some start =>
        let toAddr := extractAddr (args.drop (start + 3))
        if toAddr.isEmpty then (c, [.replied "501 Empty recipient\r\n"])
        else
          ({ c with smtp := { c.smtp with rcptTo := c.smtp.rcptTo ++ [toAddr], state := .rcptTo } },
            [.recipientAccepted toAddr])

/-- `DATA` -/
def data (c : Conn) : Conn × List Event :=
  if c.smtp.state ≠ .rcptTo then (c, [.replied "503 Bad sequence\r\n"])
  else ({ c with smtp := { c.smtp with state := .data, dataBuffer := [] } }, [.startMailInput])

/-- `RSET` -/
def rset (c : Conn) : Conn × List Event :=
  ({ c with smtp := { c.smtp with
      mailFrom := none, rcptTo := [], dataBuffer := []
      state := if c.smtp.authenticated then .authenticated else .greeted } },
    [.replied "250 OK\r\n"])

/-- A line outside the state `Data`. -/
def command (x : Crates) (a : Answers) (c : Conn) (line : Bytes) : Conn × List Event :=
  let (cmd, args) := splitCmd (trimEnd (Utf8.fromUtf8Lossy line))
  match Verb.ofCmd cmd with
  | .ehlo => c.hello .ehlo
  | .helo => c.hello .helo
  | .starttls => c.starttls a
  | .auth => c.auth x a args
  | .mail => c.mail a args
  | .rcpt => c.rcpt args
  | .data => c.data
  | .rset => c.rset
  | .quit => (c.close, [.replied "221 Bye\r\n"])
  | .unknown => (c, [.replied "502 Command not implemented\r\n"])

/-! ## A step -/

/-- The cap of the next read. -/
def readCap (c : Conn) : Nat :=
  if c.smtp.state = .data then maxDataLineLength else maxLineLength

/-- What a line does in each phase. -/
def handleLine (x : Crates) (a : Answers) (c : Conn) (line : Bytes) : Conn × List Event :=
  match c.phase with
  | .command => if c.smtp.state = .data then c.inData x a line else c.command x a line
  | .authPlain => c.finishAuth a (readPlain x (authLine line))
  | .authLoginName =>
      ({ c with phase := .authLoginPassword line }, [.replied "334 UGFzc3dvcmQ6\r\n"])
  | .authLoginPassword nameLine => c.finishAuth a (readLogin x nameLine line)
  | .draining => c.inDrain line
  | .closed => (c, [])

/-- A read that failed: in the main loop and in an AUTH exchange it ends the session. -/
def readFailed (c : Conn) : Conn × List Event :=
  match c.phase with
  | .draining =>
      (c.close, [.replied "421 4.3.0 Message exceeds maximum size, closing connection\r\n"])
  | _ => (c.close, [])

/-- **One read of the session.** A line over the cap is an error of the read, and a read
of no bytes is the end of the input. -/
def step (x : Crates) (c : Conn) : Input → Conn × List Event
  | .read line a =>
      if c.phase = .closed then (c, [])
      else if c.readCap < line.length then
        if c.phase = .command then (c.close, [.replied "500 Line too long\r\n"]) else c.readFailed
      else if line = [] then
        if c.phase = .draining then c.inDrain [] else (c.close, [])
      else ((c.handleLine x a line).1, .received line :: (c.handleLine x a line).2)
  | .readError => if c.phase = .closed then (c, []) else c.readFailed
  | .timeout =>
      match c.phase with
      | .command =>
          if c.smtp.authenticated then (c, [])
          else (c.close, [.replied "421 4.4.2 Idle timeout, closing connection\r\n"])
      | .draining => (c, [])
      | _ => (c.close, [])
  | .deadline => if c.smtp.authenticated then (c, []) else (c.close, [])

end Conn

/-- A connection and its transcript. -/
structure Traced where
  conn : Conn
  transcript : List Event

namespace Traced

def start (starttlsCapable : Bool) : Traced := ⟨.start starttlsCapable, []⟩

def step (x : Crates) (s : Traced) (i : Input) : Traced :=
  ⟨(s.conn.step x i).1, s.transcript ++ (s.conn.step x i).2⟩

end Traced

end AsterBridge.Smtp
