import AsterBridge.Outbox.Runs
import AsterBridge.Smtp.Payload
import Mathlib.Data.List.Destutter
import Mathlib.Data.String.Basic

/-!
# A queued retry beside the direct send

`build_threaded_send_payload` and `send_idempotency_key` of `smtp/server.rs`. The direct send
passes the recipients of the transaction; a retry passes those that it reads back from the
row of the outbox, where they are joined by commas. Both are the same send exactly where no
recipient has a comma of its own.
-/

set_option autoImplicit false

namespace AsterBridge.Smtp

open AsterBridge.Lib AsterBridge.Lib.Runs AsterBridge.Lib.Text AsterBridge.Lib.Unicode
open AsterBridge.Auth AsterBridge.Crypto AsterBridge.Db AsterBridge.Outbox

/-! ## The key of a send -/

/-- Third-party code of a send: the mail parser with the sealing of attachments, the From
header as `parse_headers` reads it, SHA-256, and the text of the UUID with custom bytes. -/
structure SendCrates where
  readers : MailReaders
  headerSender : Crypto.Bytes → Option (List MailAddress)
  sha256 : Crypto.Bytes → Vector UInt8 32
  customUuid : Crypto.Bytes → String

/-- `trim().to_ascii_lowercase()` -/
def keyForm (address : List Char) : String := String.ofList ((trim address).map Char.toLower)

/-- `envelope` of `send_idempotency_key`. -/
def keyEnvelope (recipients : List String) : List String :=
  (((recipients.flatMap fun r => splitOn ',' r.toList).map keyForm).filter
    fun r => !r.isEmpty).insertionSort (· ≤ ·) |>.destutter (· ≠ ·)

/-- What `send_idempotency_key` hashes. -/
def keyText (rawMessage : Crypto.Bytes) (sender : Option String) (recipients : List String) :
    Crypto.Bytes :=
  Utf8.encode "aster-bridge-send-v1\x00" ++ (Utf8.encode (keyForm (sender.getD "").toList) ++
    0 :: (Utf8.encode (String.intercalate "\n" (keyEnvelope recipients)) ++ 0 :: rawMessage))

/-- `send_idempotency_key` -/
def sendIdempotencyKey (x : SendCrates) (rawMessage : Crypto.Bytes) (sender : Option String)
    (recipients : List String) : String :=
  x.customUuid ((x.sha256 (keyText rawMessage sender recipients)).toList.take 16)

/-! ## The session -/

/-- The data of a session that a send uses. -/
structure SenderSession where
  email : String
  identities : List SenderIdentity
  defaultSenderId : Option String
  vaultPassphrase : Crypto.Bytes
  identityKey : Option String

namespace SenderSession

/-- The addresses of the session. -/
def account (s : SenderSession) : Session :=
  ⟨s.email, s.identities.map SenderIdentity.toSendIdentity, s.defaultSenderId⟩

/-- `find_send_identity` -/
def findSendIdentity (s : SenderSession) (address : String) : Option SenderIdentity :=
  s.identities.find? fun i => sameAddress i.address address

/-- `has_enabled_identity` -/
def hasEnabledIdentity (s : SenderSession) (address : String) : Bool :=
  (s.findSendIdentity address).any fun i => i.enabled

end SenderSession

/-- `header_from_address` -/
def headerFromAddress (x : SendCrates) (rawMessage : Crypto.Bytes) : Option String :=
  match (x.headerSender rawMessage).map fun header => header.filterMap MailAddress.address with
  | some [address] => (some (trimmed address)).filter fun a => !a.isEmpty
  | _ => none

/-- `prefer_header_identity`; `refreshed` is what `refresh_send_identities` leaves as the
send-as list. The session comes with the result. -/
def preferHeaderIdentity (x : SendCrates) (rawMessage : Crypto.Bytes) (sender : Option String)
    (s : SenderSession) (refreshed : List SenderIdentity) : Option String × SenderSession :=
  match headerFromAddress x rawMessage with
  | none => (sender, s)
  | some header =>
      let primary := (sender.filter fun a => !a.isEmpty).all (sameAddress · s.email)
      if !primary || sameAddress header s.email then (sender, s)
      else if s.hasEnabledIdentity header then (some header, s)
      else
        let s := { s with identities := refreshed }
        if s.hasEnabledIdentity header then (some header, s) else (sender, s)

/-! ## The send -/

/-- What a send finds beside its arguments: the session, the send-as list after a refresh,
whether the attachments are sealed to the account, and the steps between the lists and the
key. These are the sent copy, the thread, the branding and the sealing of the body with the
hosted lookups and keys. -/
structure Surroundings where
  session : SenderSession
  refreshed : List SenderIdentity
  sealToIdentity : Bool
  finish : Json → Except BridgeError Json

variable (T : CaseTables) (x : SendCrates)

/-- The payload of `build_send_payload_with_own_key` in `build_threaded_send_payload`. -/
def threadedLists (w : Surroundings) (rawMessage : Crypto.Bytes) (sender : Option String)
    (recipients : List String) : Except BridgeError Json :=
  let (sender, s) := preferHeaderIdentity x rawMessage sender w.session w.refreshed
  let lookupAddr := (sender.filter fun a => !a.isEmpty).getD s.account.defaultSenderAddress
  buildSendPayloadWithOwnKey T x.readers rawMessage sender recipients s.email
    (s.findSendIdentity lookupAddr) s.vaultPassphrase
    (s.identityKey.filter fun _ => w.sealToIdentity)

/-- `build_threaded_send_payload` -/
def buildThreadedSendPayload (w : Surroundings) (rawMessage : Crypto.Bytes)
    (sender : Option String) (recipients : List String) : Except BridgeError Json := do
  let payload ← threadedLists T x w rawMessage sender recipients
  let payload ← w.finish payload
  return payload.set "client_send_id"
    (.string (sendIdempotencyKey x rawMessage sender recipients))

/-- The payload of `try_send_row`. -/
def trySendRow (w : Surroundings) (row : OutboxRow) : Except BridgeError Json :=
  let mail := submissionOf row
  buildThreadedSendPayload T x w mail.rawMime mail.sender mail.recipients

/-- The row that the session inserts after a transient error. -/
def queuedRow (rawMessage : Crypto.Bytes) (sender : Option String) (recipients : List String)
    (now : Int) : OutboxRow :=
  Db.Outbox.newRow rawMessage (sender.getD "") (String.intercalate "," recipients) now

/-! ## Equal keys -/

/-- Two texts with one key are equal. -/
def NoCollision (x : SendCrates) (text text' : Crypto.Bytes) : Prop :=
  x.customUuid ((x.sha256 text).toList.take 16) = x.customUuid ((x.sha256 text').toList.take 16) →
    text = text'

/-- An address without commas, NUL and newline characters. -/
def KeySafe (address : String) : Prop :=
  ',' ∉ address.toList ∧ '\x00' ∉ address.toList ∧ '\n' ∉ address.toList

section Keys

variable {address : List Char} {recipients recipients' : List String} {d : Char}

/-- The key form has no character that neither the address nor the alphabet has. -/
theorem mem_keyForm (halpha : d.isAlpha = false) (hlower : d.toLower = d)
    (h : d ∈ (keyForm address).toList) : d ∈ address := by
  rw [keyForm, String.toList_ofList] at h
  obtain ⟨c, hc, hcd⟩ := List.mem_map.1 h
  rcases eq_or_isAlpha_of_toLower_eq (hcd.trans hlower.symm) with rfl | ⟨-, -, -, hd⟩
  · exact mem_trim hc
  · exact absurd (hd.symm.trans halpha) (by decide)

theorem mem_keyEnvelope {a : String} : a ∈ keyEnvelope recipients ↔
    a ≠ "" ∧ ∃ r ∈ recipients, ∃ piece ∈ splitOn ',' r.toList, keyForm piece = a := by
  have hpairwise := List.pairwise_insertionSort (· ≤ ·)
    (((recipients.flatMap fun r => splitOn ',' r.toList).map keyForm).filter fun r => !r.isEmpty)
  rw [keyEnvelope, hpairwise.destutter_eq_dedup, List.mem_dedup, List.mem_insertionSort,
    List.mem_filter, List.mem_map]
  simp only [List.mem_flatMap, Bool.not_eq_true', String.isEmpty_eq_false_iff]
  constructor
  · rintro ⟨⟨piece, ⟨r, hr, hpiece⟩, rfl⟩, hne⟩
    exact ⟨hne, r, hr, piece, hpiece, rfl⟩
  · rintro ⟨hne, r, hr, piece, hpiece, rfl⟩
    exact ⟨⟨piece, ⟨r, hr, hpiece⟩, rfl⟩, hne⟩

/-- Without commas each recipient is one piece. -/
theorem mem_keyEnvelope_of_no_comma (h : ∀ r ∈ recipients, ',' ∉ r.toList) {a : String} :
    a ∈ keyEnvelope recipients ↔ a ≠ "" ∧ ∃ r ∈ recipients, keyForm r.toList = a := by
  rw [mem_keyEnvelope]
  have hsingle : ∀ r ∈ recipients, splitOn ',' r.toList = [r.toList] :=
    fun r hr => List.splitOn_eq_singleton (h r hr)
  constructor
  · rintro ⟨hne, r, hr, piece, hpiece, rfl⟩
    rw [hsingle r hr, List.mem_singleton] at hpiece
    exact ⟨hne, r, hr, by rw [hpiece]⟩
  · rintro ⟨hne, r, hr, rfl⟩
    exact ⟨hne, r, hr, r.toList, by rw [hsingle r hr]; exact List.mem_singleton_self _, rfl⟩

theorem keyEnvelope_sorted (recipients : List String) :
    (keyEnvelope recipients).Pairwise (· < ·) := by
  have hpairwise := List.pairwise_insertionSort (· ≤ ·)
    (((recipients.flatMap fun r => splitOn ',' r.toList).map keyForm).filter fun r => !r.isEmpty)
  have hnodup := List.nodup_dedup (List.insertionSort (· ≤ ·)
    (((recipients.flatMap fun r => splitOn ',' r.toList).map keyForm).filter fun r => !r.isEmpty))
  rw [← hpairwise.destutter_eq_dedup] at hnodup
  have hsorted := hpairwise.sublist (List.destutter_sublist (· ≠ ·) _)
  exact hsorted.imp₂ (fun _ _ hle hne => lt_of_le_of_ne hle hne) hnodup

/-- The envelope of the key is the set of its entries. -/
theorem keyEnvelope_eq_iff : keyEnvelope recipients = keyEnvelope recipients' ↔
    ∀ a, a ∈ keyEnvelope recipients ↔ a ∈ keyEnvelope recipients' := by
  constructor
  · intro h a
    rw [h]
  · exact (keyEnvelope_sorted recipients).eq_of_mem_iff (keyEnvelope_sorted recipients')

/-- Lines that are not empty and have no newline are read back from their join. -/
theorem joinLines_injective {lines lines' : List String}
    (h : ∀ l ∈ lines, l ≠ "" ∧ '\n' ∉ l.toList) (h' : ∀ l ∈ lines', l ≠ "" ∧ '\n' ∉ l.toList)
    (hjoin : String.intercalate "\n" lines = String.intercalate "\n" lines') : lines = lines' := by
  have hread : ∀ lines : List String, (∀ l ∈ lines, l ≠ "" ∧ '\n' ∉ l.toList) →
      ((String.intercalate "\n" lines).toList.splitOn '\n').filter (· ≠ []) =
        lines.map String.toList := by
    intro lines h
    have hne : ∀ cs ∈ lines.map String.toList, decide (cs ≠ []) = true := by
      intro cs hcs
      obtain ⟨l, hl, rfl⟩ := List.mem_map.1 hcs
      simpa using (h l hl).1
    rw [String.toList_intercalate]
    cases hlines : lines.map String.toList with
    | nil => rfl
    | cons first rest =>
        rw [hlines] at hne
        rw [show "\n".toList = ['\n'] from rfl, List.splitOn_intercalate, List.filter_eq_self.2 hne]
        · rw [← hlines]
          intro cs hcs
          obtain ⟨l, hl, rfl⟩ := List.mem_map.1 hcs
          exact (h l hl).2
        · exact List.cons_ne_nil _ _
  have hlists := (hread lines h).symm.trans ((congrArg _ (congrArg _ (congrArg _ hjoin))).trans
    (hread lines' h'))
  exact List.map_injective_iff.2 (fun _ _ => String.toList_injective) hlists

/-- The text of the key is read back: what stands before the first NUL after the prefix is the
sender, what stands before the second one the envelope. -/
theorem keyText_eq_iff {rawMessage rawMessage' : Crypto.Bytes} {sender sender' : Option String}
    (hsender : '\x00' ∉ (sender.getD "").toList) (hsender' : '\x00' ∉ (sender'.getD "").toList)
    (h : ∀ r ∈ recipients, KeySafe r) (h' : ∀ r ∈ recipients', KeySafe r) :
    keyText rawMessage sender recipients = keyText rawMessage' sender' recipients' ↔
      rawMessage = rawMessage' ∧
        keyForm (sender.getD "").toList = keyForm (sender'.getD "").toList ∧
        keyEnvelope recipients = keyEnvelope recipients' := by
  have hnul : ∀ {text : String}, '\x00' ∉ text.toList → (0 : UInt8) ∉ Utf8.encode text :=
    fun hno hmem => hno (Utf8.mem_of_mem_encode (by decide) hmem)
  have hform : ∀ {sender : Option String}, '\x00' ∉ (sender.getD "").toList →
      '\x00' ∉ (keyForm (sender.getD "").toList).toList :=
    fun hno hmem => hno (mem_keyForm (by decide) (by decide) hmem)
  have hentry : ∀ {recipients : List String}, (∀ r ∈ recipients, KeySafe r) →
      ∀ a ∈ keyEnvelope recipients, a ≠ "" ∧ '\x00' ∉ a.toList ∧ '\n' ∉ a.toList := by
    intro recipients h a ha
    obtain ⟨hne, r, hr, rfl⟩ := (mem_keyEnvelope_of_no_comma fun r hr => (h r hr).1).1 ha
    exact ⟨hne, fun hmem => (h r hr).2.1 (mem_keyForm (by decide) (by decide) hmem),
      fun hmem => (h r hr).2.2 (mem_keyForm (by decide) (by decide) hmem)⟩
  have hjoined : ∀ {recipients : List String}, (∀ r ∈ recipients, KeySafe r) →
      '\x00' ∉ (String.intercalate "\n" (keyEnvelope recipients)).toList := by
    intro recipients h hmem
    rw [String.toList_intercalate] at hmem
    rcases mem_of_mem_intercalate hmem with hsep | ⟨l, hl, hmem⟩
    · exact absurd hsep (by decide)
    · obtain ⟨a, ha, rfl⟩ := List.mem_map.1 hl
      exact (hentry h a ha).2.1 hmem
  constructor
  · intro heq
    have hbody := List.append_cancel_left heq
    obtain ⟨hfrom, hrest⟩ := cut_first (hnul (hform hsender)) (hnul (hform hsender')) hbody
    obtain ⟨hjoin, hraw⟩ := cut_first (hnul (hjoined h)) (hnul (hjoined h')) hrest
    refine ⟨hraw, Utf8.encode_injective hfrom, ?_⟩
    exact joinLines_injective (fun a ha => ⟨(hentry h a ha).1, (hentry h a ha).2.2⟩)
      (fun a ha => ⟨(hentry h' a ha).1, (hentry h' a ha).2.2⟩) (Utf8.encode_injective hjoin)
  · rintro ⟨rfl, hfrom, henvelope⟩
    rw [keyText, keyText, hfrom, henvelope]

end Keys

/-! ## What a retry passes -/

/-- A recipient that RCPT accepts. -/
def Accepted (recipient : String) : Prop :=
  recipient ≠ "" ∧ ∃ args, extractAddr args = recipient

section Submissions

variable {rawMessage : Crypto.Bytes} {sender : Option String} {recipients : List String} {now : Int}

/-- A retry passes the sender and the message of the transaction. -/
theorem submissionOf_queuedRow :
    (submissionOf (queuedRow rawMessage sender recipients now)).rawMime = rawMessage ∧
      (submissionOf (queuedRow rawMessage sender recipients now)).sender =
        sender.filter fun a => !a.isEmpty := by
  refine ⟨rfl, ?_⟩
  cases sender with
  | none => rfl
  | some a =>
      simp only [submissionOf, queuedRow, Db.Outbox.newRow, Option.getD_some, Option.filter_some]
      by_cases hempty : a.isEmpty = true
      · simp only [hempty, Bool.not_true, Bool.false_eq_true, if_true, if_false]
      · simp only [Bool.eq_false_iff.2 hempty, Bool.not_false, Bool.false_eq_true, if_true, if_false]

/-- No recipient of a retry has a comma. -/
theorem no_comma_of_retry {row : OutboxRow} {r : String} (h : r ∈ (submissionOf row).recipients) :
    ',' ∉ r.toList := by
  obtain ⟨piece, hpiece, rfl⟩ := List.mem_map.1 h
  rw [String.toList_ofList]
  exact fun hmem => (mem_of_mem_splitOn (List.mem_filter.1 hpiece).1 hmem).2 rfl

/-- Recipients without commas are read back as they were. -/
theorem submissionOf_recipients (hne : ∀ r ∈ recipients, r ≠ "")
    (h : ∀ r ∈ recipients, ',' ∉ r.toList) :
    (submissionOf (queuedRow rawMessage sender recipients now)).recipients = recipients := by
  simp only [submissionOf, queuedRow, Db.Outbox.newRow, splitOn, String.toList_intercalate]
  cases hlist : recipients with
  | nil => rfl
  | cons first rest =>
      rw [← hlist, show ",".toList = [','] from rfl, List.splitOn_intercalate]
      · rw [List.filter_eq_self.2, List.map_map]
        · exact (List.map_congr_left fun r _ => String.ofList_toList).trans (List.map_id _)
        · intro cs hcs
          obtain ⟨r, hr, rfl⟩ := List.mem_map.1 hcs
          simpa using hne r hr
      · intro cs hcs
        obtain ⟨r, hr, rfl⟩ := List.mem_map.1 hcs
        exact h r hr
      · simp [hlist]

end Submissions

section Sends

variable {T : CaseTables} {x : SendCrates} {w : Surroundings} {rawMessage : Crypto.Bytes}
  {sender : Option String} {recipients : List String} {payload : Json}

/-- An empty sender is no sender. -/
theorem preferHeaderIdentity_filter (s : SenderSession) (refreshed : List SenderIdentity) :
    let found := preferHeaderIdentity x rawMessage sender s refreshed
    preferHeaderIdentity x rawMessage (sender.filter fun a => !a.isEmpty) s refreshed =
        (found.1.filter fun a => !a.isEmpty, found.2) := by
  have hheader : ∀ {header}, headerFromAddress x rawMessage = some header →
      (some header).filter (fun a => !a.isEmpty) = some header := by
    intro header h
    unfold headerFromAddress at h
    split at h
    · obtain ⟨-, hne⟩ := Option.filter_eq_some_iff.1 h
      rw [Option.filter_some, if_pos hne]
    · exact absurd h (by simp)
  intro found
  simp only [found, preferHeaderIdentity, Option.filter_filter, Bool.and_self]
  split
  · rfl
  · rename_i header hfound
    repeat' split
    all_goals first | rfl | rw [hheader hfound]

theorem threadedLists_filter :
    threadedLists T x w rawMessage (sender.filter fun a => !a.isEmpty) recipients =
      threadedLists T x w rawMessage sender recipients := by
  have hfound := @preferHeaderIdentity_filter x rawMessage sender w.session w.refreshed
  simp only [threadedLists, hfound, buildSendPayloadWithOwnKey, Option.filter_filter, Bool.and_self]

/-- The direct send and a retry with the same recipients have the same outcome. -/
theorem buildThreadedSendPayload_filter :
    buildThreadedSendPayload T x w rawMessage (sender.filter fun a => !a.isEmpty) recipients =
      buildThreadedSendPayload T x w rawMessage sender recipients := by
  have hkey : keyText rawMessage (sender.filter fun a => !a.isEmpty) recipients =
      keyText rawMessage sender recipients := by
    cases sender with
    | none => rfl
    | some a =>
        rw [Option.filter_some]
        cases hempty : a.isEmpty with
        | false => rfl
        | true =>
            obtain rfl := String.isEmpty_iff.1 hempty
            rfl
  simp only [buildThreadedSendPayload, threadedLists_filter, sendIdempotencyKey, hkey]

/-- **A row without commas is retried as it was sent.** -/
theorem trySendRow_queuedRow {now : Int} (hne : ∀ r ∈ recipients, r ≠ "")
    (h : ∀ r ∈ recipients, ',' ∉ r.toList) :
    trySendRow T x w (queuedRow rawMessage sender recipients now) =
      buildThreadedSendPayload T x w rawMessage sender recipients := by
  obtain ⟨hraw, hsender⟩ := @submissionOf_queuedRow rawMessage sender recipients now
  simp only [trySendRow, hraw, hsender, submissionOf_recipients hne h]
  exact buildThreadedSendPayload_filter

end Sends

/-! ## The same send -/

/-- Two payloads with one key, one envelope sender, and the same recipients in each list. -/
structure SameSend (p q : Json) : Prop where
  key : p.get? "client_send_id" = q.get? "client_send_id"
  sender : p.get? "sender_email" = q.get? "sender_email"
  recipients : ∀ field ∈ ["to", "cc", "bcc"], ∀ a, a ∈ fieldTexts p field ↔ a ∈ fieldTexts q field

/-- In every run of the outbox that has queued the transaction, whatever the row has been
through, each retry of it is the direct send. -/
def RetriesAreTheSend (T : CaseTables) (x : SendCrates) (rawMessage : Crypto.Bytes)
    (sender : Option String) (recipients : List String) : Prop :=
  ∀ (w : Surroundings) (readers : Readers) (o : Db.Outbox) (actions : List Outbox.Action)
    (id now : Int) (row : OutboxRow) (rest : List (Int × OutboxRow)) (p q : Json),
    let s := exec (System.step T readers) (.start o) actions
    .inserted id (queuedRow rawMessage sender recipients now) ∈ s.transcript →
    s.worker = .sending id row rest →
    buildThreadedSendPayload T x w rawMessage sender recipients = .ok p →
    trySendRow T x w row = .ok q → SameSend p q

/-- A message that parses, and whose attachments can be sealed. -/
def Sendable (x : SendCrates) (rawMessage : Crypto.Bytes) : Prop :=
  ∃ parsed, x.readers.parse rawMessage = some parsed ∧
    ((pgpMimeArmor parsed).isSome = true ∨
      ∃ passphrase ownKey list, x.readers.sealAttachments parsed passphrase ownKey = .ok list)

section Retries

variable {T : CaseTables} {x : SendCrates} {rawMessage : Crypto.Bytes} {sender : Option String}
  {recipients : List String}

/-- A run that retries a row passes the mail of the row that was inserted. -/
theorem submissionOf_retry {readers : Readers} {o : Db.Outbox} {actions : List Outbox.Action} {id : Int}
    {queued row : OutboxRow} {rest : List (Int × OutboxRow)}
    (hqueued : .inserted id queued ∈ (exec (System.step T readers) (.start o) actions).transcript)
    (hworker : (exec (System.step T readers) (.start o) actions).worker = .sending id row rest) :
    submissionOf row = submissionOf queued := by
  have hgood := good_run T readers o actions
  obtain ⟨stored, hstored, hmail⟩ := hgood.inserted id queued hqueued
  obtain ⟨stored', hstored', hmail'⟩ := hgood.snapshots (id, row)
    (by rw [hworker]; exact List.mem_cons_self)
  obtain rfl := Option.some.inj (hstored.symm.trans hstored')
  exact (submissionOf_eq hmail').trans (submissionOf_eq hmail).symm

/-- Whether there is a payload depends on the message, the passphrase and the key alone. -/
theorem payload_iff_sendable {passphrase : Crypto.Bytes} {ownKey : Option String}
    {sessionEmail : String} {identity : Option SenderIdentity} :
    (∃ p, buildSendPayloadWithOwnKey T x.readers rawMessage sender recipients sessionEmail identity
        passphrase ownKey = .ok p) ↔
      ∃ parsed, x.readers.parse rawMessage = some parsed ∧
        ((pgpMimeArmor parsed).isSome = true ∨
          ∃ list, x.readers.sealAttachments parsed passphrase ownKey = .ok list) := by
  unfold buildSendPayloadWithOwnKey
  cases hparsed : x.readers.parse rawMessage with
  | none => simp
  | some parsed =>
      cases harmor : (pgpMimeArmor parsed).isSome with
      | true => simp [harmor]
      | false =>
          cases hsealed : x.readers.sealAttachments parsed passphrase ownKey with
          | error e => simp [harmor, hsealed]
          | ok list => cases list <;> simp [harmor, hsealed]

/-- A payload is built on the lists of `threadedLists`. -/
theorem buildThreadedSendPayload_ok {w : Surroundings} {p : Json}
    (h : buildThreadedSendPayload T x w rawMessage sender recipients = .ok p) :
    ∃ lists, threadedLists T x w rawMessage sender recipients = .ok lists := by
  unfold buildThreadedSendPayload at h
  cases hlists : threadedLists T x w rawMessage sender recipients with
  | error e =>
      rw [hlists] at h
      exact absurd h (by simp [bind, Except.bind])
  | ok lists => exact ⟨lists, rfl⟩

/-- Without commas, or without a payload, there is nothing that could differ. -/
theorem retriesAreTheSend (hne : ∀ r ∈ recipients, r ≠ "")
    (h : (∀ r ∈ recipients, ',' ∉ r.toList) ∨ ¬ Sendable x rawMessage) :
    RetriesAreTheSend T x rawMessage sender recipients := by
  intro w readers o actions id now row rest p q s hqueued hworker hdirect hretry
  rcases h with hcomma | hsendable
  · have hmail := submissionOf_retry hqueued hworker
    have hrow : trySendRow T x w row =
        trySendRow T x w (queuedRow rawMessage sender recipients now) := by
      rw [trySendRow, trySendRow, hmail]
    rw [hrow, trySendRow_queuedRow hne hcomma, hdirect] at hretry
    obtain rfl := Except.ok.inj hretry
    exact ⟨rfl, rfl, fun _ _ _ => Iff.rfl⟩
  · obtain ⟨parsed, hparsed, hsealed⟩ :=
      payload_iff_sendable.1 (buildThreadedSendPayload_ok hdirect)
    exact absurd ⟨parsed, hparsed, hsealed.imp_right fun ⟨list, hlist⟩ => ⟨_, _, list, hlist⟩⟩
      hsendable

/-! ## A comma is a split -/

/-- A session without addresses of its own, and nothing done to the lists. -/
def bareSurroundings (passphrase : Crypto.Bytes) (ownKey : Option String) : Surroundings where
  session := ⟨"", [], none, passphrase, ownKey⟩
  refreshed := []
  sealToIdentity := true
  finish := .ok

/-- The send of such a session, on the payload of its lists. -/
theorem bareSurroundings_payload (T : CaseTables) (x : SendCrates) (rawMessage : Crypto.Bytes)
    (sender : Option String) (recipients : List String) (passphrase : Crypto.Bytes)
    (ownKey : Option String) :
    buildThreadedSendPayload T x (bareSurroundings passphrase ownKey) rawMessage sender recipients =
      (buildSendPayloadWithOwnKey T x.readers rawMessage sender recipients "" none passphrase
        ownKey).map fun payload => payload.set "client_send_id"
          (.string (sendIdempotencyKey x rawMessage sender recipients)) := by
  have hprefer : preferHeaderIdentity x rawMessage sender (bareSurroundings passphrase ownKey).session
      (bareSurroundings passphrase ownKey).refreshed =
        (sender, (bareSurroundings passphrase ownKey).session) := by
    simp only [preferHeaderIdentity]
    repeat' split
    all_goals first | rfl | exact absurd ‹_› Bool.false_ne_true
  have hlists : threadedLists T x (bareSurroundings passphrase ownKey) rawMessage sender recipients =
      buildSendPayloadWithOwnKey T x.readers rawMessage sender recipients "" none passphrase
        ownKey := by
    simp only [threadedLists, hprefer]
    cases ownKey <;> rfl
  rw [buildThreadedSendPayload, hlists]
  cases buildSendPayloadWithOwnKey T x.readers rawMessage sender recipients "" none passphrase
    ownKey <;> rfl

/-- The lists of such a session are those of the envelope, without an address of its own. -/
theorem bareSurroundings_lists {passphrase : Crypto.Bytes} {ownKey : Option String} {p : Json}
    (h : buildThreadedSendPayload T x (bareSurroundings passphrase ownKey) rawMessage sender
      recipients = .ok p) :
    ∃ parsed, ListsKept T parsed recipients "" (fieldTexts p "to") (fieldTexts p "cc")
      (fieldTexts p "bcc") := by
  rw [bareSurroundings_payload] at h
  cases hpayload : buildSendPayloadWithOwnKey T x.readers rawMessage sender recipients "" none
    passphrase ownKey with
  | error e =>
      rw [hpayload] at h
      exact absurd h (by simp [Except.map])
  | ok payload =>
      rw [hpayload] at h
      obtain rfl := Except.ok.inj h
      obtain ⟨parsed, -, hmembers⟩ := buildSendPayload_lists hpayload
      have hkey : "client_send_id" ∉ ["to", "cc", "bcc", selfToPlaceholder] := by decide
      obtain ⟨hto, hcc, hbcc⟩ := (hmembers.set hkey _).texts
      refine ⟨parsed, ?_⟩
      rw [hto, hcc, hbcc]
      exact (@recipientLists_kept T parsed recipients "" none).1

/-- The run that queues a transaction, and takes its row to the server without a look at the
Sent folder. -/
def queueAndRetry (rawMessage : Crypto.Bytes) (sender : Option String) (recipients : List String) :
    List Outbox.Action :=
  [.insert rawMessage (sender.getD "") (String.intercalate "," recipients) 0, .run 0 true,
    .tick 0 true true, .next 0 true, .check none 0 true]

theorem queueAndRetry_retries (readers : Readers) :
    let s := exec (System.step T readers) (.start ⟨Table.empty, 0⟩)
      (queueAndRetry rawMessage sender recipients)
    .inserted 1 (queuedRow rawMessage sender recipients 0) ∈ s.transcript ∧
      s.worker = .sending 1 (queuedRow rawMessage sender recipients 0) [] := by
  -- the first four steps claim the row, whatever its texts are
  have hclaimed : ∃ s, exec (System.step T readers) (.start ⟨Table.empty, 0⟩)
      ((queueAndRetry rawMessage sender recipients).take 4) = s ∧
      s.worker = .claimed 1 (queuedRow rawMessage sender recipients 0) [] ∧
        s.transcript = [.inserted 1 (queuedRow rawMessage sender recipients 0), .claimed 1] :=
    ⟨_, rfl, rfl, rfl⟩
  intro s
  have hs : s = System.step T readers (exec (System.step T readers) (.start ⟨Table.empty, 0⟩)
      ((queueAndRetry rawMessage sender recipients).take 4)) (.check none 0 true) := rfl
  obtain ⟨claimed, hclaimed, hworker, htranscript⟩ := hclaimed
  rw [hs, hclaimed]
  simp only [System.step, hworker, sentCopyExists_none, Bool.false_eq_true, if_false, htranscript]
  exact ⟨List.mem_cons_self, trivial⟩

/-- Lower case keeps the commas of an address. -/
theorem comma_mem_lowered (T : CaseTables) {a : String} : ',' ∈ (lowered T a).toList ↔ ',' ∈ a.toList := by
  rw [lowered, String.toList_ofList]
  constructor
  · exact T.mem_of_mem_toLowercase (by decide) (by decide)
  · intro h
    obtain ⟨before, after, hsplit⟩ := List.append_of_mem h
    rw [hsplit, T.toLowercase_separator (T.separator_of_ascii (by decide) (by decide) (by decide))]
    exact List.mem_append_right _ List.mem_cons_self

/-- The direct send names a recipient with a comma, and the retry cannot. -/
theorem no_comma_of_retriesAreTheSend (hsendable : Sendable x rawMessage)
    (h : RetriesAreTheSend T x rawMessage sender recipients) :
    ∀ r ∈ recipients, ',' ∉ r.toList := by
  intro r hr hcomma
  obtain ⟨parsed, hparsed, hsealed⟩ := hsendable
  -- one passphrase and key that seal the attachments serve both sends
  obtain ⟨passphrase, ownKey, hsealed⟩ : ∃ passphrase ownKey, (pgpMimeArmor parsed).isSome = true ∨
      ∃ list, x.readers.sealAttachments parsed passphrase ownKey = .ok list := by
    rcases hsealed with harmor | ⟨passphrase, ownKey, hlist⟩
    · exact ⟨[], none, Or.inl harmor⟩
    · exact ⟨passphrase, ownKey, Or.inr hlist⟩
  have hbuilt : ∀ sender recipients, ∃ p, buildThreadedSendPayload T x
      (bareSurroundings passphrase ownKey) rawMessage sender recipients = .ok p := by
    intro sender recipients
    obtain ⟨payload, hpayload⟩ := (@payload_iff_sendable T x rawMessage sender recipients passphrase
      ownKey "" none).2 ⟨parsed, hparsed, hsealed⟩
    rw [bareSurroundings_payload, hpayload]
    exact ⟨_, rfl⟩
  obtain ⟨p, hp⟩ := hbuilt sender recipients
  obtain ⟨q, hq⟩ := hbuilt (submissionOf (queuedRow rawMessage sender recipients 0)).sender
    (submissionOf (queuedRow rawMessage sender recipients 0)).recipients
  obtain ⟨hqueued, hworker⟩ := @queueAndRetry_retries T rawMessage sender recipients
    ⟨fun _ => none, fun _ => none, fun _ => none, fun _ => none, fun _ _ => none⟩
  have hsame := h _ _ _ _ 1 0 _ [] p q hqueued hworker hp hq
  obtain ⟨_, hdirect⟩ := bareSurroundings_lists hp
  obtain ⟨_, hretry⟩ := bareSurroundings_lists hq
  -- the address that stands for the recipient is in the same list of the retry
  obtain ⟨a, ha, hlower⟩ := hdirect.nobodyLost r hr
  have hcommaA : ',' ∈ a.toList := by
    rw [← comma_mem_lowered T, hlower]
    exact (comma_mem_lowered T).2 hcomma
  have hmem : a ∈ fieldTexts q "to" ++ fieldTexts q "cc" ++ fieldTexts q "bcc" := by
    simp only [List.mem_append] at ha ⊢
    exact ha.imp (Or.imp (hsame.recipients "to" (by decide) a).1
      (hsame.recipients "cc" (by decide) a).1) (hsame.recipients "bcc" (by decide) a).1
  rcases hretry.nobodyAdded a hmem with ⟨r', hr', hlower'⟩ | rfl
  · refine no_comma_of_retry hr' ((comma_mem_lowered T).1 ?_)
    rw [hlower']
    exact (comma_mem_lowered T).2 hcommaA
  · exact absurd hcommaA (by decide)

end Retries

/-- **A queued retry is the same send exactly where no recipient has a comma.** A message that
cannot be sent at all aside, the retries of a transaction in every run of the outbox are its
direct send if and only if no accepted recipient has a comma. And for addresses without commas,
NUL and newline characters the key tells sends apart by the message, the sender and the set of
recipients, the latter two up to blanks at the ends and ASCII case; an empty recipient counts
for nothing. -/
theorem retries_are_the_send_iff (T : CaseTables) (x : SendCrates) (rawMessage : Crypto.Bytes)
    (sender : Option String) (recipients : List String) (haccepted : ∀ r ∈ recipients, Accepted r) :
    (RetriesAreTheSend T x rawMessage sender recipients ↔
      (∀ r ∈ recipients, ',' ∉ r.toList) ∨ ¬ Sendable x rawMessage) ∧
    ∀ (rawMessage' : Crypto.Bytes) (sender' : Option String) (recipients' : List String),
      KeySafe (sender.getD "") → KeySafe (sender'.getD "") →
      (∀ r ∈ recipients, KeySafe r) → (∀ r ∈ recipients', KeySafe r) →
      NoCollision x (keyText rawMessage sender recipients)
        (keyText rawMessage' sender' recipients') →
      (sendIdempotencyKey x rawMessage sender recipients =
          sendIdempotencyKey x rawMessage' sender' recipients' ↔
        rawMessage = rawMessage' ∧
          keyForm (sender.getD "").toList = keyForm (sender'.getD "").toList ∧
          ∀ a, a ≠ "" → ((∃ r ∈ recipients, keyForm r.toList = a) ↔
            ∃ r ∈ recipients', keyForm r.toList = a)) := by
  constructor
  · constructor
    · intro h
      by_cases hsendable : Sendable x rawMessage
      · exact Or.inl (no_comma_of_retriesAreTheSend hsendable h)
      · exact Or.inr hsendable
    · exact retriesAreTheSend fun r hr => (haccepted r hr).1
  · intro rawMessage' sender' recipients' hsender hsender' h h' hhash
    have htexts := @keyText_eq_iff recipients recipients' rawMessage rawMessage' sender sender'
      hsender.2.1 hsender'.2.1 h h'
    have hkeys : sendIdempotencyKey x rawMessage sender recipients =
        sendIdempotencyKey x rawMessage' sender' recipients' ↔
          keyText rawMessage sender recipients = keyText rawMessage' sender' recipients' :=
      ⟨hhash, fun heq => by rw [sendIdempotencyKey, sendIdempotencyKey, heq]⟩
    rw [hkeys, htexts, keyEnvelope_eq_iff]
    refine and_congr_right fun _ => and_congr_right fun _ => forall_congr' fun a => ?_
    rw [mem_keyEnvelope_of_no_comma fun r hr => (h r hr).1,
      mem_keyEnvelope_of_no_comma fun r hr => (h' r hr).1, and_congr_right_iff]

/-! ## A quoted comma -/

/-- Readers of a message without headers, and a hash that keeps the length of a text. -/
def bareMessage : SendCrates where
  readers :=
    { parse := fun _ => some ⟨none, none, none, none, none, none, [], false, none, some "hi"⟩
      sealAttachments := fun _ _ _ => .ok [] }
  headerSender _ := none
  sha256 text := (Vector.replicate 32 0).set 0 (UInt8.ofNat text.length)
  customUuid bytes := String.ofList (bytes.map fun b => Char.ofNat b.toNat)

theorem bareMessage_sendable (rawMessage : Crypto.Bytes) : Sendable bareMessage rawMessage :=
  ⟨_, rfl, Or.inr ⟨[], none, [], rfl⟩⟩

/-- Two plain recipients, against the same send with one of them. -/
theorem retries_are_the_send_iff_plain :
    RetriesAreTheSend CaseTables.ascii bareMessage [] (some "me@example.com")
        ["a@example.com", "b@example.com"] ∧
      sendIdempotencyKey bareMessage [] (some "me@example.com") ["a@example.com", "b@example.com"] ≠
        sendIdempotencyKey bareMessage [] (some "me@example.com") ["a@example.com"] := by
  have haccepted : ∀ r ∈ ["a@example.com", "b@example.com"], Accepted r := by
    intro r hr
    rcases List.mem_pair.1 hr with rfl | rfl
    · exact ⟨by decide, "<a@example.com>".toList, by decide +kernel⟩
    · exact ⟨by decide, "<b@example.com>".toList, by decide +kernel⟩
  have hsafe : ∀ r ∈ ["a@example.com", "b@example.com"], KeySafe r := by
    intro r hr
    rcases List.mem_pair.1 hr with rfl | rfl <;> exact ⟨by decide, by decide, by decide⟩
  have hme : KeySafe "me@example.com" := ⟨by decide, by decide, by decide⟩
  obtain ⟨hretries, hkeys⟩ := retries_are_the_send_iff CaseTables.ascii bareMessage []
    (some "me@example.com") ["a@example.com", "b@example.com"] haccepted
  refine ⟨hretries.2 (Or.inl fun r hr => (hsafe r hr).1), fun heq => ?_⟩
  have hone : ∀ r ∈ ["a@example.com"], KeySafe r := fun r hr =>
    hsafe r (List.mem_cons.2 (Or.inl (List.mem_singleton.1 hr)))
  obtain ⟨-, -, hsets⟩ := (hkeys [] (some "me@example.com") ["a@example.com"] hme hme hsafe hone
    (fun hcollide => absurd hcollide (by decide +kernel))).1 heq
  obtain ⟨r, hr, hform⟩ := (hsets "b@example.com" (by decide)).1
    ⟨"b@example.com", by decide, by decide +kernel⟩
  rw [List.mem_singleton.1 hr] at hform
  exact absurd hform (by decide +kernel)

/-- RCPT accepts an address with a comma in its quoted local part, and the retry sends to the
two halves of it. -/
theorem quoted_comma_is_split :
    Accepted "\"a,b\"@example.com" ∧
      ¬ RetriesAreTheSend CaseTables.ascii bareMessage [] (some "me@example.com")
        ["\"a,b\"@example.com"] := by
  refine ⟨⟨by decide, "<\"a,b\"@example.com>".toList, by decide +kernel⟩, fun h => ?_⟩
  exact no_comma_of_retriesAreTheSend (bareMessage_sendable []) h _ (List.mem_singleton_self _)
    (by decide)

end AsterBridge.Smtp
