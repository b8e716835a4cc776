import AsterBridge.Imap.MailServer

/-!
# Storing an appended message

`import_message` stores a message in steps: an import job, the item, its attachments, its place,
and at last the local tables. Every request may fail, or take effect although its answer is lost,
and the bridge may stop between any two steps.
-/

set_option autoImplicit false

namespace AsterBridge.Imap

open AsterBridge.Lib AsterBridge.Lib.Faults AsterBridge.Lib.Text AsterBridge.Db AsterBridge.Sync
  AsterBridge.Sync.Attachments AsterBridge.Render

/-! ## Messages -/

/-- `AppendFlags` -/
structure AppendFlags where
  seen : Bool
  flagged : Bool
  answered : Bool
  draft : Bool
  deleted : Bool

/-- `local_bits` -/
def AppendFlags.localBits (f : AppendFlags) : BitVec 64 :=
  (if f.seen then 1 else 0) ||| (if f.answered then 2 else 0) ||| (if f.flagged then 4 else 0) |||
    (if f.deleted then 8 else 0) ||| (if f.draft then 16 else 0)

/-- `ParsedAttachment` -/
structure ParsedAttachment where
  name : String
  mimeType : String
  contentId : Option String
  isInline : Bool
  data : Bytes

/-- `ImportedMessage` -/
structure ImportedMessage where
  messageId : String
  messageIdHash : String
  contentHash : String
  envelopeJson : String
  itemType : String
  receivedAt : String
  attachments : List ParsedAttachment

/-- Third-party code and what it reads, with the random values of an import by their number:
`build_imported_message` over the parser of mail, SHA-256, `Uuid::new_v4`, the ciphers with
nonces of their own, the writers of dates, and what the envelope of an item yields. -/
structure ImportCrates where
  T : Unicode.CaseTables
  buildImportedMessage : List Char → String → Option String → Nat → Nat → Option ImportedMessage
  base64Sha256 : String → String
  newV4 : Nat → String
  sealEnvelope : Nat → String → Except String (String × String)
  sealAttachment : Nat → Nat → ParsedAttachment → Except String SealedAttachment
  isoMillis : Int → String
  rfc3339 : Nat → String
  json : HeadersJson
  headerMessageId : String → Option String
  envelopes : ImportedEmail → Envelopes
  sealEnvelope_fresh : ∀ n m s t a b,
    sealEnvelope n s = .ok a → sealEnvelope m t = .ok b → a.1 = b.1 → n = m

/-- The arguments of `import_message`; the identity key may be missing. -/
structure ImportRequest where
  hasIdentityKey : Bool
  folder : String
  rawMessage : List Char
  flags : AppendFlags
  internalDate : Option String
  asCopy : Bool

/-- `AppendOutcome` -/
inductive AppendOutcome where
  | stored (uid : Nat) (asterId : String)
  | duplicate (uid : Option Nat) (asterId : Option String)

/-- The errors of `import_message`. -/
inductive ImportError where
  | noIdentityKey
  | unparsable
  | attachmentTooLarge (name : String)
  | notSealed (e : String)
  | bodyTooLarge
  | noJob (e : String)
  | notStored (e : String)
  | storageFull
  | rejected
  | notConfirmed (e : String)
  | notFound
  | notUploaded (e : String)
  | keptWithoutAttachments (e : String)
  | notFiled (folder e : String)
  | keptElsewhere (folder e : String)
  | stopped
  | attachmentsNotCached (e : String)
  | noUid (e : String)

/-- The text of an error. -/
def ImportError.text : ImportError → String
  | .noIdentityKey => "session has no identity key for envelope encryption"
  | .unparsable => "could not parse the appended message"
  | .attachmentTooLarge name => "the attachment " ++ name ++ " is too large to import"
  | .notSealed e => "envelope encrypt failed: " ++ e
  | .bodyTooLarge => "the message body is too large to import"
  | .noJob e => e
  | .notStored e => "could not store the message: " ++ e
  | .storageFull => "your Aster storage is full"
  | .rejected => "the server rejected the message"
  | .notConfirmed e => "could not confirm the stored message: " ++ e
  | .notFound => "the stored message was not found on the server"
  | .notUploaded e => e
  | .keptWithoutAttachments e => e ++ "; a copy without attachments is left on the server"
  | .notFiled folder e => "could not file the message in " ++ folder ++ ": " ++ e
  | .keptElsewhere folder e =>
      "could not file the message in " ++ folder ++ ": " ++ e ++ "; a copy is left on the server"
  | .stopped => "Aster Bridge stopped before the message was stored locally"
  | .attachmentsNotCached e => "could not store attachments locally: " ++ e
  | .noUid e => "could not assign a UID: " ++ e

/-- The errors after which the item may be left on the server. -/
def ImportError.LeavesItem : ImportError → Prop
  | .notConfirmed _ | .notFound | .keptWithoutAttachments _ | .keptElsewhere _ _ | .stopped
  | .attachmentsNotCached _ | .noUid _ => True
  | _ => False

/-! ## Errors that may pass -/

def transientPhrases : List String :=
  ["bad gateway", "service unavailable", "gateway timeout", "gateway time-out", "network error"]

/-- `is_rate_limited`, of the text of an error -/
def isRateLimited (T : Unicode.CaseTables) (e : String) : Bool :=
  contains e.toList "429".toList ||
    contains (T.toLowercase e.toList) "rate limit".toList

/-- `is_transient`: the text of `BridgeError::Network` has one of the phrases too. -/
def isTransient (T : Unicode.CaseTables) (e : String) : Bool :=
  transientPhrases.any fun phrase => contains (T.toLowercase e.toList) phrase.toList

/-- `is_retryable` -/
def isRetryable (T : Unicode.CaseTables) (e : String) : Bool := isRateLimited T e || isTransient T e

/-- `RATE_LIMIT_ATTEMPTS` -/
def rateLimitAttempts : Nat := 3

/-! ## The import job -/

/-- `IMPORT_SOURCE` -/
def importSource : String := "eml"

section Steps

variable (s : MailServer) (x : ImportCrates)

/-- `adoptable_import_job` -/
def adoptableImportJob (sameSourceOnly : Bool) : Prog World (Option String) := do
  match ← listImportJobs.attempt with
  -- a listing that fails is no job
  | .error _ => pure none
  | .ok listed =>
      let running := listed.filter fun job => job.status = "pending" || job.status = "processing"
      match running.find? fun job => job.source = importSource with
      | some job => pure (some job.id)
      | none => pure (if sameSourceOnly then none else running.head?.map (·.id))

/-- `start_import_job`, and the job is kept in the slot. -/
def startImportJob (jobId : String) : Prog World (Except String String) := do
  match ← Prog.retry (isRetryable x.T) (updateImportJob jobId "processing") rateLimitAttempts with
  | (.error e, _) => pure (.error ("could not start the import job: " ++ e))
  | (.ok _, _) =>
      Prog.modify fun w => { w with slot := some jobId }
      pure (.ok jobId)

/-- The loop of `processing_import_job` that creates a job: its id. -/
def createJob : Nat → Prog World (Except String String)
  | 0 => do
      match ← (createImportJob s importSource).attempt with
      | .ok id => pure (.ok id)
      | .error e =>
          match ← adoptableImportJob false with
          | some adopted => pure (.ok adopted)
          | none => pure (.error ("could not create the import job: " ++ e))
  | attempts + 1 => do
      match ← (createImportJob s importSource).attempt with
      | .ok id => pure (.ok id)
      | .error e =>
          if isRetryable x.T e then
            -- the job may be there, though its answer was lost
            match ← adoptableImportJob true with
            | some adopted => pure (.ok adopted)
            | none => createJob attempts
          else
            match ← adoptableImportJob false with
            | some adopted => pure (.ok adopted)
            | none => pure (.error ("could not create the import job: " ++ e))

/-- `processing_import_job` -/
def processingImportJob : Prog World (Except String String) := do
  match ← Prog.look (·.slot) with
  | some existing => pure (.ok existing)
  | none =>
      match ← adoptableImportJob true with
      | some adopted => startImportJob x adopted
      | none =>
          match ← createJob s x rateLimitAttempts with
          | .error e => pure (.error e)
          | .ok jobId => startImportJob x jobId

/-- `forget_import_job` -/
def forgetImportJob : Prog World Unit := Prog.modify fun w => { w with slot := none }

/-! ## The item -/

/-- `MAX_ATTACHMENT_BYTES` -/
def maxAttachmentBytes : Nat := 25 * 1024 * 1024

/-- `MAX_ENVELOPE_CHARS` -/
def maxEnvelopeChars : Nat := 10 * 1024 * 1024

/-- `oversized_attachment` -/
def oversizedAttachment (attachments : List ParsedAttachment) : Option ParsedAttachment :=
  attachments.find? fun a => maxAttachmentBytes < a.data.length

/-- `rekey_as_copy`, with the salt of the import `n`. -/
def rekeyAsCopy (n : Nat) (m : ImportedMessage) : ImportedMessage :=
  { m with
    messageIdHash := x.base64Sha256 (m.messageIdHash ++ "\n" ++ x.newV4 n)
    contentHash := x.base64Sha256 (m.contentHash ++ "\n" ++ x.newV4 n) }

/-- `token_of_label` -/
def tokenOfLabel (label : String) : Option String :=
  let token := label.toList.drop "folder:".length
  if label.toList.take "folder:".length = "folder:".toList ∧ token ≠ [] then
    some (String.ofList token)
  else none

/-- The marks that a message is stored with. -/
def marksOf (folder : String) (flags : AppendFlags) : Marks where
  isRead := flags.seen
  isStarred := flags.flagged
  isArchived := folder = "archive"
  isSpam := folder = "spam"
  isTrashed := folder = "trash"

/-- The count of attachments as an `i16`. -/
def attachmentCount (m : ImportedMessage) : Nat := min m.attachments.length (2 ^ 15 - 1)

/-- The email of a sealed message. -/
def emailOf (folder : String) (flags : AppendFlags) (m : ImportedMessage)
    (sealed : String × String) : ImportedEmail where
  messageIdHash := m.messageIdHash
  encryptedEnvelope := sealed.1
  envelopeNonce := sealed.2
  contentHash := m.contentHash
  itemType := m.itemType
  receivedAt := m.receivedAt
  hasAttachments := decide (0 < m.attachments.length)
  attachmentCount := attachmentCount m
  folderToken := tokenOfLabel folder
  marks := marksOf folder flags

/-- What `spawn_blocking` prepares: the message and its email, from the random values `n`. -/
def prepared (r : ImportRequest) (now n : Nat) :
    Except ImportError (ImportedMessage × ImportedEmail) :=
  match x.buildImportedMessage r.rawMessage r.folder r.internalDate now n with
  | none => .error .unparsable
  | some built =>
      match oversizedAttachment built.attachments with
      | some a => .error (.attachmentTooLarge a.name)
      | none =>
          let message := if r.asCopy then rekeyAsCopy x n built else built
          match x.sealEnvelope n message.envelopeJson with
          | .error e => .error (.notSealed e)
          | .ok sealed =>
              if maxEnvelopeChars < sealed.1.utf8ByteSize then .error .bodyTooLarge
              else .ok (message, emailOf r.folder r.flags message sealed)

/-- `Utc::now` -/
def clock : Prog World Nat := Prog.operation fun t w => (.ok t.reading, w)

/-- The number of the random values of an import. -/
def draw : Prog World Nat := do
  let n ← Prog.look (·.draws)
  Prog.modify fun w => { w with draws := w.draws + 1 }
  pure n

/-- The loop that stores an email: once more with another job where it fails. -/
def storeEmail (email : ImportedEmail) : Prog World (Except ImportError StoreResponse) := do
  match ← processingImportJob s x with
  | .error e => pure (.error (.noJob e))
  | .ok jobId =>
      match ← Prog.retry (isRetryable x.T) (storeImportedEmails s jobId email)
          rateLimitAttempts with
      | (.ok response, _) => pure (.ok response)
      | (.error _, attempts) =>
          -- the job may be over: once more with another one, and with the attempts that are left
          forgetImportJob
          match ← processingImportJob s x with
          | .error e => pure (.error (.noJob e))
          | .ok jobId =>
              match ← Prog.retry (isRetryable x.T) (storeImportedEmails s jobId email)
                  attempts with
              | (.ok response, _) => pure (.ok response)
              | (.error e, _) => pure (.error (.notStored e))

/-- `lookup_stored_item` -/
def lookupStoredItem (encryptedEnvelope : String) (limit : Nat) (since : Option String) :
    Prog World (Except ImportError (Option String)) := do
  match ← Prog.retry (isRetryable x.T) (syncRecentItems s limit since) rateLimitAttempts with
  | (.error e, _) => pure (.error (.notConfirmed e))
  | (.ok items, _) =>
      pure (.ok ((items.find? fun item => item.email.encryptedEnvelope = encryptedEnvelope).map
        (·.id)))

/-- `scoped_lookup_since` -/
def scopedLookupSince (storedAfter : Nat) : String := x.isoMillis ((storedAfter : Int) - 120 * 1000)

/-- `locate_stored_item` -/
def locateStoredItem (encryptedEnvelope : String) (storedAfter : Nat) :
    Prog World (Except ImportError String) := do
  match ← lookupStoredItem s x encryptedEnvelope 25 (some (scopedLookupSince x storedAfter)) with
  | .error e => pure (.error e)
  | .ok (some id) => pure (.ok id)
  | .ok none =>
      -- the clocks may differ by more than two minutes
      match ← lookupStoredItem s x encryptedEnvelope 200 none with
      | .error e => pure (.error e)
      | .ok (some id) => pure (.ok id)
      | .ok none => pure (.error .notFound)

/-- `upload_attachments`, from the attachment `seq` on. -/
def uploadAttachments (n : Nat) (mailId : String) :
    Nat → List ParsedAttachment → Prog World (Except String Unit)
  | _, [] => pure (.ok ())
  | seq, a :: attachments => do
      match x.sealAttachment n seq a with
      | .error e => pure (.error ("could not encrypt the attachment " ++ a.name ++ ": " ++ e))
      | .ok sealed =>
          match ← (createAttachment mailId ⟨sealed, BitVec.ofNat 16 seq⟩).attempt with
          | .error e => pure (.error ("could not upload the attachment " ++ a.name ++ ": " ++ e))
          | .ok _ => uploadAttachments n mailId (seq + 1) attachments

/-- The patch of `apply_placement`. -/
def placementPatch (folder : String) (flags : AppendFlags) : MarksPatch where
  isRead := if flags.seen then none else some false
  isStarred := if flags.flagged then some true else none
  isArchived :=
    if folder = "archive" then some true
    else if folder = "trash" ∨ folder = "spam" then some false else none
  isSpam :=
    if folder = "spam" then some true else if folder = "archive" then some false else none
  isTrashed :=
    if folder = "trash" then some true
    else if folder = "archive" ∨ folder = "spam" then some false else none

/-- `apply_placement` -/
def applyPlacement (asterId folder : String) (flags : AppendFlags) :
    Prog World (Except String Unit) := do
  if placementPatch folder flags = ⟨none, none, none, none, none⟩ then pure (.ok ())
  else
    match ← Prog.retry (isRetryable x.T) (setMailboxFlags asterId (placementPatch folder flags))
        rateLimitAttempts with
    | (.ok _, _) => pure (.ok ())
    | (.error e, _) => pure (.error e)

/-! ## The local tables -/

/-- The item that `import_message` gives to `cache_mail_item`. -/
def importedItem (asterId folder : String) (flags : AppendFlags) (email : ImportedEmail) :
    MailItem where
  id := asterId
  isRead := some flags.seen
  isStarred := some flags.flagged
  isSpam := some (decide (folder = "spam"))
  envelopeEmpty := email.encryptedEnvelope.isEmpty

/-- `local_attachments` -/
def localAttachments (attachments : List ParsedAttachment) : List CachedAttachment :=
  attachments.zipIdx.map fun (a, seq) =>
    { seq := seq
      name := a.name
      contentType := a.mimeType
      contentId := a.contentId
      isInline := a.isInline
      size := a.data.length
      data := a.data }

/-- A function of the local tables. -/
def World.onStore (w : World) (f : LocalStore → LocalStore) : World := { w with store := f w.store }

/-- A function of the cache. -/
def LocalStore.onCache (l : LocalStore) (f : Cache → Cache) : LocalStore :=
  { l with db := l.db.onCache f }

/-- `pin_appended`; pins that grew old are left out. -/
def pinAppended (asterId folder : String) : Prog World Unit :=
  Prog.modify fun w => w.onStore fun l => { l with pins := l.pins.upsert asterId folder }

/-- `cache_mail_item` of an email. -/
def cacheEmail (now folder asterId : String) (flags : AppendFlags) (email : ImportedEmail) :
    Prog World Unit :=
  localWrite fun w =>
    ((), w.onStore fun l =>
      { l with
        db := (cacheMailItem x.json (x.envelopes email) now l.db folder
          (importedItem asterId folder flags email)).1 })

/-- `replace_message_attachments` -/
def replaceAttachments (asterId : String) (attachments : List CachedAttachment) :
    Prog World Unit :=
  localWrite fun w =>
    ((), w.onStore fun l =>
      { l with
        parts := l.parts.upsert asterId
          (((l.parts.get? asterId).getD Parts.none).replaceMessageAttachments attachments) })

/-- `assign_uid_if_missing` -/
def assignUid (folder asterId : String) : Prog World Nat :=
  localWrite fun w =>
    ((w.store.db.cache.assignUidIfMissing folder asterId).2,
      w.onStore fun l => l.onCache fun c => (c.assignUidIfMissing folder asterId).1)

/-- `set_message_flags_by_id` -/
def setFlags (asterId : String) (flags : BitVec 64) : Prog World Unit :=
  localWrite fun w =>
    ((), w.onStore fun l => l.onCache fun c => c.setMessageFlagsById asterId flags)

/-- `hold`: the bridge still runs. -/
def hold : Prog World Unit := localWrite fun w => ((), w)

/-- The attachments, the UID and the flags of the stored message. -/
def numberLocally (r : ImportRequest) (message : ImportedMessage) (asterId : String) :
    Prog World (Except ImportError AppendOutcome) := do
  match ← (Prog.only (!message.attachments.isEmpty)
      (replaceAttachments asterId (localAttachments message.attachments))).attempt with
  | .error e => pure (.error (.attachmentsNotCached e))
  | .ok _ =>
      match ← (assignUid r.folder asterId).attempt with
      | .error e => pure (.error (.noUid e))
      | .ok uid =>
          let bits := r.flags.localBits &&& ~~~16
          -- a failure of this write is not looked at
          let _ ← (Prog.only (bits != 0) (setFlags asterId bits)).attempt
          pure (.ok (.stored uid asterId))

/-- The local end of `import_message`. -/
def storeLocally (r : ImportRequest) (message : ImportedMessage) (email : ImportedEmail)
    (asterId : String) : Prog World (Except ImportError AppendOutcome) := do
  pinAppended asterId r.folder
  match ← hold.attempt with
  | .error _ => pure (.error .stopped)
  | .ok _ =>
      let now ← clock
      -- a failure of the cache is only logged
      let _ ← (cacheEmail x (x.rfc3339 now) r.folder asterId r.flags email).attempt
      numberLocally r message asterId

/-! ## `import_message` -/

/-- `trim_matches(&['<', '>'])` -/
def trimBrackets (cs : List Char) : List Char :=
  (cs.dropWhile fun c => c = '<' || c = '>').rdropWhile fun c => c = '<' || c = '>'

/-- A Message-ID without its brackets, and with them. -/
def messageIdForms (messageId : String) : Option (String × String) :=
  let bare := trim (trimBrackets (trim messageId.toList))
  if bare = [] then none else some (String.ofList bare, String.ofList ('<' :: bare ++ ['>']))

/-- `find_in_folder_by_message_id` -/
def findInFolderByMessageId (l : LocalStore) (folder messageId : String) : Option (String × Nat) :=
  (messageIdForms messageId).bind fun (bare, angled) =>
    let found := l.db.cache.messageCache.rows.filterMap fun e =>
      if e.2.folder = folder then
        let id := e.2.messageId.or (e.2.rawHeaders.bind x.headerMessageId)
        if id = some bare ∨ id = some angled then
          (l.db.cache.uidMap.get? (e.1, folder)).map (e.1, ·)
        else none
      else none
    ((found.mergeSort fun a b => decide (a.2 ≤ b.2)).head?).filter fun e => e.2 < 2 ^ 32

/-- The first of the rows that is not in the drafts, or else the first one. -/
def draftsLast (rows : List (String × MessageRow)) : Option String :=
  ((rows.find? fun e => e.2.folder ≠ "drafts").or rows.head?).map (·.1)

/-- `find_aster_id_by_message_id` -/
def findAsterIdByMessageId (l : LocalStore) (messageId : String) : Option String :=
  (messageIdForms messageId).bind fun (bare, angled) =>
    let rows := l.db.cache.messageCache.rows
    let named (id : Option String) : Bool := id = some bare || id = some angled
    (draftsLast (rows.filter fun e => named e.2.messageId)).or
      (draftsLast (rows.filter fun e =>
        e.2.messageId = none && named (e.2.rawHeaders.bind x.headerMessageId)))

/-- `find_labelable_copy` -/
def findLabelableCopy (l : LocalStore) (messageId : String) : Option String :=
  (findAsterIdByMessageId x l messageId).filter fun id =>
    (l.db.cache.messageCache.get? id).any fun row => row.folder ≠ "drafts"

/-- What is found of a message that is there already. -/
def duplicateOf (l : LocalStore) (r : ImportRequest) (messageId : String) : AppendOutcome :=
  if r.asCopy then .duplicate none none
  else
    match findInFolderByMessageId x l r.folder messageId with
    | some (asterId, uid) => .duplicate (some uid) (some asterId)
    | none => .duplicate none (findLabelableCopy x l messageId)

/-- A stored item is deleted again: `removed` where that works, else `kept`. -/
def withdraw (asterId : String) (removed kept : ImportError) :
    Prog World (Except ImportError AppendOutcome) := do
  match ← (deleteMailItemPermanent asterId).attempt with
  | .ok _ => pure (.error removed)
  | .error _ => pure (.error kept)

/-- The steps of `import_message` behind the upload. -/
def fileItem (r : ImportRequest) (message : ImportedMessage) (email : ImportedEmail)
    (asterId : String) : Prog World (Except ImportError AppendOutcome) := do
  match ← applyPlacement x asterId r.folder r.flags with
  | .ok _ => storeLocally x r message email asterId
  | .error e =>
      if r.folder = "archive" ∨ r.folder = "trash" ∨ r.folder = "spam" then
        -- elsewhere the marks that are missing are only logged
        withdraw asterId (.notFiled r.folder e) (.keptElsewhere r.folder e)
      else storeLocally x r message email asterId

/-- The steps of `import_message` behind the store. -/
def finishImport (r : ImportRequest) (message : ImportedMessage) (email : ImportedEmail)
    (n storedAfter : Nat) : Prog World (Except ImportError AppendOutcome) := do
  match ← locateStoredItem s x email.encryptedEnvelope storedAfter with
  | .error e => pure (.error e)
  | .ok asterId =>
      match ← uploadAttachments x n asterId 0 message.attachments with
      | .error e => withdraw asterId (.notUploaded e) (.keptWithoutAttachments e)
      | .ok _ => fileItem x r message email asterId

/-- `import_message` -/
def importMessage (r : ImportRequest) : Prog World (Except ImportError AppendOutcome) := do
  if !r.hasIdentityKey then pure (.error .noIdentityKey)
  else
    let now ← clock
    let n ← draw
    match prepared x r now n with
    | .error e => pure (.error e)
    | .ok (message, email) =>
        let storedAfter ← clock
        match ← storeEmail s x email with
        | .error e => pure (.error e)
        | .ok response =>
            if response.quotaExceeded || 0 < response.skippedQuotaCount then
              pure (.error .storageFull)
            else if response.storedCount = 0 then
              if 0 < response.duplicateCount then
                -- also where an earlier attempt stored it and its answer was lost
                let l ← Prog.look (·.store)
                pure (.ok (duplicateOf x l r message.messageId))
              else pure (.error .rejected)
            else finishImport s x r message email n storedAfter

end Steps

end AsterBridge.Imap
