import AsterBridge.Lib.Faults
import AsterBridge.Lib.Unicode
import AsterBridge.Render.Message
import AsterBridge.Sync.Attachments
import AsterBridge.Sync.MailItem

/-!
# The mail server, as APPEND uses it

`World` is what an import can reach: the items, drafts and import jobs of the server, and the
local tables. A request is answered, or fails before it takes effect, or takes effect although
its answer is lost; `lost` counts the last ones, and `faults` the local writes that failed.

The server gives every new item an id of its own, stores no second item with the hashes of a
stored one, and lists stored items only. Which other items it takes, and which of them a listing
shows, is left open.
-/

set_option autoImplicit false

namespace AsterBridge.Imap

open AsterBridge.Lib AsterBridge.Lib.Faults AsterBridge.Db AsterBridge.Sync AsterBridge.Render
  AsterBridge.Sync.Attachments

/-! ## What is stored -/

/-- The marks of an item in `ImportedEmail`, and in the patch of `set_mailbox_flags`. -/
structure Marks where
  isRead : Bool
  isStarred : Bool
  isArchived : Bool
  isSpam : Bool
  isTrashed : Bool
deriving DecidableEq

/-- The marks that a patch sets. -/
structure MarksPatch where
  isRead : Option Bool
  isStarred : Option Bool
  isArchived : Option Bool
  isSpam : Option Bool
  isTrashed : Option Bool
deriving DecidableEq

/-- A patch sets what it gives. -/
def MarksPatch.apply (p : MarksPatch) (m : Marks) : Marks where
  isRead := p.isRead.getD m.isRead
  isStarred := p.isStarred.getD m.isStarred
  isArchived := p.isArchived.getD m.isArchived
  isSpam := p.isSpam.getD m.isSpam
  isTrashed := p.isTrashed.getD m.isTrashed

/-- `ImportedEmail` -/
structure ImportedEmail where
  messageIdHash : String
  encryptedEnvelope : String
  envelopeNonce : String
  contentHash : String
  itemType : String
  receivedAt : String
  hasAttachments : Bool
  attachmentCount : Nat
  folderToken : Option String
  marks : Marks

/-- What `seal_attachment` makes of an attachment. -/
structure SealedAttachment where
  encryptedData : String
  dataNonce : String
  senderMeta : String
  senderMetaNonce : String
deriving DecidableEq

/-- `CreateAttachmentBody` -/
structure AttachmentBody where
  content : SealedAttachment
  seqNum : BitVec 16
deriving DecidableEq

/-- A mail item of the server. -/
structure ServerItem where
  id : String
  email : ImportedEmail
  attachments : List AttachmentBody

/-- `CreateDraftBody` -/
structure DraftBody where
  draftType : String
  encryptedContent : String
  contentNonce : String
  contentHash : String
  sizeBytes : Nat
  hasAttachments : Bool
  attachmentCount : Nat
  replyToId : Option String

/-- A draft of the server. -/
structure ServerDraft where
  id : String
  body : DraftBody

/-- An import job of the server. -/
structure ImportJob where
  id : String
  status : String
  source : String

/-- `StoreImportedEmailsResponse` -/
structure StoreResponse where
  storedCount : Int
  duplicateCount : Int
  skippedQuotaCount : Int
  quotaExceeded : Bool

/-- The local tables: the cache, `message_attachment` with its columns of `message_cache`, the
keywords of messages, and the folders that appended messages are pinned to. -/
structure LocalStore where
  db : Database
  parts : Table String Parts
  keywords : Table String (List String)
  pins : Table String String

/-- What an import can reach; the newest item comes first. -/
structure World where
  items : List ServerItem
  drafts : List ServerDraft
  jobs : List ImportJob
  /-- ids that the server gave out -/
  issued : Nat
  /-- `IMPORT_JOB` for the server -/
  slot : Option String
  /-- random values that the bridge drew -/
  draws : Nat
  store : LocalStore
  lost : Nat
  faults : Nat

/-- The server. -/
structure MailServer where
  newId : Nat → String
  /-- the answer to an email that is not stored -/
  judge : List ServerItem → ImportedEmail → Option StoreResponse
  /-- the items of `sync_recent_items` -/
  recent : List ServerItem → Nat → Option String → List ServerItem
  newId_injective : Function.Injective newId
  judge_storedCount : ∀ items email r, judge items email = some r → r.storedCount = 0
  recent_mem : ∀ items limit since item, item ∈ recent items limit since → item ∈ items

/-! ## Requests -/

/-- The text of `BridgeError::Api` for what is not there. -/
def notThere : String := "API error: 404 Not Found"

/-- A request: it is answered, it fails before it takes effect, or its answer is lost. -/
def request {α : Type} (act : World → Except String α × World) : Prog World α :=
  Prog.operation fun t w =>
    match t.error with
    | none => act w
    | some e =>
        if t.choice then (.error e, { (act w).2 with lost := (act w).2.lost + 1 })
        else (.error e, w)

/-- A local write, which changes nothing where it fails. -/
def localWrite {α : Type} (act : World → α × World) : Prog World α :=
  Prog.operation fun t w =>
    match t.error with
    | none => (.ok (act w).1, (act w).2)
    | some e => (.error e, { w with faults := w.faults + 1 })

/-- An email has the hashes of an item. -/
def ServerItem.sameHashes (item : ServerItem) (email : ImportedEmail) : Bool :=
  item.email.messageIdHash = email.messageIdHash && item.email.contentHash = email.contentHash

variable (x : MailServer)

/-- What the server does with an email for a job. -/
def takeEmail (jobId : String) (email : ImportedEmail) (w : World) :
    Except String StoreResponse × World :=
  if !w.jobs.any fun job => job.id = jobId then (.error notThere, w)
  else if w.items.any fun item => item.sameHashes email then (.ok ⟨0, 1, 0, false⟩, w)
  else
    match x.judge w.items email with
    | some r => (.ok r, w)
    | none =>
        (.ok ⟨1, 0, 0, false⟩,
          { w with
            items := ⟨x.newId w.issued, email, []⟩ :: w.items
            issued := w.issued + 1 })

/-- `store_imported_emails`, for one email. -/
def storeImportedEmails (jobId : String) (email : ImportedEmail) : Prog World StoreResponse :=
  request (takeEmail x jobId email)

/-- `sync_recent_items` -/
def syncRecentItems (limit : Nat) (since : Option String) : Prog World (List ServerItem) :=
  request fun w => (.ok (x.recent w.items limit since), w)

/-- A change of the item with this id, if there is one. -/
def editItem (id : String) (f : ServerItem → ServerItem) (w : World) : Except String Unit × World :=
  if w.items.any fun item => item.id = id then
    (.ok (), { w with items := w.items.map fun item => if item.id = id then f item else item })
  else (.error notThere, w)

/-- A request that changes an item. -/
def changeItem (id : String) (f : ServerItem → ServerItem) : Prog World Unit :=
  request (editItem id f)

/-- `create_attachment` -/
def createAttachment (id : String) (body : AttachmentBody) : Prog World Unit :=
  changeItem id fun item => { item with attachments := item.attachments ++ [body] }

/-- `set_mailbox_flags` -/
def setMailboxFlags (id : String) (patch : MarksPatch) : Prog World Unit :=
  changeItem id fun item =>
    { item with email := { item.email with marks := patch.apply item.email.marks } }

/-- The item with this id is deleted, if there is one. -/
def removeItem (id : String) (w : World) : Except String Unit × World :=
  if w.items.any fun item => item.id = id then
    (.ok (), { w with items := w.items.filter fun item => item.id ≠ id })
  else (.error notThere, w)

/-- `delete_mail_item_permanent` -/
def deleteMailItemPermanent (id : String) : Prog World Unit := request (removeItem id)

/-- `list_import_jobs` -/
def listImportJobs : Prog World (List ImportJob) := request fun w => (.ok w.jobs, w)

/-- `create_import_job` -/
def createImportJob (source : String) : Prog World String :=
  request fun w =>
    (.ok (x.newId w.issued),
      { w with jobs := ⟨x.newId w.issued, "pending", source⟩ :: w.jobs, issued := w.issued + 1 })

/-- `update_import_job` -/
def updateImportJob (id status : String) : Prog World Unit :=
  request fun w =>
    if w.jobs.any fun job => job.id = id then
      (.ok (),
        { w with jobs := w.jobs.map fun job => if job.id = id then { job with status } else job })
    else (.error notThere, w)

end AsterBridge.Imap
