import AsterBridge.Lib.Table
import AsterBridge.Lib.Text

/-!
# The message cache and its UIDs

Tables `message_cache`, `uid_map` and `sync_state` of the bridge database with
the functions that write them. A message is identified by its aster id; the
column `imap_uid` of `uid_map` is its UID in a folder, read back as a `u32`. The
next UID of a folder is kept as text in `sync_state` under `uidnext:{folder}`.

The tables of attachments, of the search index and of the history sweep are left
out: no function here reads them.
-/

set_option autoImplicit false

namespace AsterBridge.Db

open AsterBridge.Lib AsterBridge.Lib.Text

/-- A row of `message_cache`. -/
structure MessageRow where
  folder : String
  subject : Option String
  sender : Option String
  recipients : Option String
  date : Option String
  flags : BitVec 64
  size : Int
  bodyCached : Bool
  bodyText : Option String
  rawHeaders : Option String
  createdAt : String
  threadId : Option String
  messageId : Option String
  deriving DecidableEq, Repr

/-- The values passed to `upsert_cached_message`. -/
structure MessageValues where
  subject : Option String
  sender : Option String
  recipients : Option String
  date : Option String
  size : Int
  bodyText : Option String
  rawHeaders : Option String
  deriving DecidableEq, Repr

/-- What JSON parsers say about a `raw_headers` text: whether it is valid with a
`message_id` that is not null, and its keys when it is an object. -/
structure HeadersJson where
  hasMessageId : String → Bool
  objectKeys : String → Option (List String)

/-- Tables `message_cache` (by aster id), `uid_map` (by aster id and folder) and
`sync_state` (by key). -/
structure Cache where
  messageCache : Table String MessageRow
  uidMap : Table (String × String) Nat
  syncState : Table String String

/-- A row of a listing, joined with the UID in the folder of the row. -/
structure CachedMessage where
  asterId : String
  row : MessageRow
  imapUid : Nat

/-- `as u32`. -/
def toU32 (n : Nat) : Nat := n % 2 ^ 32

/-- `strip_c0_controls`. -/
def stripC0Controls (s : String) : String :=
  String.ofList (s.toList.filter fun c => !isControl c || c = '\t' || c = '\n' || c = '\r')

/-- The loop of `crlf_normalized_len`, after the byte `prev`. -/
def crlfLen (prev : Option UInt8) : List UInt8 → Nat
  | [] => 0
  | b :: bs =>
      (if (b = 10 ∧ prev ≠ some 13) ∨ (b = 13 ∧ bs.head? ≠ some 10) then 2 else 1) +
        crlfLen (some b) bs

/-- `crlf_normalized_len`: the length in bytes once every line break is CRLF. -/
def crlfNormalizedLen (s : String) : Nat := crlfLen none s.toUTF8.toList

namespace Cache

/-- A new database. -/
def empty : Cache := ⟨Table.empty, Table.empty, Table.empty⟩

/-! ## Messages -/

/-- `UPDATE message_cache SET .. WHERE aster_id = asterId`. -/
def updateMessage (db : Cache) (asterId : String) (f : MessageRow → MessageRow) : Cache :=
  { db with messageCache := db.messageCache.updateWhere (fun k _ => k = asterId) fun _ r => f r }

/-- `upsert_cached_message`: whether the row is new. `now` is the default of
`created_at`. -/
def upsertCachedMessage (db : Cache) (now asterId folder : String) (v : MessageValues) :
    Cache × Bool :=
  let subject := v.subject.map stripC0Controls
  let sender := v.sender.map stripC0Controls
  let recipients := v.recipients.map stripC0Controls
  let bodyText := v.bodyText.map stripC0Controls
  let size := (bodyText.map fun b => (crlfNormalizedLen b : Int)).getD v.size
  match db.messageCache.get? asterId with
  | none =>
      let row : MessageRow :=
        { folder, subject, sender, recipients, date := v.date, flags := 0, size
          bodyCached := bodyText.isSome, bodyText, rawHeaders := v.rawHeaders
          createdAt := now, threadId := none, messageId := none }
      ({ db with messageCache := db.messageCache.insertIgnore asterId row }, true)
  | some _ =>
      (db.updateMessage asterId fun r =>
        { r with
          folder, subject, sender, recipients, date := v.date, size
          rawHeaders := v.rawHeaders
          bodyCached := r.bodyCached || bodyText.isSome
          bodyText := if bodyText.isSome then bodyText else r.bodyText }, false)

/-- `body_cached`. -/
def bodyCached (db : Cache) (asterId : String) : Bool :=
  ((db.messageCache.get? asterId).map (·.bodyCached)).getD false

/-- `get_message_flags_by_id`. -/
def getMessageFlagsById (db : Cache) (asterId : String) : Option (BitVec 64) :=
  (db.messageCache.get? asterId).map (·.flags)

/-- `set_message_flags_by_id`. -/
def setMessageFlagsById (db : Cache) (asterId : String) (newFlags : BitVec 64) : Cache :=
  db.updateMessage asterId fun r => { r with flags := newFlags }

/-- `set_message_flags_if_unchanged`: every update `(id, expected, flags)` of a row
that still has the expected flags, in order, and the ids whose row has not. -/
def setMessageFlagsIfUnchanged (db : Cache) :
    List (String × BitVec 64 × BitVec 64) → Cache × List String
  | [] => (db, [])
  | (asterId, expected, flags) :: rest =>
      if db.getMessageFlagsById asterId = some expected then
        (db.setMessageFlagsById asterId flags).setMessageFlagsIfUnchanged rest
      else
        let (db', stale) := db.setMessageFlagsIfUnchanged rest
        (db', asterId :: stale)

/-- `set_cached_raw_headers`. -/
def setCachedRawHeaders (db : Cache) (asterId raw : String) : Cache :=
  db.updateMessage asterId fun r => { r with rawHeaders := some raw }

/-- `update_message_thread_and_msgid`. -/
def updateMessageThreadAndMsgid (db : Cache) (asterId : String)
    (threadId messageId : Option String) : Cache :=
  db.updateMessage asterId fun r =>
    { r with threadId := threadId.or r.threadId, messageId := messageId.or r.messageId }

/-- `recache_messages_without_message_id`: the bodies of messages without a
Message-ID are read again. -/
def recacheMessagesWithoutMessageId (json : HeadersJson) (db : Cache) : Cache :=
  { db with
    messageCache := db.messageCache.updateWhere
      (fun _ r => r.bodyCached && (r.messageId = none || r.messageId = some "") &&
        !r.rawHeaders.any json.hasMessageId)
      fun _ r => { r with bodyCached := false } }

/-! ## UIDs -/

/-- The row of `uid_map` with a UID in a folder: its aster id. -/
def uidOwner (db : Cache) (uid : Nat) (folder : String) : Option String :=
  (db.uidMap.rows.find? fun e => e.2 = uid ∧ e.1.2 = folder).map (·.1.1)

/-- `SELECT COALESCE(MAX(imap_uid), 0) FROM uid_map WHERE folder = folder`. -/
def existingMax (db : Cache) (folder : String) : Nat :=
  ((db.uidMap.rows.filter fun e => e.1.2 = folder).map (·.2)).foldl max 0

/-- The key of a folder's next UID in `sync_state`. -/
def uidNextKey (folder : String) : String := "uidnext:" ++ folder

/-- The UID that `assign_uid_if_missing_on` gives next. A counter never reaches
the bounds of `i64`, which are left out. -/
def nextUid (db : Cache) (folder : String) : Nat :=
  let stored := ((db.syncState.get? (uidNextKey folder)).bind parseInt).getD 0
  (max (max stored (db.existingMax folder + 1)) 1).toNat

/-- `assign_uid_if_missing`. -/
def assignUidIfMissing (db : Cache) (folder asterId : String) : Cache × Nat :=
  match db.uidMap.get? (asterId, folder) with
  | some uid => (db, toU32 uid)
  | none =>
      let next := db.nextUid folder
      ({ db with
          uidMap := db.uidMap.insertIgnore (asterId, folder) next
          syncState := db.syncState.upsert (uidNextKey folder) (toString (next + 1)) },
        toU32 next)

/-- `max_uid`. -/
def maxUid (db : Cache) (folder : String) : Nat := toU32 (db.existingMax folder)

/-- `uid_next`. -/
def uidNext (db : Cache) (folder : String) : Nat :=
  let stored := ((db.syncState.get? (uidNextKey folder)).bind (parseUInt (2 ^ 32))).getD 0
  max (max stored (min (db.maxUid folder + 1) (2 ^ 32 - 1))) 1

/-- `remove_uid_mapping`. -/
def removeUidMapping (db : Cache) (uid : Nat) (folder : String) : Cache :=
  { db with uidMap := db.uidMap.deleteWhere fun k u => u = uid && k.2 = folder }

/-- `delete_message_by_uid`. -/
def deleteMessageByUid (db : Cache) (uid : Nat) (folder : String) : Cache :=
  match db.uidOwner uid folder with
  | none => db
  | some id =>
      { db with
        messageCache := db.messageCache.deleteWhere fun k _ => k = id
        uidMap := db.uidMap.deleteWhere fun k _ => k.1 = id && k.2 = folder }

/-- `delete_message_by_aster_id`. -/
def deleteMessageByAsterId (db : Cache) (asterId : String) : Cache :=
  { db with
    messageCache := db.messageCache.deleteWhere fun k _ => k = asterId
    uidMap := db.uidMap.deleteWhere fun k _ => k.1 = asterId }

/-- `update_message_flags`. -/
def updateMessageFlags (db : Cache) (uid : Nat) (folder : String) (newFlags : BitVec 64) :
    Cache :=
  match db.uidOwner uid folder with
  | none => db
  | some id => db.setMessageFlagsById id newFlags

/-- `set_folder_if_changed`. -/
def setFolderIfChanged (db : Cache) (asterId folder : String) : Cache :=
  match db.messageCache.get? asterId with
  | none => db
  | some r =>
      if r.folder = folder then db
      else
        { db.updateMessage asterId fun r => { r with folder } with
          uidMap := db.uidMap.deleteWhere fun k _ => k.1 = asterId && k.2 ≠ folder }

/-- The messages of a folder. -/
def folderIds (db : Cache) (folder : String) : List String :=
  (db.messageCache.rows.filter fun e => e.2.folder = folder).map (·.1)

/-- The transaction of `relocate_folder_messages`. -/
def relocateRows (db : Cache) (source target : String) : Cache :=
  { db with
    messageCache := db.messageCache.updateWhere (fun _ r => r.folder = source)
      fun _ r => { r with folder := target }
    uidMap := db.uidMap.deleteWhere fun k _ => k.2 = source }

/-- `assign_uid_if_missing` for each message of a list. -/
def assignEach (db : Cache) (folder : String) (ids : List String) : Cache :=
  ids.foldl (fun db id => (db.assignUidIfMissing folder id).1) db

/-- `relocate_folder_messages`. -/
def relocateFolderMessages (db : Cache) (source target : String) : Cache × List String :=
  let ids := db.folderIds source
  ((db.relocateRows source target).assignEach target ids, ids)

/-- The order of nullable text columns: NULL is the smallest value. -/
def textLt : Option String → Option String → Bool
  | _, none => false
  | none, some _ => true
  | some a, some b => decide (a < b)

/-- `ORDER BY date DESC, created_at DESC`: `a` does not come after `b`. -/
def newerFirst (a b : String × MessageRow) : Bool :=
  !(textLt a.2.date b.2.date || (a.2.date = b.2.date && a.2.createdAt < b.2.createdAt))

/-- The messages that `trim_folders_to_newest` selects: of every folder but the
drafts, those after the first `keep`. -/
def pastNewest (db : Cache) (keep : Nat) : List String :=
  let folders := (db.messageCache.rows.map (·.2.folder)).dedup.filter (· ≠ "drafts")
  folders.flatMap fun folder =>
    (((db.messageCache.rows.filter fun e => e.2.folder = folder).mergeSort newerFirst).drop
      keep).map (·.1)

/-- `trim_folders_to_newest`. -/
def trimFoldersToNewest (db : Cache) (keep : Nat) : Cache × List String :=
  let ids := db.pastNewest keep
  (ids.foldl deleteMessageByAsterId db, ids)

/-! ## Listings -/

/-- `ORDER BY imap_uid ASC`, where NULL comes first. -/
def uidLe : Option Nat → Option Nat → Bool
  | none, _ => true
  | some _, none => false
  | some a, some b => decide (a ≤ b)

/-- The rows of a folder with their UID there, in UID order. -/
def folderRows (db : Cache) (folder : String) : List (Option Nat × String × MessageRow) :=
  ((db.messageCache.rows.filter fun e => e.2.folder = folder).map fun e =>
    (db.uidMap.get? (e.1, folder), e)).mergeSort fun a b => uidLe a.1 b.1

/-- `list_cached_message_meta`: the bodies are not read. -/
def listCachedMessageMeta (db : Cache) (folder : String) : List CachedMessage :=
  (db.folderRows folder).map fun e =>
    ⟨e.2.1, { e.2.2 with bodyText := none }, toU32 (e.1.getD 0)⟩

/-- `get_cached_message`. -/
def getCachedMessage (db : Cache) (asterId : String) : Option CachedMessage :=
  (db.messageCache.get? asterId).map fun r =>
    ⟨asterId, r, toU32 ((db.uidMap.get? (asterId, r.folder)).getD 0)⟩

end Cache

end AsterBridge.Db
