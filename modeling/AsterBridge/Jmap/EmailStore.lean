import AsterBridge.Imap.FlagPushes
import AsterBridge.Sync.ListingPage

/-!
# Commands that change mail, and what they record

JMAP clients learn of changes from the Email counter and the change log. Recording is
a call of its own (`jmap_record_*_batch`), made by some of the commands that write
`message_cache`: the sync pass, the history sweep, pruning, APPEND, COPY and the
deletion of a folder record; STORE (also the `\Seen` of a FETCH), EXPUNGE, MOVE and the
QUIT of POP3 do not.

`EmailStore` keeps, beside the database, every row that was ever recorded, since the
log itself keeps its newest 10000 rows only.
-/

set_option autoImplicit false

namespace AsterBridge.Jmap

open AsterBridge.Db AsterBridge.Sync AsterBridge.Imap

/-- The database, and all rows that the change log ever got. -/
structure EmailStore where
  db : Database
  recorded : List ChangeRow

/-- A web draft that the pass caches: its id and content. -/
structure WebDraft where
  id : String
  values : MessageValues

/-- What a sync pass gets from the server: the pages of all listings, the web drafts
that changed, and the cached messages that are gone. -/
structure SyncPass where
  pages : List (PageContext × List MailItem)
  drafts : List WebDraft
  gone : List String

/-- A copy that COPY stores: a draft, or an imported message with its flags. -/
inductive Copy where
  | draft (d : WebDraft)
  | imported (item : MailItem) (bits : BitVec 64)

def Copy.id : Copy → String
  | .draft d => d.id
  | .imported item _ => item.id

/-- A command. The ids and UIDs of a deletion are those that the server confirmed. A COPY
that fails leaves the copies `kept` that the server would not delete. -/
inductive MailCommand where
  | syncPass (now : String) (pass : SyncPass)
  | historyPage (cx : PageContext) (custom light : Bool) (page : List MailItem)
  | prune (gone : List String)
  | store (folder : String) (uids : List Nat) (op : Int) (mask : BitVec 32)
  | expunge (folder : String) (uids : List Nat)
  | move (now source target : String) (uids : List Nat)
  | append (cx : PageContext) (c : Copy)
  | copy (cx : PageContext) (copies : List Copy)
  | copyFailed (cx : PageContext) (copies : List Copy) (kept : List String)
  | quit (deleted : List String)
  | deleteFolder (source : String)
  | queueFlags (q : FlagPushQueue)
  | record (ty : String) (ids : List String) (op : ChangeOp)

namespace EmailStore

/-- A new store. -/
def empty : EmailStore := ⟨Database.empty, []⟩

/-- A function of the cache. -/
def onCache (s : EmailStore) (f : Cache → Cache) : EmailStore := { s with db := s.db.onCache f }

/-- `jmap_record_batch`. -/
def recordBatch (s : EmailStore) (ty : String) (ids : List String) (op : ChangeOp) : EmailStore :=
  let log := s.db.changeLog.jmapRecordBatch ty ids op
  { db := { s.db with changeLog := log }
    recorded := s.recorded ++ ids.map fun id => ⟨ty, log.jmapStateGet ty, id, op⟩ }

/-- Changed messages, if there are any: a step of `record_changes`. -/
def recordChanges (s : EmailStore) (ids : List String) (op : ChangeOp) : EmailStore :=
  if ids = [] then s else s.recordBatch "Email" ids op

/-- `delete_message_by_aster_id` for each message. -/
def deleteEach (s : EmailStore) (ids : List String) : EmailStore :=
  s.onCache fun c => ids.foldl Cache.deleteMessageByAsterId c

/-! ## The sync pass -/

/-- A page: new messages are recorded at once, changed ones at the end of the pass. -/
def takePage (p : EmailStore × List String) (page : PageContext × List MailItem) :
    EmailStore × List String :=
  let w := syncPage page.1 p.1.db page.2
  ({ p.1 with db := w.db }.recordChanges w.created .created, p.2 ++ w.updated)

/-- `cache_web_draft`: whether the draft is new. -/
def cacheWebDraft (now : String) (s : EmailStore) (d : WebDraft) : EmailStore × Bool :=
  let (c, wasNew) := s.db.cache.upsertCachedMessage now d.id "drafts" d.values
  ({ s with db := { s.db with cache := (c.assignUidIfMissing "drafts" d.id).1 } }, wasNew)

/-- A draft of the pass: the new and the changed messages. -/
def takeDraft (now : String) (p : EmailStore × List String × List String) (d : WebDraft) :
    EmailStore × List String × List String :=
  let (s, wasNew) := cacheWebDraft now p.1 d
  if wasNew then (s, p.2.1 ++ [d.id], p.2.2) else (s, p.2.1, p.2.2 ++ [d.id])

/-- `run_sync_pass`. -/
def runSyncPass (s : EmailStore) (now : String) (pass : SyncPass) : EmailStore :=
  let (s, updated) := pass.pages.foldl takePage (s, [])
  let (s, new, updated) := pass.drafts.foldl (takeDraft now) (s, [], updated)
  let s := (s.recordChanges new .created).deleteEach pass.gone
  (s.recordChanges pass.gone .destroyed).recordChanges updated .updated

/-! ## APPEND and COPY -/

/-- The end of `import_message`, or of `append_draft`. -/
def storeCopy (cx : PageContext) (s : EmailStore) : Copy → EmailStore
  | .draft d => (cacheWebDraft cx.now s d).1
  | .imported item bits =>
      let folder := cx.folderFor item
      let db := (cacheMailItem cx.json cx.env cx.now s.db folder item).1
      let db := db.onCache fun c => (c.assignUidIfMissing folder item.id).1
      { s with db := if bits = 0 then db else db.onCache fun c => c.setMessageFlagsById item.id bits }

/-! ## Commands -/

def step (s : EmailStore) : MailCommand → EmailStore
  | .syncPass now pass => s.runSyncPass now pass
  | .historyPage cx custom light page =>
      let w := indexPage cx custom light s.db page
      ({ s with db := w.db }.recordChanges w.created .created).recordChanges w.updated .updated
  | .prune gone => (s.deleteEach gone).recordChanges gone .destroyed
  | .store folder uids op mask =>
      { s with db := writeStore s.db folder op mask (storeTargets s.db folder uids) }
  | .expunge folder uids =>
      s.onCache fun c => uids.foldl (fun c uid => c.deleteMessageByUid uid folder) c
  | .move now source target uids =>
      s.onCache fun c => moveMessages now source target (fun u => uids.contains u) c
  | .append cx c => (storeCopy cx s c).recordBatch "Email" [c.id] .created
  | .copy cx copies => (copies.foldl (storeCopy cx) s).recordBatch "Email" (copies.map (·.id)) .created
  | .copyFailed cx copies kept =>
      (copies.foldl (storeCopy cx) s).deleteEach
        ((copies.map (·.id)).filter fun id => !kept.contains id)
  | .quit deleted => s.deleteEach deleted
  | .deleteFolder source =>
      let (c, ids) := s.db.cache.relocateFolderMessages source "inbox"
      { s with db := { s.db with cache := c } }.recordChanges ids .updated
  | .queueFlags q => { s with db := { s.db with flagPushes := q } }
  | .record ty ids op => s.recordBatch ty ids op

end EmailStore

end AsterBridge.Jmap
