import AsterBridge.Sync.MailItem

/-!
# Applying a page of a listing

Two consumers apply a page: the sync pass (`syncPage`) and the indexer of the
history sweep (`indexPage`). Both read the cached rows once, send every item down
the shortcut or the slow path, and write the flags of all shortcuts at the end, each
on the condition that the row still has the flags it had when the page was read; a
row that has not is reconciled on its own.

They differ in the items they take and in one step of the write: the sync pass
overlays the queued local changes first (`overlayPending`), the indexer does not.
-/

set_option autoImplicit false

namespace AsterBridge.Sync

open AsterBridge.Db

/-- What a consumer works with: JSON, the decrypted envelopes, the time of new rows,
the folder of each item, and the items whose listing predates an APPEND. -/
structure PageContext where
  json : HeadersJson
  env : Envelopes
  now : String
  folderFor : MailItem → String
  predatesAppend : MailItem → Bool

/-- A flag change from the shortcut: the flags of the row when it was read, and the
new ones. -/
structure FlagUpdate where
  item : MailItem
  expected : BitVec 64
  flags : BitVec 64

/-- The state of a consumer: the database, the flag changes to write, and the
messages that are new or changed. -/
structure PageWork where
  db : Database
  flagUpdates : List FlagUpdate
  created : List String
  updated : List String

/-- A consumer before its first item. -/
def PageWork.start (db : Database) : PageWork := ⟨db, [], [], []⟩

/-- The slow path of an item. -/
def slowPath (cx : PageContext) (w : PageWork) (item : MailItem) : PageWork :=
  let (db, outcome) := cacheMailItem cx.json cx.env cx.now w.db (cx.folderFor item) item
  { w with
    db := db
    created := if outcome.wasNew then w.created ++ [item.id] else w.created
    updated := if outcome.flagsChanged then w.updated ++ [item.id] else w.updated }

/-- What a consumer does with an item. -/
inductive Verdict where
  | skip
  | unchanged
  | flagsOnly (expected flags : BitVec 64)
  | slow
  deriving DecidableEq, Repr

/-- The verdict of `cached_shortcut` for a row as it was read, or else
`otherwise`. -/
def shortcutOr (cx : PageContext) (state : Option CachedSyncState) (item : MailItem)
    (otherwise : Verdict) : Verdict :=
  match cachedShortcut cx.json state (cx.folderFor item) item with
  | some .unchanged => .unchanged
  | some (.flagsOnly flags) => .flagsOnly ((state.map (·.flags)).getD 0) flags
  | none => otherwise

/-- One item with its verdict. -/
def takeItem (cx : PageContext) (verdict : MailItem → Verdict) (w : PageWork) (item : MailItem) :
    PageWork :=
  match verdict item with
  | .skip => w
  | .unchanged => w
  | .flagsOnly expected flags =>
      { w with flagUpdates := w.flagUpdates ++ [⟨item, expected, flags⟩] }
  | .slow => slowPath cx w item

/-- The loop over the flag changes once they are written: those whose row was stale
are reconciled. -/
def reconcileStale (stale : List String) (us : List FlagUpdate) (w : PageWork) : PageWork :=
  us.foldl (fun w u =>
    if !stale.contains u.item.id then { w with updated := w.updated ++ [u.item.id] }
    else
      let (db, changed) := reconcileServerFlags w.db u.item
      { w with db := db, updated := if changed then w.updated ++ [u.item.id] else w.updated }) w

/-- `set_message_flags_if_unchanged` for the flag changes, and the rows that were
stale reconciled. -/
def writeFlags (w : PageWork) : PageWork :=
  let (c, stale) := w.db.cache.setMessageFlagsIfUnchanged
    (w.flagUpdates.map fun u => (u.item.id, u.expected, u.flags))
  reconcileStale stale w.flagUpdates { w with db := { w.db with cache := c } }

/-- The queued local changes over a flag change. -/
def overlayUpdate (db : Database) (u : FlagUpdate) : FlagUpdate :=
  { u with flags := withPendingFlags u.flags (db.flagPushes.pendingFlagValues u.item.id) }

/-- The queued local changes over the flag changes; changes that come to nothing are
dropped. -/
def overlayPending (w : PageWork) : PageWork :=
  { w with
    flagUpdates := (w.flagUpdates.map (overlayUpdate w.db)).filter fun u => u.expected ≠ u.flags }

/-! ## The sync pass -/

/-- The sync pass takes the shortcut for ids that occur once in the page. -/
def syncVerdict (cx : PageContext) (db : Database) (page : List MailItem) (item : MailItem) :
    Verdict :=
  let prepare := if cx.predatesAppend item then Verdict.skip else .slow
  if page.countP (fun i => i.id = item.id) = 1 then
    shortcutOr cx (cachedSyncState db.cache item.id) item prepare
  else prepare

/-- A page of `run_sync_pass`. -/
def syncPage (cx : PageContext) (db : Database) (page : List MailItem) : PageWork :=
  writeFlags (overlayPending
    (page.foldl (takeItem cx (syncVerdict cx db page)) (PageWork.start db)))

/-! ## The history sweep -/

/-- The items of a page with a valid id, each id once. -/
def uniqueItems (seen : List String) : List MailItem → List MailItem
  | [] => []
  | i :: is =>
      if isValidItemId i.id && !seen.contains i.id then i :: uniqueItems (i.id :: seen) is
      else uniqueItems seen is

/-- The items that `index_page` leaves alone: in the listing of a custom folder, spam
and messages that are cached in another folder. -/
def skipsItem (cx : PageContext) (custom : Bool) (state : Option CachedSyncState)
    (item : MailItem) : Bool :=
  custom && (item.isSpam = some true || state.any fun s => s.folder ≠ cx.folderFor item)

/-- The verdict of `index_page`, in a page that is `light` when it came without
envelopes. -/
def indexVerdict (cx : PageContext) (custom light : Bool) (db : Database) (item : MailItem) :
    Verdict :=
  let state := cachedSyncState db.cache item.id
  if skipsItem cx custom state item then .skip
  else shortcutOr cx state item (if light && item.envelopeEmpty then .skip else .slow)

/-- `index_page`. -/
def indexPage (cx : PageContext) (custom light : Bool) (db : Database) (page : List MailItem) :
    PageWork :=
  writeFlags ((uniqueItems [] page).foldl (takeItem cx (indexVerdict cx custom light db))
    (PageWork.start db))

end AsterBridge.Sync
