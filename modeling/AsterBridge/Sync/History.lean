import AsterBridge.Db.History
import AsterBridge.Folders.Directory
import AsterBridge.Sync.Attachments
import AsterBridge.Sync.ListingPage

/-!
# The history sweep

`sync/poller/history.rs`: every listing of the server is walked page by page, and its members
carry the round in which they were seen. A sweep that reaches the end drops the members of
earlier rounds, and queues them for a check if no other listing has them; what the server then
reports as gone is deleted.
-/

set_option autoImplicit false

namespace AsterBridge.Sync.History

open AsterBridge.Lib AsterBridge.Db AsterBridge.Sync AsterBridge.Sync.Attachments
open AsterBridge.Folders (folderLabel)

/-! ## The state of a listing -/

/-- `ListingState` -/
structure ListingState where
  round : Int
  sweeping : Bool
  cursor : Option String
  offset : Int
  walked : Nat
  total : Nat
  sweptAt : Nat
  totalOffset : Int
  observed : Option (Nat × Nat)
  driftStreak : Nat
  incomplete : Bool
  eager : Bool
deriving DecidableEq

/-- `ListingState::default` -/
def ListingState.default : ListingState where
  round := 0
  sweeping := false
  cursor := none
  offset := 0
  walked := 0
  total := 0
  sweptAt := 0
  totalOffset := 0
  observed := none
  driftStreak := 0
  incomplete := false
  eager := false

/-- `RESWEEP_AFTER_SECS` -/
def resweepAfterSecs : Nat := 30 * 24 * 60 * 60

/-- `PAGE_SIZE` -/
def pageSize : Nat := 100

/-- `PRUNE_CHECKS_PER_STEP` -/
def pruneChecksPerStep : Nat := 25

/-- `drift_wait` -/
def ListingState.driftWait (state : ListingState) : Nat :=
  min (15 * 60 * 2 ^ min state.driftStreak 16) (24 * 60 * 60)

/-- `drifted` -/
def ListingState.drifted (state : ListingState) : Bool :=
  state.incomplete ||
    state.observed.any fun (total, members) => (total : Int) - members ≠ state.totalOffset

/-- `needs_sweep` -/
def ListingState.needsSweep (state : ListingState) (now : Nat) : Bool :=
  let age := now - state.sweptAt
  if state.sweptAt = 0 ∨ resweepAfterSecs ≤ age then true
  else state.drifted && state.driftWait ≤ age

/-- `known_total` -/
def ListingState.knownTotal (state : ListingState) : Nat :=
  if state.sweeping ∨ 0 < state.sweptAt then state.total
  else (state.observed.map (·.1)).getD 0

/-! ## The store -/

/-- `Listing`; a listing with a token is that of a custom folder. -/
structure Listing where
  label : String
  token : Option String
deriving DecidableEq

/-- What the history sweep works on; all of it is in the database. -/
structure Sweeper where
  tables : HistoryDb
  customFolders : List String
  states : Table String ListingState

/-- The labels of `build_folder_queries`. -/
def systemLabels : List String := ["inbox", "sent", "drafts", "trash", "spam", "archive"]

namespace Sweeper

/-- `listings` -/
def listings (s : Sweeper) : List Listing :=
  systemLabels.map (fun label => ⟨label, none⟩) ++
    s.customFolders.map fun token => ⟨folderLabel token, some token⟩

/-- `load` -/
def load (s : Sweeper) (label : String) : ListingState :=
  (s.states.get? label).getD ListingState.default

/-- `save` -/
def save (s : Sweeper) (label : String) (state : ListingState) : Sweeper :=
  { s with states := s.states.upsert label state }

/-- `stamp_listed` -/
def stampListed (s : Sweeper) (label : String) (ids : List String) : Sweeper :=
  let round := (s.load label).round
  { s with tables := s.tables.stampListingMembers label (ids.filter isValidItemId) round }

/-- `note_listing_total` -/
def noteListingTotal (s : Sweeper) (label : String) (total : Nat) : Sweeper :=
  let state := s.load label
  if state.sweeping then s
  else
    let state := { state with observed := some (total, s.tables.listingMemberCount label) }
    s.save label (if state.drifted then state else { state with driftStreak := 0 })

end Sweeper

/-! ## A page of a listing -/

/-- What opens and files the items of a page: the envelopes, the time of new rows, and the
folders that an item is labelled with. -/
structure SweepEnv where
  json : HeadersJson
  env : Envelopes
  now : String
  labels : MailItem → List String

/-- `MailListResponse` -/
structure MailListResponse where
  items : List MailItem
  total : Int
  hasMore : Bool
  nextCursor : Option String

/-- What the server answers to a request for a page. -/
abbrev PageReply := Except BridgeError MailListResponse

/-- `custom_folder_of` -/
def customFolderOf (env : SweepEnv) (known : List String) (item : MailItem) : Option String :=
  ((env.labels item).find? fun token => known.contains token).map folderLabel

/-- `target_folder` -/
def targetFolder (env : SweepEnv) (known : List String) (systemLabel : String) (item : MailItem) :
    String :=
  if systemLabel = "sent" ∨ systemLabel = "archive" then
    (customFolderOf env known item).getD systemLabel
  else systemLabel

/-- `folder_for` -/
def folderFor (env : SweepEnv) (known : List String) (listing : Listing) (item : MailItem) :
    String :=
  if listing.token.isSome then listing.label else targetFolder env known listing.label item

/-- The context of `index_page`. -/
def pageContext (env : SweepEnv) (known : List String) (listing : Listing) : PageContext where
  json := env.json
  env := env.env
  now := env.now
  folderFor := folderFor env known listing
  predatesAppend _ := false

/-- The membership that `index_page` forgets for an item: that of the folder it was cached in. -/
def movedMember (cx : PageContext) (custom : Bool) (db : Database) (item : MailItem) :
    Option (String × String) :=
  let state := cachedSyncState db.cache item.id
  if skipsItem cx custom state item then none
  else ((state.map (·.folder)).filter (· ≠ cx.folderFor item)).map fun folder => (folder, item.id)

/-- The memberships that `index_page` forgets. -/
def movedMembers (cx : PageContext) (custom : Bool) (db : Database) (items : List MailItem) :
    List (String × String) :=
  (uniqueItems [] items).filterMap (movedMember cx custom db)

/-- `PageOutcome`, with the store. -/
structure PageOutcome where
  store : Sweeper
  created : List String
  updated : List String
  prepared : Nat
  missing : Nat

/-- `index_page` -/
def indexPage (env : SweepEnv) (s : Sweeper) (listing : Listing) (items : List MailItem)
    (round : Int) (light : Bool) : PageOutcome :=
  let page := uniqueItems [] items
  let cx := pageContext env s.customFolders listing
  let custom := listing.token.isSome
  let db := s.tables.database
  let stamped := s.tables.stampListingMembers listing.label (page.map (·.id)) round
  let moved := (movedMembers cx custom db items).foldl (fun h m => h.forgetListingMember m.1 m.2)
    stamped
  let verdict := indexVerdict cx custom light db
  let work := Sync.indexPage cx custom light db items
  { store := { s with tables := { moved with database := work.db } }
    created := work.created
    updated := work.updated
    prepared := page.countP fun item => verdict item = .slow
    missing := page.countP fun item => light && item.envelopeEmpty && verdict item = .skip &&
      !skipsItem cx custom (cachedSyncState db.cache item.id) item }

/-- `record_changes` -/
def recordChanges (s : Sweeper) (created updated destroyed : List String) : Sweeper :=
  let log := s.tables.database.changeLog
  let log := if created = [] then log else log.jmapRecordSyncBatch "Email" created
  let log := if updated = [] then log else log.jmapRecordUpdatedBatch "Email" updated
  let log := if destroyed = [] then log else log.jmapRecordDestroyedBatch "Email" destroyed
  { s with tables := { s.tables with database := { s.tables.database with changeLog := log } } }

/-! ## A step of the sweep -/

/-- `Step` -/
inductive Step where
  | idle
  | worked
  | failed (e : BridgeError)
deriving DecidableEq

/-- How a sweep goes on after a page. -/
inductive Progress where
  | stalled
  | runaway
  | reachedEnd
  | onward
deriving DecidableEq

/-- The server does not advance. -/
def stalled (listing : Listing) (state : ListingState) (resp : MailListResponse) : Bool :=
  resp.hasMore && match listing.token with
    | none => resp.items.isEmpty || (resp.nextCursor.isSome && resp.nextCursor = state.cursor)
    | some _ => resp.items.isEmpty

/-- The page is the last one. -/
def reachedEnd (listing : Listing) (resp : MailListResponse) : Bool :=
  match listing.token with
  | none => !resp.hasMore || resp.nextCursor.isNone
  | some _ => !resp.hasMore

/-- How the sweep goes on, in a state that counts the page. -/
def progress (listing : Listing) (state : ListingState) (resp : MailListResponse) : Progress :=
  if stalled listing state resp then .stalled
  else if state.total + 50 * pageSize < state.walked then .runaway
  else if reachedEnd listing resp then .reachedEnd
  else .onward

/-- The state that counts a page. -/
def counted (state : ListingState) (resp : MailListResponse) : ListingState :=
  { state with walked := state.walked + resp.items.length, total := resp.total.toNat }

/-- The sweep is over. -/
def swept (state : ListingState) (now : Nat) : ListingState :=
  { state with sweeping := false, sweptAt := max now 1, cursor := none, offset := 0
               observed := none }

/-- The end of `sweep_page`, once a page is indexed. -/
def finishPage (s : Sweeper) (listing : Listing) (state : ListingState) (resp : MailListResponse)
    (now : Nat) : Sweeper :=
  let state := counted state resp
  match progress listing state resp with
  | .stalled => s.save listing.label { swept state now with incomplete := true }
  | .onward =>
      s.save listing.label
        { state with cursor := resp.nextCursor, offset := state.offset + resp.items.length }
  | .runaway | .reachedEnd =>
      let tables := (s.tables.finishListingSweep listing.label state.round).1
      let members := tables.listingMemberCount listing.label
      { s with tables }.save listing.label
        { swept state now with totalOffset := (state.total : Int) - members, incomplete := false }

/-- A position is stale after these errors. -/
def stalePosition (e : BridgeError) : Bool :=
  match e with
  | .api msg => (apiStatusCode msg.toList).any fun s => s = 400 || s = 404 || s = 410 || s = 422
  | _ => false

/-- `page_failed` -/
def pageFailed (s : Sweeper) (listing : Listing) (state : ListingState) (e : BridgeError) :
    Sweeper :=
  s.save listing.label
    (if stalePosition e && (state.cursor.isSome || 0 < state.offset) then
      { state with cursor := none, offset := 0, walked := 0 }
    else state)

/-- The listing that the next page is fetched of. -/
def nextListing (s : Sweeper) (now : Nat) : Option Listing :=
  (s.listings.find? fun l => (s.load l.label).sweeping).or
    (s.listings.find? fun l => (s.load l.label).needsSweep now)

/-- The state in which a sweep begins. -/
def begun (state : ListingState) (now : Nat) : ListingState :=
  let driftRound := 0 < state.sweptAt ∧ now - state.sweptAt < resweepAfterSecs
  { ListingState.default with
    round := state.round + 1
    sweeping := true
    sweptAt := state.sweptAt
    total := state.knownTotal
    totalOffset := state.totalOffset
    driftStreak := min (state.driftStreak + if driftRound then 1 else 0) (2 ^ 32 - 1)
    incomplete := state.incomplete }

/-- The beginning of a sweep is saved before its first page. -/
def beginSweep (s : Sweeper) (listing : Listing) (now : Nat) : Sweeper × ListingState :=
  let state := s.load listing.label
  if state.sweeping then (s, state)
  else (s.save listing.label (begun state now), begun state now)

/-- A page that is indexed, or the error of its request. -/
inductive Fetched where
  | failed (store : Sweeper) (e : BridgeError)
  | page (store : Sweeper) (state : ListingState) (resp : MailListResponse)

/-- The page of `sweep_page`: a light one that lacks envelopes is fetched again with them. -/
def fetchPage (env : SweepEnv) (s : Sweeper) (listing : Listing) (state : ListingState)
    (first second : PageReply) : Fetched :=
  match first with
  | .error e => .failed s e
  | .ok resp =>
      let light := !state.eager
      let outcome := indexPage env s listing resp.items state.round light
      if light && 0 < outcome.missing then
        match second with
        | .error e => .failed (recordChanges outcome.store outcome.created outcome.updated []) e
        | .ok resp =>
            let full := indexPage env outcome.store listing resp.items state.round false
            .page (recordChanges full.store (outcome.created ++ full.created)
              (outcome.updated ++ full.updated) []) { state with eager := true } resp
      else
        .page (recordChanges outcome.store outcome.created outcome.updated [])
          (if !light && outcome.prepared = 0 then { state with eager := false } else state) resp

/-- `sweep_page`, once a listing is chosen. -/
def sweepListing (env : SweepEnv) (s : Sweeper) (listing : Listing) (now : Nat)
    (first second : PageReply) : Sweeper × Step :=
  let (s, state) := beginSweep s listing now
  match fetchPage env s listing state first second with
  | .failed s e => (pageFailed s listing state e, .failed e)
  | .page s state resp => (finishPage s listing state resp now, .worked)

/-- The listings whose folders are gone are forgotten. -/
def forgetGone (s : Sweeper) : Sweeper × Nat :=
  let (tables, queued) := s.tables.forgetListingsExcept (s.listings.map (·.label))
  ({ s with tables }, queued)

/-- `sweep_page` -/
def sweepPage (env : SweepEnv) (s : Sweeper) (now : Nat) (first second : PageReply) :
    Sweeper × Step :=
  let (s, queued) := forgetGone s
  if 0 < queued then (s, .worked)
  else
    match nextListing s now with
    | none => (s, .idle)
    | some listing => sweepListing env s listing now first second

/-! ## Departed messages -/

/-- An error of `fetch_mail_item`; `is_decode` of a network error. -/
structure RequestError where
  error : BridgeError
  isDecode : Bool

/-- What the server answers to a request for a message. -/
abbrev ItemReply := Except RequestError Unit

/-- `is_transient_status` -/
def isTransientStatus (s : Nat) : Bool :=
  s = 408 || s = 425 || s = 429 || (500 ≤ s && s < 600)

/-- `is_permanent_status` -/
def isPermanentStatus (s : Nat) : Bool := s = 404 || s = 410

/-- `is_gone` -/
def isGone (e : RequestError) : Bool :=
  match e.error with
  | .api msg => (apiStatusCode msg.toList).any isPermanentStatus
  | _ => false

/-- `is_refused_item` -/
def isRefusedItem (e : RequestError) : Bool :=
  match e.error with
  | .api msg => (apiStatusCode msg.toList).any fun s =>
      s ≠ 401 && !isTransientStatus s && !isPermanentStatus s
  | .network _ => e.isDecode
  | _ => false

/-- The loop of `prune_departed`, with the messages that are deleted and the error that ends it. -/
def pruneQueued (answer : String → ItemReply) :
    HistoryDb → List String → HistoryDb × List String × Option BridgeError
  | h, [] => (h, [], none)
  | h, id :: ids =>
      if !isValidItemId id then pruneQueued answer (h.pruneQueueRemove id) ids
      else
        match answer id with
        | .ok () => pruneQueued answer (h.pruneQueueRemove id) ids
        | .error e =>
            if isGone e then
              let (h, destroyed, failure) := pruneQueued answer (h.deleteMessageByAsterId id) ids
              (h, id :: destroyed, failure)
            else if isRefusedItem e then pruneQueued answer (h.pruneQueueRemove id) ids
            else (h, [], some e.error)

/-- `prune_departed` -/
def pruneDeparted (s : Sweeper) (answer : String → ItemReply) : Sweeper × Step :=
  let h := s.tables.pruneQueueDropListed
  match h.pruneQueueBatch pruneChecksPerStep with
  | [] => ({ s with tables := h }, .idle)
  | id :: ids =>
      let (h, destroyed, failure) := pruneQueued answer h (id :: ids)
      (recordChanges { s with tables := h } [] [] destroyed,
        match failure with
        | some e => .failed e
        | none => .worked)

/-- `step`, when no message is due for another try at its decryption. -/
def historyStep (env : SweepEnv) (s : Sweeper) (now : Nat) (first second : PageReply)
    (answer : String → ItemReply) : Sweeper × Step :=
  match sweepPage env s now first second with
  | (s, .idle) => pruneDeparted s answer
  | (s, outcome) => (s, outcome)

end AsterBridge.Sync.History
