import AsterBridge.Db.Database

/-!
# Applying a listed mail item

A mail item of a server listing reaches the cache on one of two ways. The
shortcut (`cachedShortcut`) compares it with the cached row and changes at most
the flags. The slow path first prepares it (`prepareMailItem`): a message whose
body is cached is filed, renumbered when addresses were missing, and its flags
are reconciled; any other one is decrypted and then stored (`commitPrepared`).

Decryption is a parameter: `Envelopes` says what the envelope of an item yields.
-/

set_option autoImplicit false

namespace AsterBridge.Sync

open AsterBridge.Db

/-- A listed item: the fields the functions below read. -/
structure MailItem where
  id : String
  isRead : Option Bool
  isStarred : Option Bool
  isSpam : Option Bool
  envelopeEmpty : Bool
  deriving DecidableEq, Repr

/-- `is_valid_item_id`. -/
def isValidItemId (id : String) : Bool :=
  !id.isEmpty && id.utf8ByteSize ≤ 128 &&
    id.toList.all fun c => c.isAlphanum || c = '-' || c = '_'

/-! ## Flags -/

/-- Set or clear the bits of a mask. -/
def withMask (flags mask : BitVec 64) (value : Bool) : BitVec 64 :=
  if value then flags ||| mask else flags &&& ~~~mask

/-- `server_flags`: the flags with the bits that the item reports. -/
def serverFlags (current : BitVec 64) (item : MailItem) : BitVec 64 :=
  let read := match item.isRead with
    | some value => withMask current 1 value
    | none => current
  match item.isStarred with
  | some value => withMask read 4 value
  | none => read

/-- `with_pending_flags`: the flags with the queued local changes. -/
def withPendingFlags (flags : BitVec 64) (pending : List (Fin 64 × Bool)) : BitVec 64 :=
  pending.foldl (fun flags p => withMask flags (1#64 <<< p.1.val) p.2) flags

/-- `reconcile_server_flags`: whether the flags changed. -/
def reconcileServerFlags (db : Database) (item : MailItem) : Database × Bool :=
  if item.isRead = none ∧ item.isStarred = none then (db, false)
  else
    match db.cache.getMessageFlagsById item.id with
    | none => (db, false)
    | some current =>
        let newFlags :=
          withPendingFlags (serverFlags current item) (db.flagPushes.pendingFlagValues item.id)
        if newFlags = current then (db, false)
        else (db.onCache fun c => c.setMessageFlagsById item.id newFlags, true)

/-! ## The shortcut -/

/-- `CachedSyncState`. -/
structure CachedSyncState where
  bodyCached : Bool
  folder : String
  flags : BitVec 64
  rawHeaders : Option String
  uidFolders : List String

/-- `cached_sync_states` for one message. -/
def cachedSyncState (c : Cache) (id : String) : Option CachedSyncState :=
  (c.messageCache.get? id).map fun r =>
    { bodyCached := r.bodyCached
      folder := r.folder
      flags := r.flags
      rawHeaders := r.rawHeaders
      uidFolders := (c.uidMap.rows.filter fun e => e.1.1 = id).map (·.1.2) }

/-- `CachedShortcut`. -/
inductive CachedShortcut where
  | unchanged
  | flagsOnly (flags : BitVec 64)
  deriving DecidableEq, Repr

/-- The headers lack the addresses of a message that is not an API draft. -/
def lacksAddresses (json : HeadersJson) (rawHeaders : Option String) : Bool :=
  match rawHeaders.bind json.objectKeys with
  | some keys => !keys.contains "addresses_v" && !keys.contains "draft_api"
  | none => false

/-- `cached_shortcut`. -/
def cachedShortcut (json : HeadersJson) (state : Option CachedSyncState) (folder : String)
    (item : MailItem) : Option CachedShortcut :=
  if !isValidItemId item.id then none
  else
    match state with
    | none => none
    | some state =>
        if !state.bodyCached || state.folder ≠ folder || !state.uidFolders.contains folder then none
        else if lacksAddresses json state.rawHeaders then none
        else
          let newFlags := serverFlags state.flags item
          if newFlags = state.flags then some .unchanged else some (.flagsOnly newFlags)

/-! ## The slow path -/

/-- What `prepare_mail_item` reads from a decrypted envelope, with the `raw_headers`
text and the bare Message-ID that `commit_prepared` derives from it. -/
structure PreparedMessage where
  subject : Option String
  sender : Option String
  recipients : Option String
  date : Option String
  bodyText : Option String
  rawHeadersMeta : String
  bareMessageId : Option String

/-- What the envelopes yield: the message of an item, unless it is refused or does
not decrypt, and the headers of a cached message completed with the addresses, with
whether there are none. -/
structure Envelopes where
  opened : MailItem → Option PreparedMessage
  withAddresses : MailItem → Option String → Option (String × Bool)

/-- `CacheOutcome`, as far as it concerns the cache. -/
structure CacheOutcome where
  wasNew : Bool
  flagsChanged : Bool
  deriving DecidableEq, Repr

/-- `Prepared`. -/
inductive Prepared where
  | done (outcome : CacheOutcome)
  | ready (message : PreparedMessage)

/-- Give a message a new UID in a folder; `uid` is its UID as it was read. -/
def renumberIn (c : Cache) (folder id : String) (uid : Nat) : Cache :=
  let c := if 0 < uid then c.removeUidMapping uid folder else c
  (c.assignUidIfMissing folder id).1

/-- `backfill_cached_addresses`. -/
def backfillCachedAddresses (json : HeadersJson) (env : Envelopes) (c : Cache) (folder : String)
    (item : MailItem) : Cache × Bool :=
  match c.getCachedMessage item.id with
  | none => (c, false)
  | some cached =>
      if !lacksAddresses json cached.row.rawHeaders then (c, false)
      else
        match env.withAddresses item cached.row.rawHeaders with
        | none => (c, false)
        | some (raw, isEmpty) =>
            let c := c.setCachedRawHeaders item.id raw
            if isEmpty then (c, false) else (renumberIn c folder item.id cached.imapUid, true)

/-- `prepare_mail_item`. -/
def prepareMailItem (json : HeadersJson) (env : Envelopes) (db : Database) (folder : String)
    (item : MailItem) : Database × Prepared :=
  if !isValidItemId item.id then (db, .done ⟨false, false⟩)
  else if db.cache.bodyCached item.id then
    let filed := (db.cache.setFolderIfChanged item.id folder).assignUidIfMissing folder item.id
    let (c, addressesAdded) := backfillCachedAddresses json env filed.1 folder item
    let (db, flagsChanged) := reconcileServerFlags { db with cache := c } item
    (db, .done ⟨false, flagsChanged || addressesAdded⟩)
  else
    match env.opened item with
    | none => (db, .done ⟨false, false⟩)
    | some message => (db, .ready message)

/-- The values that `commit_prepared` stores. -/
def PreparedMessage.values (p : PreparedMessage) : MessageValues :=
  { subject := p.subject
    sender := p.sender
    recipients := p.recipients
    date := p.date
    size := (p.bodyText.map fun b => (b.utf8ByteSize : Int)).getD 0
    bodyText := p.bodyText
    rawHeaders := some p.rawHeadersMeta }

/-- `commit_prepared`. -/
def commitPrepared (now : String) (db : Database) (folder : String) (item : MailItem)
    (p : PreparedMessage) : Database × CacheOutcome :=
  let (c, wasNew) := db.cache.upsertCachedMessage now item.id folder p.values
  let c := if p.bareMessageId.isSome then
      c.updateMessageThreadAndMsgid item.id none p.bareMessageId
    else c
  let c := (c.assignUidIfMissing folder item.id).1
  let (db, flagsChanged) := reconcileServerFlags { db with cache := c } item
  (db, ⟨wasNew, flagsChanged && !wasNew⟩)

/-- `cache_mail_item`. -/
def cacheMailItem (json : HeadersJson) (env : Envelopes) (now : String) (db : Database)
    (folder : String) (item : MailItem) : Database × CacheOutcome :=
  match prepareMailItem json env db folder item with
  | (db, .done outcome) => (db, outcome)
  | (db, .ready message) => commitPrepared now db folder item message

/-! ## Moves and repairs -/

/-- The end of an attachment or seal repair: the message, as it was read, gets a
new UID in its folder. -/
def renumber (c : Cache) (id : String) : Cache :=
  match c.getCachedMessage id with
  | none => c
  | some cached => renumberIn c cached.row.folder id cached.imapUid

/-- One message of the MOVE batch of `handle_copy_move`. -/
def moveMessage (now source target : String) (c : Cache) (m : CachedMessage) : Cache :=
  let c := (c.upsertCachedMessage now m.asterId target
    { subject := m.row.subject, sender := m.row.sender, recipients := m.row.recipients
      date := m.row.date, size := m.row.size, bodyText := m.row.bodyText
      rawHeaders := m.row.rawHeaders }).1
  ((c.removeUidMapping m.imapUid source).assignUidIfMissing target m.asterId).1

/-- The MOVE branch of `handle_copy_move` for the messages whose UID meets `hit`. -/
def moveMessages (now source target : String) (hit : Nat → Bool) (c : Cache) : Cache :=
  if target = source then c
  else
    ((c.listCachedMessageMeta source).filter fun m => hit m.imapUid).foldl
      (moveMessage now source target) c

/-- The move of `Email/set`. -/
def emailSetMove (c : Cache) (id target : String) : Cache :=
  match c.messageCache.get? id with
  | none => c
  | some r =>
      if target = r.folder then c
      else ((c.setFolderIfChanged id target).assignUidIfMissing target id).1

/-! ## A plain message -/

/-- Headers as `commit_prepared` writes them for a message without a Message-ID. -/
def plainHeaders : HeadersJson where
  hasMessageId _ := false
  objectKeys _ := some ["is_html", "message_id", "attachment_count", "addresses_v"]

/-- A decrypted message with this body. -/
def plainMessage (bodyText : Option String) : PreparedMessage where
  subject := some "s"
  sender := none
  recipients := none
  date := none
  bodyText := bodyText
  rawHeadersMeta := "\x7b\"is_html\":false,\"message_id\":null,\"attachment_count\":0,\"addresses_v\":1\x7d"
  bareMessageId := none

/-- Envelopes that all hold that message. -/
def plainEnvelopes (bodyText : Option String) : Envelopes where
  opened _ := some (plainMessage bodyText)
  withAddresses _ _ := none

/-- An item without flags. -/
def plainItem (id : String) : MailItem := ⟨id, none, none, none, false⟩

end AsterBridge.Sync
