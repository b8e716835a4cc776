import AsterBridge.Error
import AsterBridge.Lib.Json
import AsterBridge.Lib.Table
import AsterBridge.Lib.Tasks
import AsterBridge.Lib.Unicode

/-!
# The contacts store

`ContactsStore` of `dav/store.rs`: calls of `list`, `get`, `put` and `delete` that run at the
same time on one cached listing, one write lock and the contacts of the server, which other
clients change as well. A step of a call goes from one `await` to the next; at each of them the
caller may go away, which ends the call and drops its guard.

The changes of the server are kept in the order in which they took effect, each with its author,
so that what a call has seen can be compared with what its request met.
-/

set_option autoImplicit false

namespace AsterBridge.Dav.Store

open AsterBridge.Lib AsterBridge.Lib.Tasks AsterBridge.Lib.Text AsterBridge.Lib.Unicode

/-! ## Contacts -/

/-- `ContactRecord` without its id. -/
structure ContactBody where
  encryptedData : String
  dataNonce : String
  integrityHash : Option String
  dataVersion : Option Int
  updatedAt : String

/-- `ContactRecord` -/
structure ContactRecord extends ContactBody where
  id : String

/-- The contacts that the server holds, by their ids. -/
abbrev Contacts := Table String ContactBody

/-- `ContactListResponse` -/
structure Page where
  items : List ContactRecord
  nextCursor : Option String
  hasMore : Bool

/-- What `encrypt_data` returns. -/
structure SealedContact where
  encryptedData : String
  dataNonce : String
  integrityHash : String

/-- `ContactEntry` -/
structure ContactEntry where
  uid : String
  contactId : String
  etag : String
  vcard : String

/-- What the store calls: the keys, the vCard functions, the digest of an etag, and how the server
cuts its listing into pages. -/
structure StoreCrates where
  verifyIntegrityHash : String → String → Int → String → Bool
  decryptData : String → String → Except BridgeError Json
  /-- the nonce is drawn for each call -/
  encryptData : String → Json → Except BridgeError SealedContact
  contactToVcard : String → Json → String → String
  vcardToContact : String → Json
  digest : String → String
  listContacts : Contacts → Option String → Page
  /-- the error of a request for a contact that is not there -/
  missing : BridgeError

/-- `PAGE_SIZE` is part of `listContacts`; this is `MAX_PAGES`. -/
def maxPages : Nat := 200

/-- `CACHE_TTL`, in milliseconds. -/
def cacheTtl : Nat := 5000

/-- `DAV_UID_FIELD` -/
def davUidField : String := "dav_uid"

/-- `MAX_VCARD_BYTES` -/
def maxVcardBytes : Nat := 512 * 1024

/-- `is_safe_uid`; a text that starts with a dot is never `..`. -/
def isSafeUid (uid : String) : Bool :=
  uid ≠ "" && uid.utf8ByteSize ≤ 255 &&
    uid.toList.all (fun c => c.isAlphanum || "-_.@+~".toList.contains c) &&
    uid.toList.head? ≠ some '.'

/-- `Preconditions` -/
structure Preconditions where
  ifMatch : Option (List String)
  ifNoneMatch : Option (List String)

/-- `is_empty` -/
def Preconditions.isEmpty (p : Preconditions) : Bool := p.ifMatch.isNone && p.ifNoneMatch.isNone

/-- The closure of `hold_for`. -/
def tagsMatch (current : Option ContactEntry) (tags : List String) : Bool :=
  match current with
  | none => false
  | some e => tags.any fun t => t == "*" || t == e.etag

/-- `hold_for` -/
def Preconditions.holdFor (p : Preconditions) (current : Option ContactEntry) : Bool :=
  if p.ifMatch.any fun tags => !tagsMatch current tags then false
  else !p.ifNoneMatch.any (tagsMatch current)

/-- `DecodeError` -/
inductive DecodeError where
  | integrity
  | decrypt (e : BridgeError)

/-- `entry_etag` -/
def entryEtag (x : StoreCrates) (vcard : String) : String := "\"" ++ x.digest vcard ++ "\""

/-- The uid that `decode_record` reads: the field where it is a usable name, else the id. -/
def uidOf (payload : Json) (id : String) : String :=
  (((payload.get? davUidField).bind Json.asStr).map fun v => String.ofList (trim v.toList)).filter
    (fun v => v ≠ "" && isSafeUid v) |>.getD id

/-- Whether the first check of `decode_record` fails. -/
def integrityFails (x : StoreCrates) (record : ContactRecord) : Bool :=
  match record.integrityHash, record.dataVersion with
  | some hash, some version =>
      !x.verifyIntegrityHash record.encryptedData record.dataNonce version hash
  | _, _ => false

/-- `decode_record` -/
def decodeRecord (x : StoreCrates) (record : ContactRecord) : Except DecodeError ContactEntry :=
  if integrityFails x record then .error .integrity
  else
    match x.decryptData record.encryptedData record.dataNonce with
    | .error e => .error (.decrypt e)
    | .ok payload =>
        let uid := uidOf payload record.id
        let vcard := x.contactToVcard uid payload record.updatedAt
        .ok ⟨uid, record.id, entryEtag x vcard, vcard⟩

/-- The entries of one page: what cannot be read is skipped. -/
def readable (x : StoreCrates) (items : List ContactRecord) : List ContactEntry :=
  items.filterMap fun record => (decodeRecord x record).toOption

/-- The `retain` at the end of `fetch_entries`: the first entry of each uid. -/
def firstOfEach (seen : List String) : List ContactEntry → List ContactEntry
  | [] => []
  | e :: rest =>
      if seen.contains e.uid then firstOfEach seen rest
      else e :: firstOfEach (e.uid :: seen) rest

/-! ## Calls -/

/-- A call of the store. -/
inductive Call where
  | list
  | get (uid : String)
  | put (uid vcard : String) (preconditions : Preconditions)
  | delete (uid : String) (preconditions : Preconditions)

/-- What a call ends with; `gone` where its caller went away. -/
inductive Answer where
  | entries (entries : List ContactEntry)
  | entry (entry : Option ContactEntry)
  | stored (entry : ContactEntry) (created : Bool)
  | deleted
  | notFound
  | preconditionFailed
  | failed (e : BridgeError)
  | gone

/-- Where a call stands: before which `await`, with the variables that are still read. -/
inductive Phase where
  /-- at `write_lock` -/
  | queued
  /-- in `list`, before the cached listing is looked at -/
  | looking
  /-- in the loop of `fetch_entries` -/
  | paging (left : Nat) (cursor : Option String) (entries : List ContactEntry)
  | refilling (entries : List ContactEntry)
  /-- in `current`, at `fetch_entry` -/
  | confirming (contactId : String)
  /-- in `current`, at `remember` or `forget` -/
  | noting (fresh : Option ContactEntry)
  /-- at the request that changes the server -/
  | sending (existing : Option ContactEntry)
  | readingBack (contactId : String) (created : Bool)
  | remembering (entry : ContactEntry) (created : Bool)
  | invalidating
  | forgetting
  | answered (answer : Answer)

/-- A call in progress; `guard` is set while its guard of `write_lock` is alive. -/
structure Task where
  call : Call
  phase : Phase
  guard : Bool

/-- `CachedListing` -/
structure CachedListing where
  entries : List ContactEntry
  fetchedAt : Nat

/-- One change of the server's contacts; without an author it was another client's. -/
structure Change where
  author : Option Nat
  contacts : Contacts

structure Shared where
  /-- the contacts before the first change -/
  initial : Contacts
  changes : List Change
  cache : Option CachedListing
  writeLock : Option Nat
  /-- `Instant::now`, in milliseconds -/
  clock : Nat

/-- The contacts after the first `m` changes. -/
def Shared.contactsAt (s : Shared) : Nat → Contacts
  | 0 => s.initial
  | m + 1 => ((s.changes[m]?).map Change.contacts).getD s.initial

/-- The contacts now. -/
def Shared.contacts (s : Shared) : Contacts := s.contactsAt s.changes.length

/-- The answer of the server to `get_contact`. -/
def recordOf (contacts : Contacts) (id : String) : Option ContactRecord :=
  (contacts.get? id).map fun body => { body with id }

/-- What the environment does in a step of a call. -/
structure Choice where
  /-- the caller goes away -/
  dropped : Bool
  /-- the operation of the step fails -/
  error : Option BridgeError
  /-- the server acts although its response does not arrive -/
  takesEffect : Bool
  newId : String
  updatedAt : String
  nonce : String

/-! ## Steps -/

/-- `remember` -/
def remember (cache : Option CachedListing) (entry : ContactEntry) : Option CachedListing :=
  cache.map fun cached =>
    { cached with
      entries := cached.entries.filter
        (fun e => e.uid ≠ entry.uid && e.contactId ≠ entry.contactId) ++ [entry] }

/-- `forget` -/
def forget (cache : Option CachedListing) (uid : String) : Option CachedListing :=
  cache.map fun cached => { cached with entries := cached.entries.filter fun e => e.uid ≠ uid }

/-- The call returns, and its guard is dropped. -/
def finish (s : Shared) (t : Task) (answer : Answer) : Shared × Task :=
  ({ s with writeLock := if t.guard then none else s.writeLock },
    { t with phase := .answered answer, guard := false })

/-- `put` and `delete` behind `current`. -/
def decideOn (s : Shared) (t : Task) (existing : Option ContactEntry) : Shared × Task :=
  match t.call with
  | .put _ _ p =>
      if !p.holdFor existing then finish s t .preconditionFailed
      else (s, { t with phase := .sending existing })
  | .delete _ p =>
      match existing with
      | none => finish s t .notFound
      | some entry =>
          if !p.holdFor (some entry) then finish s t .preconditionFailed
          else (s, { t with phase := .sending (some entry) })
  | .list => (s, t)
  | .get _ => (s, t)

/-- `current` behind `get`: without preconditions the listing is enough. -/
def current (s : Shared) (t : Task) (p : Preconditions) (cached : Option ContactEntry) :
    Shared × Task :=
  if p.isEmpty then decideOn s t cached
  else
    match cached with
    | none => decideOn s t none
    | some entry => (s, { t with phase := .confirming entry.contactId })

/-- The entry of a uid in a listing. -/
def entryOf (entries : List ContactEntry) (uid : String) : Option ContactEntry :=
  entries.find? fun e => e.uid == uid

/-- What a call does with the listing. -/
def listed (s : Shared) (t : Task) (entries : List ContactEntry) : Shared × Task :=
  match t.call with
  | .list => finish s t (.entries entries)
  | .get uid => finish s t (.entry (entryOf entries uid))
  | .put uid _ p => current s t p (entryOf entries uid)
  | .delete uid p => current s t p (entryOf entries uid)

/-- `list`: the cached listing where it is young enough. -/
def look (s : Shared) (t : Task) : Shared × Task :=
  match s.cache with
  | some cached =>
      if s.clock - cached.fetchedAt < cacheTtl then listed s t cached.entries
      else (s, { t with phase := .paging maxPages none [] })
  | none => (s, { t with phase := .paging maxPages none [] })

/-- One round of the loop of `fetch_entries`. -/
def pageStep (x : StoreCrates) (s : Shared) (t : Task) (left : Nat) (cursor : Option String)
    (entries : List ContactEntry) : Shared × Task :=
  let page := x.listContacts s.contacts cursor
  let entries := entries ++ readable x page.items
  match page.nextCursor, page.hasMore with
  | some next, true =>
      if left ≤ 1 then (s, { t with phase := .refilling (firstOfEach [] entries) })
      else (s, { t with phase := .paging (left - 1) (some next) entries })
  | _, _ => (s, { t with phase := .refilling (firstOfEach [] entries) })

/-- `fetch_entry`: the entry of a contact, where it is there. -/
def fetchEntry (x : StoreCrates) (s : Shared) (contactId : String) :
    Except BridgeError (Option ContactEntry) :=
  match recordOf s.contacts contactId with
  | none => .ok none
  | some record =>
      match decodeRecord x record with
      | .ok entry => .ok (some entry)
      | .error .integrity =>
          .error (.crypto ("contact " ++ contactId ++ " failed its integrity check"))
      | .error (.decrypt e) => .error e

/-- A request of the `i`-th call that would leave the contacts `after`, or is refused where there
are none; the response may be lost on either side. -/
def request (x : StoreCrates) (i : Nat) (c : Choice) (s : Shared) (t : Task)
    (after : Option Contacts) (next : Phase) : Shared × Task :=
  match after with
  | none => finish s t (if c.dropped then .gone else .failed (c.error.getD x.missing))
  | some contacts =>
      if (c.dropped || c.error.isSome) && !c.takesEffect then
        finish s t (if c.dropped then .gone else .failed (c.error.getD x.missing))
      else
        let s' := { s with changes := s.changes ++ [⟨some i, contacts⟩] }
        if c.dropped then finish s' t .gone
        else
          match c.error with
          | some e => finish s' t (.failed e)
          | none => (s', { t with phase := next })

/-- `update_contact` on the server. -/
def updateContact (contacts : Contacts) (id : String) (sealed : SealedContact)
    (updatedAt : String) : Option Contacts :=
  if contacts.contains id then
    some (contacts.updateWhere (fun k _ => k == id) fun _ body =>
      { body with
        encryptedData := sealed.encryptedData
        dataNonce := sealed.dataNonce
        integrityHash := some sealed.integrityHash
        updatedAt })
  else none

/-- `CONTACT_DATA_VERSION` -/
def contactDataVersion : Int := 2

/-- `create_contact` on the server, which gives an id that is not taken. -/
def createContact (contacts : Contacts) (id : String) (sealed : SealedContact)
    (updatedAt : String) : Option Contacts :=
  if contacts.contains id then none
  else
    some (contacts.insertIgnore id
      { encryptedData := sealed.encryptedData
        dataNonce := sealed.dataNonce
        integrityHash := some sealed.integrityHash
        dataVersion := some contactDataVersion
        updatedAt })

/-- `delete_contact` on the server. -/
def deleteContact (contacts : Contacts) (id : String) : Option Contacts :=
  if contacts.contains id then some (contacts.deleteWhere fun k _ => k == id) else none

/-- The payload that `put` seals. -/
def putPayload (x : StoreCrates) (uid vcard : String) : Json :=
  (x.vcardToContact vcard).set davUidField (.string uid)

/-- The request of `put` or `delete`. -/
def send (x : StoreCrates) (i : Nat) (c : Choice) (s : Shared) (t : Task)
    (existing : Option ContactEntry) : Shared × Task :=
  match t.call, existing with
  | .put uid vcard _, existing =>
      match x.encryptData c.nonce (putPayload x uid vcard) with
      | .error e => finish s t (if c.dropped then .gone else .failed e)
      | .ok sealed =>
          match existing with
          | some entry =>
              request x i c s t (updateContact s.contacts entry.contactId sealed c.updatedAt)
                (.readingBack entry.contactId false)
          | none =>
              request x i c s t (createContact s.contacts c.newId sealed c.updatedAt)
                (.readingBack c.newId true)
  | .delete _ _, some entry =>
      request x i c s t (deleteContact s.contacts entry.contactId) .forgetting
  | _, _ => (s, t)

/-- The uid of a call that writes. -/
def Call.uid : Call → String
  | .list => ""
  | .get uid => uid
  | .put uid _ _ => uid
  | .delete uid _ => uid

/-- A step in which the caller stays; an error ends the calls of the server. -/
def advance (x : StoreCrates) (i : Nat) (c : Choice) (s : Shared) (t : Task) : Shared × Task :=
  match t.phase, c.error with
  | .queued, _ =>
      match s.writeLock with
      | none => ({ s with writeLock := some i }, { t with phase := .looking, guard := true })
      | some _ => (s, t)
  | .looking, _ => look s t
  | .paging _ _ _, some e => finish s t (.failed e)
  | .paging left cursor entries, none => pageStep x s t left cursor entries
  | .refilling entries, _ => listed { s with cache := some ⟨entries, s.clock⟩ } t entries
  | .confirming _, some e => finish s t (.failed e)
  | .confirming contactId, none =>
      match fetchEntry x s contactId with
      | .error e => finish s t (.failed e)
      | .ok fresh => (s, { t with phase := .noting fresh })
  | .noting fresh, _ =>
      let cache := match fresh with
        | some entry => remember s.cache entry
        | none => forget s.cache t.call.uid
      decideOn { s with cache } t (fresh.filter fun e => e.uid == t.call.uid)
  | .sending existing, _ => send x i c s t existing
  | .readingBack _ _, some e => finish s t (.failed e)
  | .readingBack contactId created, none =>
      match fetchEntry x s contactId with
      | .error e => finish s t (.failed e)
      | .ok (some entry) => (s, { t with phase := .remembering entry created })
      | .ok none => (s, { t with phase := .invalidating })
  | .remembering entry created, _ =>
      finish { s with cache := remember s.cache entry } t (.stored entry created)
  | .invalidating, _ =>
      finish { s with cache := none } t (.failed (.api "contact was not stored"))
  | .forgetting, _ => finish { s with cache := forget s.cache t.call.uid } t .deleted
  | .answered _, _ => (s, t)

/-- A step of the `i`-th call. A request that is under way when the caller goes away may still
take effect. -/
def run (x : StoreCrates) (i : Nat) (c : Choice) (s : Shared) (t : Task) : Shared × Task :=
  match t.phase with
  | .answered _ => (s, t)
  | .sending existing => send x i c s t existing
  | _ => if c.dropped then finish s t .gone else advance x i c s t

/-- The call begins; `put` refuses what it cannot store before it takes the lock. -/
def begin (call : Call) : Task where
  call := call
  phase :=
    match call with
    | .list => .looking
    | .get _ => .looking
    | .put uid vcard _ =>
        if vcard.utf8ByteSize > maxVcardBytes then .answered (.failed (.api "vcard too large"))
        else if !isSafeUid uid then .answered (.failed (.api "unsupported contact name"))
        else .queued
    | .delete _ _ => .queued
  guard := false

/-- What happens outside the store. -/
inductive Outside where
  | tick (milliseconds : Nat)
  /-- another client changes the contacts -/
  | edit (contacts : Contacts)

def outside (e : Outside) (s : Shared) : Shared :=
  match e with
  | .tick milliseconds => { s with clock := s.clock + milliseconds }
  | .edit contacts => { s with changes := s.changes ++ [⟨none, contacts⟩] }

/-- The calls of the store, at the same time. -/
def program (x : StoreCrates) : Program Shared Task Call Choice Outside where
  initial := begin
  run := run x
  outside := outside

end AsterBridge.Dav.Store
