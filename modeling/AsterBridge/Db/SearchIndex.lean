import AsterBridge.Db.Cache
import AsterBridge.Lib.Index
import AsterBridge.Lib.Runs

/-!
# The full-text index

`db/mod.rs`: `message_fts` and the triggers on `message_cache` that write it, `prepare_schema` with
the migration of older triggers, and the functions that write or clear the two tables. A statement
is atomic, and so is a transaction; the program may die between any two.

`message_cache` has no `INTEGER PRIMARY KEY`: `VACUUM` and `sqlcipher_export` may give its rows new
rowids. The rowids of `message_fts` are kept. A table `message_fts` that does not exist yet is one
without rows.
-/

set_option autoImplicit false

namespace AsterBridge.Db.SearchIndex

open AsterBridge.Lib.Index AsterBridge.Lib.Runs

/-! ## The two tables -/

/-- A row of `message_cache` with its rowid. -/
structure CacheRow where
  rowid : Nat
  asterId : String
  row : MessageRow
deriving DecidableEq

/-- A row of `message_fts`, without its rowid. -/
structure Doc where
  asterId : String
  subject : String
  sender : String
  recipients : String
  bodyText : String
deriving DecidableEq

/-- The values that the triggers insert: `COALESCE(.., '')` of the text columns. -/
def CacheRow.doc (r : CacheRow) : Doc where
  asterId := r.asterId
  subject := r.row.subject.getD ""
  sender := r.row.sender.getD ""
  recipients := r.row.recipients.getD ""
  bodyText := r.row.bodyText.getD ""

/-- The columns that `message_cache_au` compares. -/
def texts (r : MessageRow) : Option String × Option String × Option String × Option String :=
  (r.subject, r.sender, r.recipients, r.bodyText)

/-- The rows of `message_fts`. -/
abbrev Fts := List (Nat × Doc)

/-- The rows of `message_cache`. -/
structure CacheTable where
  rows : List CacheRow
  rowids : (rows.map CacheRow.rowid).Nodup
  asterIds : (rows.map CacheRow.asterId).Nodup

/-- The rowid that SQLite gives a new row. -/
def newRowid (rowids : List Nat) : Nat := rowids.foldr max 0 + 1

theorem lt_newRowid {rowids : List Nat} {n : Nat} (h : n ∈ rowids) : n < newRowid rowids := by
  induction rowids with
  | nil => exact absurd h List.not_mem_nil
  | cons m rowids ih =>
      unfold newRowid at ih ⊢
      rw [List.foldr_cons]
      rcases List.mem_cons.1 h with rfl | hmem
      · omega
      · have := ih hmem
        omega

theorem newRowid_notMem (rowids : List Nat) : newRowid rowids ∉ rowids :=
  fun h => Nat.lt_irrefl _ (lt_newRowid h)

namespace CacheTable

/-- A new table. -/
def empty : CacheTable := ⟨[], List.nodup_nil, List.nodup_nil⟩

/-- The row that an `INSERT` makes. -/
def newRow (t : CacheTable) (asterId : String) (row : MessageRow) : CacheRow :=
  ⟨newRowid (t.rows.map CacheRow.rowid), asterId, row⟩

/-- `INSERT` of a message that is not there. -/
def insert (t : CacheTable) (asterId : String) (row : MessageRow)
    (h : asterId ∉ t.rows.map CacheRow.asterId) : CacheTable where
  rows := t.rows ++ [t.newRow asterId row]
  rowids := by
    rw [List.map_append, List.map_singleton, ← List.concat_eq_append]
    exact t.rowids.concat (newRowid_notMem _)
  asterIds := by
    rw [List.map_append, List.map_singleton, ← List.concat_eq_append]
    exact t.asterIds.concat h

/-- A statement that changes rows in place or removes them. -/
def change (t : CacheTable) (next : CacheRow → Option CacheRow)
    (h : ∀ r r', next r = some r' → r'.rowid = r.rowid ∧ r'.asterId = r.asterId) :
    CacheTable where
  rows := t.rows.filterMap next
  rowids := t.rowids.sublist (keys_filterMap (fun r r' hr => (h r r' hr).1) t.rows)
  asterIds := t.asterIds.sublist (keys_filterMap (fun r r' hr => (h r r' hr).2) t.rows)

/-- A copy of the table with other rowids. -/
def renumber (t : CacheTable) (f : Nat ↪ Nat) : CacheTable where
  rows := t.rows.map fun r => { r with rowid := f r.rowid }
  rowids := by
    rw [List.map_map, show CacheRow.rowid ∘ (fun r : CacheRow => { r with rowid := f r.rowid }) =
      f ∘ CacheRow.rowid from rfl, ← List.map_map]
    exact t.rowids.map f.injective
  asterIds := by
    rw [List.map_map]
    exact t.asterIds

end CacheTable

/-! ## Triggers -/

/-- The bodies of the triggers: those of older versions find a document by its aster id. -/
inductive Version where
  | legacy
  | current
deriving DecidableEq

/-- The database: the two tables and the triggers `message_cache_ai`, `_ad` and `_au`. -/
structure Store where
  cache : CacheTable
  fts : Fts
  ai : Option Version
  ad : Option Version
  au : Option Version

/-- `message_cache_ai`; the insert fails if the rowid is taken. -/
def fireInsert (ai : Option Version) (new : CacheRow) (fts : Fts) : Option Fts :=
  match ai with
  | none => some fts
  | some .legacy => some ((newRowid (fts.map Prod.fst), new.doc) :: fts)
  | some .current =>
      if new.rowid ∈ fts.map Prod.fst then none else some ((new.rowid, new.doc) :: fts)

/-- `message_cache_ad` -/
def fireDelete (ad : Option Version) (old : CacheRow) (fts : Fts) : Fts :=
  match ad with
  | none => fts
  | some .legacy => fts.filter fun e => e.2.asterId ≠ old.asterId
  | some .current => erase fts old.rowid

/-- `message_cache_au`, where `columns` says that the statement sets a text column. -/
def fireUpdate (au : Option Version) (columns : Bool) (old new : CacheRow) (fts : Fts) : Fts :=
  match au with
  | none => fts
  | some .legacy =>
      let rest := fts.filter fun e => e.2.asterId ≠ old.asterId
      (newRowid (rest.map Prod.fst), new.doc) :: rest
  | some .current =>
      if columns = true ∧ texts old.row ≠ texts new.row then
        (new.rowid, new.doc) :: erase fts old.rowid
      else fts

/-! ## Statements -/

/-- The `SET` list of an `UPDATE`. -/
structure Assignment where
  /-- it names one of `subject`, `sender`, `recipients` and `body_text` -/
  columns : Bool
  apply : MessageRow → MessageRow
  keeps : columns = false → ∀ r, texts (apply r) = texts r

/-- A statement on the two tables. -/
inductive Statement where
  /-- `INSERT OR IGNORE INTO message_cache` -/
  | insertIgnore (asterId : String) (row : MessageRow)
  /-- `UPDATE message_cache SET .. WHERE ..` -/
  | update (p : String → MessageRow → Bool) (a : Assignment)
  /-- `DELETE FROM message_cache WHERE ..` -/
  | delete (p : String → MessageRow → Bool)
  /-- `DELETE FROM message_fts` -/
  | deleteFts

/-- What an `UPDATE` makes of a row. -/
def updated (p : String → MessageRow → Bool) (a : Assignment) (r : CacheRow) : CacheRow :=
  if p r.asterId r.row then { r with row := a.apply r.row } else r

/-- What an `UPDATE` does to the index at a row. -/
def updateFts (au : Option Version) (p : String → MessageRow → Bool) (a : Assignment)
    (r : CacheRow) (fts : Fts) : Fts :=
  if p r.asterId r.row then fireUpdate au a.columns r (updated p a r) fts else fts

/-- What a `DELETE` leaves of a row. -/
def kept (p : String → MessageRow → Bool) (r : CacheRow) : Option CacheRow :=
  if p r.asterId r.row then none else some r

/-- What a `DELETE` does to the index at a row. -/
def deleteDoc (ad : Option Version) (p : String → MessageRow → Bool) (r : CacheRow) (fts : Fts) :
    Fts :=
  if p r.asterId r.row then fireDelete ad r fts else fts

theorem updated_same (p : String → MessageRow → Bool) (a : Assignment) (r r' : CacheRow)
    (h : some (updated p a r) = some r') : r'.rowid = r.rowid ∧ r'.asterId = r.asterId := by
  cases h
  unfold updated
  split <;> exact ⟨rfl, rfl⟩

theorem kept_same (p : String → MessageRow → Bool) (r r' : CacheRow) (h : kept p r = some r') :
    r'.rowid = r.rowid ∧ r'.asterId = r.asterId := by
  unfold kept at h
  split at h
  · exact nomatch h
  · cases h
    exact ⟨rfl, rfl⟩

namespace Store

/-- A statement, if it does not fail. -/
def exec (db : Store) : Statement → Option Store
  | .insertIgnore asterId row =>
      if h : asterId ∈ db.cache.rows.map CacheRow.asterId then some db
      else
        (fireInsert db.ai (db.cache.newRow asterId row) db.fts).map fun fts =>
          { db with cache := db.cache.insert asterId row h, fts := fts }
  | .update p a =>
      some
        { db with
          cache := db.cache.change (fun r => some (updated p a r)) (updated_same p a)
          fts := db.cache.rows.foldl (fun fts r => updateFts db.au p a r fts) db.fts }
  | .delete p =>
      some
        { db with
          cache := db.cache.change (kept p) (kept_same p)
          fts := db.cache.rows.foldl (fun fts r => deleteDoc db.ad p r fts) db.fts }
  | .deleteFts => some { db with fts := [] }

/-- Statements one after another; the first that fails ends them. -/
def execAll (db : Store) : List Statement → Store
  | [] => db
  | s :: rest =>
      match db.exec s with
      | some db' => db'.execAll rest
      | none => db

end Store

/-! ## Functions -/

/-- The message of an aster id. -/
def only (asterId : String) : String → MessageRow → Bool := fun k _ => k = asterId

/-- Every message. -/
def every : String → MessageRow → Bool := fun _ _ => true

/-- `SET` of text columns. -/
def setTexts (f : MessageRow → MessageRow) : Assignment := ⟨true, f, nofun⟩

/-- The functions of the database that write the two tables. -/
inductive Op where
  | upsertCachedMessage (now asterId folder : String) (v : MessageValues)
  | updateCachedBody (asterId body : String) (rawHeaders : Option String)
  | updateCachedSubject (asterId subject : String)
  /-- an `UPDATE` of other columns: the folder, flags, date, headers, thread and attachments -/
  | updateOthers (p : String → MessageRow → Bool) (f : MessageRow → MessageRow)
      (h : ∀ r, texts (f r) = texts r)
  /-- `delete_message_by_aster_id`, `delete_message_by_uid` and the rows that
  `trim_folders_to_newest` deletes -/
  | deleteMessages (p : String → MessageRow → Bool)
  | repairCache
  | clearUserData
  | clearAllUserData

/-- `single_line` with `trim` and `strip_c0_controls` of `update_cached_subject`. -/
def singleLine (subject : String) : String :=
  stripC0Controls
    (String.ofList (subject.toList.map fun c =>
      if c = '\r' ∨ c = '\n' ∨ c = '\t' then ' ' else c)).trimAscii.toString

/-- The statements of `upsert_cached_message_on` when the row is there. -/
def upsertUpdates (asterId folder : String) (v : MessageValues) : List Statement :=
  let subject := v.subject.map stripC0Controls
  let sender := v.sender.map stripC0Controls
  let recipients := v.recipients.map stripC0Controls
  let bodyText := v.bodyText.map stripC0Controls
  let size := (bodyText.map fun b => (crlfNormalizedLen b : Int)).getD v.size
  .update (only asterId) (setTexts fun r =>
      { r with
        folder, subject, sender, recipients, date := v.date, size
        rawHeaders := v.rawHeaders }) ::
    if bodyText.isSome then
      [.update (only asterId) (setTexts fun r => { r with bodyCached := true, bodyText })]
    else []

/-- The row that `upsert_cached_message_on` inserts. -/
def upsertRow (now folder : String) (v : MessageValues) : MessageRow :=
  let bodyText := v.bodyText.map stripC0Controls
  { folder
    subject := v.subject.map stripC0Controls
    sender := v.sender.map stripC0Controls
    recipients := v.recipients.map stripC0Controls
    date := v.date
    flags := 0
    size := (bodyText.map fun b => (crlfNormalizedLen b : Int)).getD v.size
    bodyCached := bodyText.isSome
    bodyText
    rawHeaders := v.rawHeaders
    createdAt := now
    threadId := none
    messageId := none }

namespace Op

/-- The statements of a function, in order. -/
def statements (db : Store) : Op → List Statement
  | .upsertCachedMessage now asterId folder v =>
      .insertIgnore asterId (upsertRow now folder v) ::
        if asterId ∈ db.cache.rows.map CacheRow.asterId then upsertUpdates asterId folder v else []
  | .updateCachedBody asterId body rawHeaders =>
      let body := stripC0Controls body
      [.update (only asterId) (setTexts fun r =>
        { r with
          bodyCached := true
          bodyText := some body
          size := crlfNormalizedLen body
          rawHeaders := rawHeaders.or r.rawHeaders })]
  | .updateCachedSubject asterId subject =>
      [.update (only asterId) (setTexts fun r => { r with subject := some (singleLine subject) })]
  | .updateOthers p f h => [.update p ⟨false, f, fun _ => h⟩]
  | .deleteMessages p => [.delete p]
  | .repairCache | .clearUserData | .clearAllUserData => [.delete every, .deleteFts]

/-- The function runs in a transaction. -/
def isTransaction : Op → Bool
  | .clearAllUserData => true
  | _ => false

end Op

/-! ## Opening and running -/

/-- Where the program is. The stages are those of `prepare_schema` that touch the two tables or the
triggers. -/
inductive Stage where
  | closed
  /-- before `attachments_state` of messages with attachments is set -/
  | marking
  /-- before the triggers of an older version are dropped -/
  | migrating
  | creatingAi
  | creatingAd
  | creatingAu
  | backfilling
  /-- before the sizes of an older version are repaired -/
  | sizing
  | ready
deriving DecidableEq

/-- The database and the program; `sized` is `user_version`. -/
structure State where
  db : Store
  stage : Stage
  sized : Bool

/-- What happens. -/
inductive Event where
  | start
  /-- the next statement of `prepare_schema`; `marked` are the messages whose headers announce
  attachments -/
  | next (marked : String → MessageRow → Bool)
  | crash
  /-- a function runs, and dies if fewer than all of its statements are done -/
  | call (op : Op) (done : Nat)
  /-- `VACUUM`, in `reclaim_free_space` and after `clear_all_user_data` -/
  | vacuum (f : Nat ↪ Nat)
  /-- `sqlcipher_export` of a plaintext database -/
  | copy (f : Nat ↪ Nat)

/-- `SET attachments_state = 1` -/
def markAttachments : Assignment := ⟨false, id, fun _ _ => rfl⟩

/-- `SET size = ..`: the length once every line break is CRLF. -/
def repairSize : Assignment where
  columns := false
  apply := fun r =>
    match r.bodyText with
    | some b => { r with size := crlfNormalizedLen b }
    | none => r
  keeps := by
    intro _ r
    cases hbody : r.bodyText with
    | none => rfl
    | some b => simp only [texts, hbody]

/-- The messages whose body has a line break. -/
def hasLineBreak : String → MessageRow → Bool := fun _ r =>
  match r.bodyText with
  | some b => b.toList.any fun c => c = '\n' || c = '\r'
  | none => false

/-- The tables with new rowids in `message_cache`. -/
def Store.renumber (db : Store) (f : Nat ↪ Nat) : Store := { db with cache := db.cache.renumber f }

/-- The next statement of `prepare_schema`. -/
def prepare (marked : String → MessageRow → Bool) (s : State) : State :=
  match s.stage with
  | .closed | .ready => s
  | .marking =>
      { s with db := s.db.execAll [.update marked markAttachments], stage := .migrating }
  | .migrating =>
      if s.db.au = some .legacy then
        { s with
          db := { s.db with fts := [], ai := none, ad := none, au := none }
          stage := .creatingAi }
      else { s with stage := .creatingAi }
  | .creatingAi =>
      { s with db := { s.db with ai := s.db.ai.or (some .current) }, stage := .creatingAd }
  | .creatingAd =>
      { s with db := { s.db with ad := s.db.ad.or (some .current) }, stage := .creatingAu }
  | .creatingAu =>
      { s with db := { s.db with au := s.db.au.or (some .current) }, stage := .backfilling }
  | .backfilling =>
      if s.db.fts.length = 0 ∧ 0 < s.db.cache.rows.length then
        { s with
          db := { s.db with fts := entries CacheRow.rowid CacheRow.doc s.db.cache.rows }
          stage := .sizing }
      else { s with stage := .sizing }
  | .sizing =>
      if s.sized then { s with stage := .ready }
      else
        { s with
          db := s.db.execAll [.update hasLineBreak repairSize]
          sized := true
          stage := .ready }

/-- A function runs on the open database. -/
def runOp (op : Op) (done : Nat) (s : State) : State :=
  let statements := op.statements s.db
  if op.isTransaction ∧ done < statements.length then { s with stage := .closed }
  else
    { s with
      db := s.db.execAll (statements.take done)
      stage := if done < statements.length then .closed else .ready }

/-- One event. -/
def step (s : State) : Event → State
  | .start => if s.stage = .closed then { s with stage := .marking } else s
  | .next marked => prepare marked s
  | .crash => { s with stage := .closed }
  | .call op done => if s.stage = .ready then runOp op done s else s
  | .vacuum f => if s.stage = .ready then { s with db := s.db.renumber f } else s
  | .copy f => if s.stage = .closed then { s with db := s.db.renumber f } else s

/-- A database of a version without the index, or, with the rows `some fts` in it, of one with the
older triggers. -/
def State.older (cache : CacheTable) (fts : Option Fts) : State where
  db :=
    { cache := cache
      fts := fts.getD []
      ai := fts.map fun _ => .legacy
      ad := fts.map fun _ => .legacy
      au := fts.map fun _ => .legacy }
  stage := .closed
  sized := false

/-! ## The index mirrors the cache -/

/-- `message_fts` has one row for each row of `message_cache`, under its rowid and with its values,
and no other. -/
def Mirror (db : Store) : Prop :=
  db.fts.Perm (entries CacheRow.rowid CacheRow.doc db.cache.rows)

/-- The triggers are those of this version. -/
def Current (db : Store) : Prop :=
  db.ai = some .current ∧ db.ad = some .current ∧ db.au = some .current

theorem Mirror.rowids {db : Store} (h : Mirror db) :
    (db.fts.map Prod.fst).Perm (db.cache.rows.map CacheRow.rowid) := by
  have hmap := h.map Prod.fst
  rwa [keys_entries] at hmap

/-- Values that agree on the compared columns give one document. -/
theorem doc_eq_of_texts {r r' : CacheRow} (hid : r'.asterId = r.asterId)
    (htexts : texts r'.row = texts r.row) : r'.doc = r.doc := by
  simp only [texts, Prod.mk.injEq] at htexts
  obtain ⟨hsubject, hsender, hrecipients, hbody⟩ := htexts
  rw [CacheRow.doc, CacheRow.doc, hid, hsubject, hsender, hrecipients, hbody]

/-- An `UPDATE` changes the document of each row it changes. -/
theorem follows_update (p : String → MessageRow → Bool) (a : Assignment) :
    Follows CacheRow.rowid CacheRow.doc (updateFts (some .current) p a)
      (fun r => some (updated p a r)) := by
  refine ⟨fun r r' h => (updated_same p a r r' h).1, ?_⟩
  intro r ix xs ys hix hnodup
  have hrowid : (updated p a r).rowid = r.rowid := (updated_same p a r _ rfl).1
  have hid : (updated p a r).asterId = r.asterId := (updated_same p a r _ rfl).2
  -- the row keeps its entry, or gets a new one
  have hsame : (updated p a r).doc = r.doc →
      ix.Perm (xs ++ (entries CacheRow.rowid CacheRow.doc (some (updated p a r)).toList ++ ys)) := by
    intro hdoc
    rw [Option.toList_some, entries, List.map_singleton, hrowid, hdoc]
    exact hix
  have hnew : (((updated p a r).rowid, (updated p a r).doc) :: erase ix r.rowid).Perm
      (xs ++ (entries CacheRow.rowid CacheRow.doc (some (updated p a r)).toList ++ ys)) := by
    have herase := erase_middle hix hnodup
    refine (herase.cons _).trans ?_
    exact List.perm_middle.symm
  unfold updateFts
  split
  next hp =>
    dsimp only [fireUpdate]
    split
    next => exact hnew
    next hquiet =>
      refine hsame (doc_eq_of_texts hid ?_)
      cases hcolumns : a.columns with
      | true =>
          by_contra hne
          exact hquiet ⟨hcolumns, fun heq => hne heq.symm⟩
      | false =>
          rw [updated, if_pos hp]
          exact a.keeps hcolumns r.row
  next hp =>
    refine hsame ?_
    rw [updated, if_neg hp]

/-- A `DELETE` removes the document of each row it removes. -/
theorem follows_delete (p : String → MessageRow → Bool) :
    Follows CacheRow.rowid CacheRow.doc (deleteDoc (some .current) p) (kept p) := by
  refine ⟨fun r r' h => (kept_same p r r' h).1, ?_⟩
  intro r ix xs ys hix hnodup
  unfold deleteDoc kept
  split
  next => exact erase_middle hix hnodup
  next => exact hix

/-- No statement on `message_cache` fails, and each keeps the index in step with it. -/
theorem Mirror.exec {db : Store} (h : Mirror db) (hcurrent : Current db) {s : Statement}
    (hs : s ≠ .deleteFts) :
    ∃ db', db.exec s = some db' ∧ Mirror db' ∧ Current db' := by
  obtain ⟨hai, had, hau⟩ := hcurrent
  cases s with
  | insertIgnore asterId row =>
      unfold Store.exec
      dsimp only
      split
      next => exact ⟨db, rfl, h, hai, had, hau⟩
      next hnot =>
        have hfree : (db.cache.newRow asterId row).rowid ∉ db.fts.map Prod.fst := by
          rw [h.rowids.mem_iff]
          exact newRowid_notMem _
        have hfire : fireInsert db.ai (db.cache.newRow asterId row) db.fts =
            some (((db.cache.newRow asterId row).rowid, (db.cache.newRow asterId row).doc) ::
              db.fts) := by
          rw [hai]
          exact if_neg hfree
        rw [hfire]
        refine ⟨_, rfl, ?_, hai, had, hau⟩
        change (_ :: db.fts).Perm (entries _ _ (db.cache.rows ++ [_]))
        rw [entries_append]
        exact (h.cons _).trans (List.perm_append_singleton _ _).symm
  | update p a =>
      refine ⟨_, rfl, ?_, hai, had, hau⟩
      change (db.cache.rows.foldl (fun fts r => updateFts db.au p a r fts) db.fts).Perm _
      rw [hau]
      exact (follows_update p a).foldl h db.cache.rowids
  | delete p =>
      refine ⟨_, rfl, ?_, hai, had, hau⟩
      change (db.cache.rows.foldl (fun fts r => deleteDoc db.ad p r fts) db.fts).Perm _
      rw [had]
      exact (follows_delete p).foldl h db.cache.rowids
  | deleteFts => exact absurd rfl hs

/-- A `DELETE` of all messages leaves none. -/
theorem rows_delete_every {db db' : Store} (h : db.exec (.delete every) = some db') :
    db'.cache.rows = [] := by
  cases h
  exact List.filterMap_eq_nil_iff.2 fun r _ => rfl

/-- A `DELETE` of the index of an empty cache. -/
theorem Mirror.deleteFts {db : Store} (hcurrent : Current db) (hempty : db.cache.rows = []) :
    Mirror { db with fts := [] } ∧ Current { db with fts := [] } := by
  refine ⟨?_, hcurrent⟩
  rw [Mirror, hempty]
  exact List.Perm.refl _

/-- Statements on `message_cache` keep the index in step with it. -/
theorem Mirror.execAll {db : Store} (h : Mirror db) (hcurrent : Current db)
    {statements : List Statement} (hs : .deleteFts ∉ statements) :
    Mirror (db.execAll statements) ∧ Current (db.execAll statements) := by
  induction statements generalizing db with
  | nil => exact ⟨h, hcurrent⟩
  | cons s rest ih =>
      have hne : s ≠ .deleteFts := fun heq => hs (heq ▸ List.mem_cons_self)
      obtain ⟨db', hexec, hmirror, hcurrent'⟩ := h.exec hcurrent hne
      rw [Store.execAll, hexec]
      exact ih hmirror hcurrent' fun hmem => hs (List.mem_cons_of_mem _ hmem)

/-- The statements that clear both tables, up to any of them. -/
theorem Mirror.clear {db : Store} (h : Mirror db) (hcurrent : Current db) (done : Nat) :
    Mirror (db.execAll ([.delete every, .deleteFts].take done)) ∧
      Current (db.execAll ([.delete every, .deleteFts].take done)) := by
  match done with
  | 0 => exact ⟨h, hcurrent⟩
  | 1 =>
      have hs : Statement.deleteFts ∉ [.delete every] := by simp
      exact h.execAll hcurrent hs
  | done + 2 =>
      obtain ⟨db', hexec, -, hcurrent'⟩ := h.exec hcurrent (s := .delete every) nofun
      have hall : db.execAll ([.delete every, .deleteFts].take (done + 2)) =
          { db' with fts := [] } := by
        rw [List.take_of_length_le (by simp), Store.execAll, hexec]
        rfl
      rw [hall]
      exact Mirror.deleteFts hcurrent' (rows_delete_every hexec)

/-- No function breaks the mirror, also when it dies. -/
theorem Mirror.runOp {db : Store} (h : Mirror db) (hcurrent : Current db) (op : Op) (done : Nat) :
    Mirror (db.execAll ((op.statements db).take done)) ∧
      Current (db.execAll ((op.statements db).take done)) := by
  have hplain : .deleteFts ∉ op.statements db →
      Mirror (db.execAll ((op.statements db).take done)) ∧
        Current (db.execAll ((op.statements db).take done)) :=
    fun hnot => h.execAll hcurrent fun hmem => hnot (List.mem_of_mem_take hmem)
  cases op with
  | upsertCachedMessage now asterId folder v =>
      refine hplain ?_
      unfold Op.statements
      dsimp only
      split
      · unfold upsertUpdates
        dsimp only
        split <;> simp
      · simp
  | updateCachedBody asterId body rawHeaders => exact hplain (by simp [Op.statements])
  | updateCachedSubject asterId subject => exact hplain (by simp [Op.statements])
  | updateOthers p f hf => exact hplain (by simp [Op.statements])
  | deleteMessages p => exact hplain (by simp [Op.statements])
  | repairCache => exact h.clear hcurrent done
  | clearUserData => exact h.clear hcurrent done
  | clearAllUserData => exact h.clear hcurrent done

/-! ## Preparing the schema -/

/-- No trigger is of an older version. -/
def NoLegacy (db : Store) : Prop :=
  db.ai ≠ some .legacy ∧ db.ad ≠ some .legacy ∧ db.au ≠ some .legacy

/-- The index is in step with the cache, or is still to be filled. -/
def Pending (db : Store) : Prop := Mirror db ∨ db.fts = []

/-- An `UPDATE` of other columns does not fire the triggers of this version. -/
theorem exec_quiet {db : Store} (hlegacy : db.au ≠ some .legacy)
    (p : String → MessageRow → Bool) {a : Assignment} (ha : a.columns = false) :
    (db.execAll [.update p a]).fts = db.fts ∧
      entries CacheRow.rowid CacheRow.doc (db.execAll [.update p a]).cache.rows =
        entries CacheRow.rowid CacheRow.doc db.cache.rows := by
  have hact : ∀ r fts, updateFts db.au p a r fts = fts := by
    intro r fts
    unfold updateFts
    split
    next =>
      cases hau : db.au with
      | none => rfl
      | some v =>
          cases v with
          | legacy => exact absurd hau hlegacy
          | current =>
              exact if_neg fun hcolumns => Bool.false_ne_true (ha.symm.trans hcolumns.1)
    next => rfl
  refine ⟨?_, ?_⟩
  · change db.cache.rows.foldl (fun fts r => updateFts db.au p a r fts) db.fts = db.fts
    have hfold : ∀ rows : List CacheRow,
        rows.foldl (fun fts r => updateFts db.au p a r fts) db.fts = db.fts := by
      intro rows
      induction rows with
      | nil => rfl
      | cons r rows ih => rw [List.foldl_cons, hact, ih]
    exact hfold db.cache.rows
  · change entries _ _ (db.cache.rows.filterMap fun r => some (updated p a r)) = _
    rw [List.filterMap_eq_map', entries, entries, List.map_map]
    refine List.map_congr_left fun r _ => ?_
    have hsame := updated_same p a r _ rfl
    have htexts : texts (updated p a r).row = texts r.row := by
      unfold updated
      split
      · exact a.keeps ha r.row
      · rfl
    exact Prod.ext hsame.1 (doc_eq_of_texts hsame.2 htexts)

/-- What holds at each stage. -/
def Known (s : State) : Prop :=
  match s.stage with
  | .closed | .marking | .migrating =>
      s.db.au = some .legacy ∨ NoLegacy s.db ∧ Pending s.db
  | .creatingAi => NoLegacy s.db ∧ Pending s.db
  | .creatingAd => s.db.ai = some .current ∧ NoLegacy s.db ∧ Pending s.db
  | .creatingAu =>
      s.db.ai = some .current ∧ s.db.ad = some .current ∧ NoLegacy s.db ∧ Pending s.db
  | .backfilling => Current s.db ∧ Pending s.db
  | .sizing | .ready => Current s.db ∧ Mirror s.db

theorem Current.noLegacy {db : Store} (h : Current db) : NoLegacy db := by
  obtain ⟨hai, had, hau⟩ := h
  rw [NoLegacy, hai, had, hau]
  exact ⟨nofun, nofun, nofun⟩

/-- A trigger that is created if it is not there. -/
theorem or_current {v : Option Version} (h : v ≠ some .legacy) :
    v.or (some .current) = some .current := by
  cases v with
  | none => rfl
  | some v =>
      cases v with
      | legacy => exact absurd rfl h
      | current => rfl

/-- A program that dies leaves a database that `prepare_schema` can bring in order. -/
theorem Known.closed {s : State} (h : Known s) :
    s.db.au = some .legacy ∨ NoLegacy s.db ∧ Pending s.db := by
  unfold Known at h
  cases hstage : s.stage with
  | closed => rw [hstage] at h; exact h
  | marking => rw [hstage] at h; exact h
  | migrating => rw [hstage] at h; exact h
  | creatingAi => rw [hstage] at h; exact Or.inr h
  | creatingAd => rw [hstage] at h; exact Or.inr h.2
  | creatingAu => rw [hstage] at h; exact Or.inr h.2.2
  | backfilling => rw [hstage] at h; exact Or.inr ⟨h.1.noLegacy, h.2⟩
  | sizing => rw [hstage] at h; exact Or.inr ⟨h.1.noLegacy, Or.inl h.2⟩
  | ready => rw [hstage] at h; exact Or.inr ⟨h.1.noLegacy, Or.inl h.2⟩

theorem Known.prepare {s : State} (h : Known s) (marked : String → MessageRow → Bool) :
    Known (prepare marked s) := by
  unfold Known at h
  unfold SearchIndex.prepare
  cases hstage : s.stage with
  | closed => unfold Known; rw [hstage] at h ⊢; exact h
  | ready => unfold Known; rw [hstage] at h ⊢; exact h
  | marking =>
      rw [hstage] at h
      rcases h with hlegacy | ⟨hnone, hpending⟩
      · exact Or.inl hlegacy
      · obtain ⟨hfts, hrows⟩ := exec_quiet hnone.2.2 marked (a := markAttachments) rfl
        refine Or.inr ⟨hnone, ?_⟩
        unfold Pending Mirror
        rw [hfts, hrows]
        exact hpending
  | migrating =>
      rw [hstage] at h
      dsimp only
      split
      next => exact ⟨⟨nofun, nofun, nofun⟩, Or.inr rfl⟩
      next hnot => exact h.resolve_left hnot
  | creatingAi =>
      rw [hstage] at h
      exact ⟨or_current h.1.1, ⟨by rw [or_current h.1.1]; exact nofun, h.1.2⟩, h.2⟩
  | creatingAd =>
      rw [hstage] at h
      obtain ⟨hai, hnone, hpending⟩ := h
      refine ⟨hai, or_current hnone.2.1, ⟨hnone.1, ?_, hnone.2.2⟩, hpending⟩
      rw [or_current hnone.2.1]
      exact nofun
  | creatingAu =>
      rw [hstage] at h
      obtain ⟨hai, had, hnone, hpending⟩ := h
      exact ⟨⟨hai, had, or_current hnone.2.2⟩, hpending⟩
  | backfilling =>
      rw [hstage] at h
      obtain ⟨hcurrent, hpending⟩ := h
      dsimp only
      split
      next => exact ⟨hcurrent, List.Perm.refl _⟩
      next hfilled =>
        refine ⟨hcurrent, ?_⟩
        rcases hpending with hmirror | hempty
        · exact hmirror
        · -- nothing is to be filled in
          have hrows : s.db.cache.rows = [] := by
            rw [hempty] at hfilled
            refine List.length_eq_zero_iff.1 (Nat.eq_zero_of_not_pos fun hpos => ?_)
            exact hfilled ⟨rfl, hpos⟩
          rw [Mirror, hempty, hrows]
          exact List.Perm.refl _
  | sizing =>
      rw [hstage] at h
      dsimp only
      split
      next => exact h
      next =>
        have hs : Statement.deleteFts ∉ [.update hasLineBreak repairSize] := by simp
        have hafter := h.2.execAll h.1 hs
        exact ⟨hafter.2, hafter.1⟩

/-- Where `VACUUM` or `sqlcipher_export` give rows new rowids, the index is still to be filled. -/
def Kept (s : State) (e : Event) : Prop :=
  match e with
  | .vacuum f | .copy f =>
      (∀ r ∈ s.db.cache.rows, f r.rowid = r.rowid) ∨ s.db.au = some .legacy ∨ s.db.fts = []
  | _ => True

theorem renumber_kept {db : Store} {f : Nat ↪ Nat}
    (h : ∀ r ∈ db.cache.rows, f r.rowid = r.rowid) :
    (db.renumber f).cache.rows = db.cache.rows := by
  change db.cache.rows.map (fun r => { r with rowid := f r.rowid }) = _
  refine (List.map_congr_left fun r hr => ?_).trans (List.map_id _)
  rw [h r hr]
  rfl

theorem Mirror.renumber {db : Store} (hmirror : Mirror db) {f : Nat ↪ Nat}
    (h : (∀ r ∈ db.cache.rows, f r.rowid = r.rowid) ∨ db.fts = []) : Mirror (db.renumber f) := by
  rcases h with hkept | hempty
  · rw [Mirror, renumber_kept hkept]
    exact hmirror
  · have hrows : db.cache.rows = [] := by
      rw [Mirror, hempty] at hmirror
      have hnil := hmirror.symm.eq_nil
      exact List.map_eq_nil_iff.1 hnil
    have hrows' : (db.renumber f).cache.rows = [] := by
      change db.cache.rows.map _ = []
      rw [hrows]
      rfl
    rw [Mirror, hrows']
    change db.fts.Perm []
    rw [hempty]

theorem Known.step {s : State} (h : Known s) {e : Event} (hkept : Kept s e) : Known (step s e) := by
  cases e with
  | start =>
      unfold SearchIndex.step
      dsimp only
      split
      next => exact h.closed
      next => exact h
  | next marked => exact h.prepare marked
  | crash => exact h.closed
  | call op done =>
      unfold SearchIndex.step
      dsimp only
      split
      next hready =>
        have hopen : Current s.db ∧ Mirror s.db := by
          unfold Known at h
          rw [hready] at h
          exact h
        obtain ⟨hmirror, hcurrent⟩ := hopen.2.runOp hopen.1 op done
        unfold SearchIndex.runOp
        dsimp only
        split
        next => exact h.closed
        next =>
          by_cases hdone : done < (op.statements s.db).length
          · rw [if_pos hdone]
            exact Or.inr ⟨hcurrent.noLegacy, Or.inl hmirror⟩
          · rw [if_neg hdone]
            exact ⟨hcurrent, hmirror⟩
      next => exact h
  | vacuum f =>
      unfold SearchIndex.step
      dsimp only
      split
      next hready =>
        have hopen : Current s.db ∧ Mirror s.db := by
          unfold Known at h
          rw [hready] at h
          exact h
        have hcases : (∀ r ∈ s.db.cache.rows, f r.rowid = r.rowid) ∨ s.db.fts = [] := by
          rcases hkept with hsame | hlegacy | hempty
          · exact Or.inl hsame
          · exact absurd hlegacy hopen.1.noLegacy.2.2
          · exact Or.inr hempty
        unfold Known
        rw [hready]
        exact ⟨hopen.1, hopen.2.renumber hcases⟩
      next => exact h
  | copy f =>
      unfold SearchIndex.step
      dsimp only
      split
      next hclosed =>
        unfold Known
        rw [hclosed]
        by_cases hlegacy : s.db.au = some .legacy
        · exact Or.inl hlegacy
        · obtain ⟨hnone, hpending⟩ := h.closed.resolve_left hlegacy
          refine Or.inr ⟨hnone, ?_⟩
          have hcases := hkept.imp_right fun hother => hother.resolve_left hlegacy
          rcases hpending with hmirror | hempty
          · exact Or.inl (hmirror.renumber hcases)
          · exact Or.inr hempty
      next => exact h

/-! ## Every run -/

theorem known_older (cache : CacheTable) (fts : Option Fts) : Known (State.older cache fts) := by
  cases fts with
  | none => exact Or.inr ⟨⟨nofun, nofun, nofun⟩, Or.inr rfl⟩
  | some rows => exact Or.inl rfl

theorem Known.mirror {s : State} (h : Known s) (hready : s.stage = .ready) :
    Current s.db ∧ Mirror s.db := by
  unfold Known at h
  rw [hready] at h
  exact h

/-- An event at the open database leaves the index in step with the cache. -/
theorem Mirror.step {s : State} (hready : s.stage = .ready) (hcurrent : Current s.db)
    (hmirror : Mirror s.db) {e : Event} (hkept : Kept s e) : Mirror (step s e).db := by
  have hknown : Known s := by
    unfold Known
    rw [hready]
    exact ⟨hcurrent, hmirror⟩
  cases e with
  | start =>
      unfold SearchIndex.step
      dsimp only
      rw [if_neg (by rw [hready]; exact nofun)]
      exact hmirror
  | next marked =>
      unfold SearchIndex.step SearchIndex.prepare
      rw [hready]
      exact hmirror
  | crash => exact hmirror
  | call op done =>
      unfold SearchIndex.step SearchIndex.runOp
      dsimp only
      rw [if_pos hready]
      split
      · exact hmirror
      · exact (hmirror.runOp hcurrent op done).1
  | vacuum f =>
      -- the database stays open
      have hafter := hknown.step (e := .vacuum f) hkept
      refine (hafter.mirror ?_).2
      unfold SearchIndex.step
      dsimp only
      rw [if_pos hready]
      exact hready
  | copy f =>
      unfold SearchIndex.step
      dsimp only
      rw [if_neg (by rw [hready]; exact nofun)]
      exact hmirror

/-- All of `prepare_schema`. -/
def opening : List Event := .start :: List.replicate 8 (.next fun _ _ => false)

/-- A message arrives. -/
def arrives (asterId : String) : Event :=
  .call (.upsertCachedMessage "" asterId "inbox" ⟨none, none, none, none, 0, none, none⟩) 9

/-- A message is deleted. -/
def leaves (asterId : String) : Event := .call (.deleteMessages (only asterId)) 9

/-- A message of an older database. -/
def oldRow (rowid : Nat) (asterId : String) : CacheRow :=
  ⟨rowid, asterId, upsertRow "" "inbox" ⟨none, none, none, none, 0, none, none⟩⟩

/-- Two messages, of which the older triggers have indexed one under another rowid. -/
def oldCache : CacheTable where
  rows := [oldRow 3 "a", oldRow 5 "b"]
  rowids := by decide
  asterIds := by decide

/-- The program dies after it has dropped the older triggers, starts again, and goes on. -/
def migration : List Event :=
  .start :: List.replicate 3 (.next fun _ _ => false) ++ .crash :: opening ++
    [arrives "c", leaves "a", .vacuum (Function.Embedding.refl Nat)]

/-- Three messages arrive, the first is deleted, `VACUUM` numbers the others from 1, and the last is
deleted. -/
def renumbered : List Event :=
  opening ++
    [arrives "a", arrives "b", arrives "c", leaves "a",
      .vacuum ((Equiv.swap 1 2).trans (Equiv.swap 2 3)).toEmbedding, leaves "c"]

end AsterBridge.Db.SearchIndex
