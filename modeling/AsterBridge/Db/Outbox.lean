import AsterBridge.Lib.Table
import Mathlib.Data.List.Sort

/-!
# The outbox table

Table `outbox` of the bridge database with the functions that write it. A row is never
deleted here: only signing out empties the table. The bounds of the integer columns are
left out.
-/

set_option autoImplicit false

namespace AsterBridge.Db

open AsterBridge.Lib

/-- The `CHECK` on the column `status`. -/
inductive OutboxStatus where
  | pending
  | sending
  | sent
  | failed
deriving DecidableEq

/-- `OutboxRow` without its id. -/
structure OutboxRow where
  rawMime : List UInt8
  envelopeFrom : String
  envelopeTo : String
  queuedAt : Int
  attempts : Int
  lastAttemptAt : Option Int
  lastError : Option String
  status : OutboxStatus
deriving DecidableEq

/-- Table `outbox` by id, and the largest id that `AUTOINCREMENT` has given. -/
structure Outbox where
  table : Table Int OutboxRow
  sequence : Int

namespace Outbox

/-- The id of the next row. -/
def nextId (o : Outbox) : Int := ((o.table.rows.map Prod.fst).foldl max o.sequence) + 1

/-- The row that `outbox_insert` stores. -/
def newRow (rawMime : List UInt8) (envelopeFrom envelopeTo : String) (now : Int) : OutboxRow :=
  ⟨rawMime, envelopeFrom, envelopeTo, now, 0, none, none, .pending⟩

/-- `outbox_insert` -/
def insert (o : Outbox) (row : OutboxRow) : Outbox × Int :=
  (⟨o.table.insertIgnore o.nextId row, o.nextId⟩, o.nextId)

/-- `outbox_get` -/
def get (o : Outbox) (id : Int) : Option OutboxRow := o.table.get? id

/-- `outbox_list_pending` -/
def listPending (o : Outbox) : List (Int × OutboxRow) :=
  (o.table.rows.filter fun e => e.2.status ≠ .sent).insertionSort
    fun a b => a.2.queuedAt ≤ b.2.queuedAt

/-- `UPDATE outbox SET .. WHERE id = ..` -/
def updateRow (o : Outbox) (id : Int) (f : OutboxRow → OutboxRow) : Outbox :=
  { o with table := o.table.updateWhere (fun k _ => k = id) fun _ r => f r }

/-- The condition of `outbox_mark_sending`. -/
def OutboxRow.claimable (r : OutboxRow) : Bool := r.status = .pending || r.status = .failed

/-- `outbox_mark_sending`: the number of rows that it updates comes with the table. -/
def markSending (o : Outbox) (id now : Int) : Outbox × Nat :=
  match (o.get id).filter OutboxRow.claimable with
  | some _ =>
      (o.updateRow id fun r => { r with status := .sending, lastAttemptAt := some now }, 1)
  | none => (o, 0)

/-- `outbox_reset_stale_sending` -/
def resetStaleSending (o : Outbox) (olderThanSecs now : Int) : Outbox :=
  let stale (r : OutboxRow) : Bool :=
    r.status = .sending && r.lastAttemptAt.getD r.queuedAt ≤ now - olderThanSecs
  { o with table := o.table.updateWhere (fun _ => stale) fun _ r => { r with status := .pending } }

/-- `outbox_mark_sent` -/
def markSent (o : Outbox) (id now : Int) : Outbox :=
  o.updateRow id fun r => { r with status := .sent, lastAttemptAt := some now, lastError := none }

/-- The first 512 characters of an error. -/
def truncated (err : String) : String := String.ofList (err.toList.take 512)

/-- `outbox_mark_failed` -/
def markFailed (o : Outbox) (id : Int) (err : String) (now : Int) : Outbox :=
  o.updateRow id fun r =>
    { r with status := .failed, lastAttemptAt := some now, lastError := some (truncated err) }

/-- `outbox_bump_attempt` -/
def bumpAttempt (o : Outbox) (id : Int) (err : String) (now : Int) : Outbox :=
  o.updateRow id fun r =>
    { r with
      attempts := r.attempts + 1
      lastAttemptAt := some now
      lastError := some (truncated err)
      status := .pending }

/-! ## Lookup -/

variable (o : Outbox)

/-- The next id is above every id of the table. -/
theorem lt_nextId {id : Int} (h : id ∈ o.table.rows.map Prod.fst) : id < o.nextId := by
  have hfold : ∀ (l : List Int) (m : Int), m ≤ l.foldl max m ∧ ∀ i ∈ l, i ≤ l.foldl max m := by
    intro l
    induction l with
    | nil => exact fun m => ⟨le_rfl, fun i hi => absurd hi List.not_mem_nil⟩
    | cons a l ih =>
        intro m
        obtain ⟨hle, hmem⟩ := ih (max m a)
        refine ⟨(le_max_left m a).trans hle, fun i hi => ?_⟩
        rcases List.mem_cons.1 hi with rfl | hi
        · exact (le_max_right m i).trans hle
        · exact hmem i hi
  exact Int.lt_add_one_of_le ((hfold _ o.sequence).2 id h)

theorem get_nextId : o.get o.nextId = none := by
  rw [get, Table.get?_eq_none_iff]
  intro r hr
  exact absurd (o.lt_nextId (List.mem_map_of_mem hr)) (lt_irrefl _)

theorem get_insert (row : OutboxRow) (id : Int) :
    (o.insert row).1.get id = if id = o.nextId then some row else o.get id := by
  rw [get, insert, Table.get?_insertIgnore, ← get, o.get_nextId]
  rfl

theorem get_updateRow (id : Int) (f : OutboxRow → OutboxRow) (k : Int) :
    (o.updateRow id f).get k = (o.get k).map fun r => if k = id then f r else r := by
  simp [get, updateRow, Table.get?_updateWhere]

theorem get_resetStaleSending (olderThanSecs now k : Int) :
    (o.resetStaleSending olderThanSecs now).get k = (o.get k).map fun r =>
      if r.status = .sending && r.lastAttemptAt.getD r.queuedAt ≤ now - olderThanSecs then
        { r with status := .pending } else r := by
  simp [get, resetStaleSending, Table.get?_updateWhere]

theorem mem_listPending {e : Int × OutboxRow} (h : e ∈ o.listPending) : o.get e.1 = some e.2 := by
  rw [listPending, List.mem_insertionSort] at h
  exact Table.get?_eq_some_iff.2 (List.mem_filter.1 h).1

end Outbox

end AsterBridge.Db
