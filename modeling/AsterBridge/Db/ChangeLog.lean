import AsterBridge.Lib.Runs
import AsterBridge.Lib.Table

/-!
# The JMAP state counters and change log

Tables `jmap_state` and `jmap_change_log` of the bridge database with the
functions that read and write them. `jmap_change_log` is the list of its rows in
`seq` order: `seq` is an AUTOINCREMENT key, so a new row goes to the end, and
the newest rows are the last ones. The column `ts` is read by no query and is
left out.

A batch (`jmapRecordBatch`) increments the counter of its type once and stores
all of its rows with the new value; afterwards the log keeps its newest 10000
rows over all types. `jmapChangeLogAppend` stores one row with a given state
and keeps the newest 10000 rows of that type.
-/

set_option autoImplicit false

namespace AsterBridge.Db

open AsterBridge.Lib

/-- The `op` column. -/
inductive ChangeOp where
  | created
  | updated
  | destroyed
  deriving DecidableEq, Repr

/-- The CHECK constraint on `op`: any other text makes the INSERT fail. -/
def ChangeOp.ofText : String → Option ChangeOp
  | "created" => some .created
  | "updated" => some .updated
  | "destroyed" => some .destroyed
  | _ => none

/-- A row of `jmap_change_log`. -/
structure ChangeRow where
  type : String
  state : Int
  objectId : String
  op : ChangeOp
  deriving DecidableEq, Repr

/-- Tables `jmap_state` (type to counter) and `jmap_change_log`. -/
structure ChangeLog where
  jmapState : Table String Int
  rows : List ChangeRow

/-- `LIMIT 10000` of both DELETE statements. -/
def changeLogCap : Nat := 10000

/-- Rows of one page of `jmap_changes_since`. -/
def changesPageRows : Nat := 500

namespace ChangeLog

/-- The log of a new database. -/
def empty : ChangeLog := ⟨Table.empty, []⟩

/-- `jmap_state_get`: the counter of a type, `0` without a row. -/
def jmapStateGet (db : ChangeLog) (ty : String) : Int := (db.jmapState.get? ty).getD 0

/-- `jmap_state_bump`: insert the counter with value 1 or increment it. -/
def jmapStateBump (db : ChangeLog) (ty : String) : ChangeLog :=
  { db with jmapState := db.jmapState.upsert ty (db.jmapStateGet ty + 1) }

/-- Split off the first `n` rows that meet `p`: the removed rows and the rest. -/
def removeOldest (p : ChangeRow → Bool) : Nat → List ChangeRow → List ChangeRow × List ChangeRow
  | 0, rows => ([], rows)
  | _ + 1, [] => ([], [])
  | n + 1, r :: rs =>
      if p r then
        let (gone, kept) := removeOldest p n rs
        (r :: gone, kept)
      else
        let (gone, kept) := removeOldest p (n + 1) rs
        (gone, r :: kept)

/-- The DELETE of rows that meet `p` and are not among the newest 10000 such
rows: the removed rows and the rest. -/
def trim (p : ChangeRow → Bool) (rows : List ChangeRow) : List ChangeRow × List ChangeRow :=
  removeOldest p (rows.countP p - changeLogCap) rows

/-- `jmap_record_batch`. -/
def jmapRecordBatch (db : ChangeLog) (ty : String) (ids : List String) (op : ChangeOp) :
    ChangeLog :=
  let db' := db.jmapStateBump ty
  let new := ids.map fun id => ⟨ty, db'.jmapStateGet ty, id, op⟩
  { db' with rows := (trim (fun _ => true) (db.rows ++ new)).2 }

/-- `jmap_record_sync_batch`. -/
def jmapRecordSyncBatch (db : ChangeLog) (ty : String) (ids : List String) : ChangeLog :=
  db.jmapRecordBatch ty ids .created

/-- `jmap_record_updated_batch`. -/
def jmapRecordUpdatedBatch (db : ChangeLog) (ty : String) (ids : List String) : ChangeLog :=
  db.jmapRecordBatch ty ids .updated

/-- `jmap_record_destroyed_batch`. -/
def jmapRecordDestroyedBatch (db : ChangeLog) (ty : String) (ids : List String) : ChangeLog :=
  db.jmapRecordBatch ty ids .destroyed

/-- `jmap_change_log_append`; `none` when the row violates the CHECK. -/
def jmapChangeLogAppend (db : ChangeLog) (ty : String) (state : Int) (objectId op : String) :
    Option ChangeLog :=
  (ChangeOp.ofText op).map fun op =>
    { db with
      rows := (trim (fun r => r.type = ty) (db.rows ++ [⟨ty, state, objectId, op⟩])).2 }

/-- `SELECT MIN(state) FROM jmap_change_log WHERE type = ty`. -/
def oldestState (db : ChangeLog) (ty : String) : Option Int :=
  ((db.rows.filter fun r => r.type = ty).map (·.state)).min?

/-- Rows of type `ty` with a state greater than `since`, in `seq` order. -/
def rowsAfter (db : ChangeLog) (ty : String) (since : Int) : List ChangeRow :=
  db.rows.filter fun r => r.type = ty ∧ since < r.state

/-- Result of `jmap_changes_since`. -/
structure Changes where
  entries : List (String × ChangeOp)
  newState : Int
  tooOld : Bool
  hasMore : Bool
  deriving DecidableEq, Repr

/-- `too_old`: changes before the oldest logged state of the type may be missing. -/
def tooOld (db : ChangeLog) (ty : String) (since : Int) : Bool :=
  match db.oldestState ty with
  | some o => decide (since < o - 1)
  | none => false

/-- `jmap_changes_since`. -/
def jmapChangesSince (db : ChangeLog) (ty : String) (since : Int) : Changes :=
  if db.tooOld ty since then ⟨[], since, true, false⟩
  else
    let fetched := (db.rowsAfter ty since).take (changesPageRows + 1)
    let rows := fetched.take changesPageRows
    { entries := rows.map fun r => (r.objectId, r.op)
      newState := (rows.getLast?.map (·.state)).getD since
      tooOld := false
      hasMore := decide (changesPageRows < fetched.length) }

/-! ## Lookup and trimming -/

@[simp] theorem jmapStateGet_jmapStateBump (db : ChangeLog) (ty ty' : String) :
    (db.jmapStateBump ty).jmapStateGet ty' =
      if ty' = ty then db.jmapStateGet ty + 1 else db.jmapStateGet ty' := by
  by_cases h : ty' = ty <;> simp [jmapStateBump, jmapStateGet, h]

/-- A batch increments the counter of its type. -/
theorem jmapStateGet_jmapRecordBatch (db : ChangeLog) (ty : String) (ids : List String)
    (op : ChangeOp) (ty' : String) :
    (db.jmapRecordBatch ty ids op).jmapStateGet ty' =
      if ty' = ty then db.jmapStateGet ty + 1 else db.jmapStateGet ty' := by
  rw [← jmapStateGet_jmapStateBump]
  unfold jmapRecordBatch jmapStateGet
  rfl

@[simp] theorem rows_jmapStateBump (db : ChangeLog) (ty : String) :
    (db.jmapStateBump ty).rows = db.rows := rfl

/-- The removed rows and the rest are the rows before the removal. -/
theorem mem_removeOldest (p : ChangeRow → Bool) (n : Nat) (rows : List ChangeRow)
    (r : ChangeRow) :
    r ∈ rows ↔ r ∈ (removeOldest p n rows).1 ∨ r ∈ (removeOldest p n rows).2 := by
  fun_induction removeOldest p n rows with
  | case1 rows => simp
  | case2 n => simp
  | case3 n a as hp gone kept heq ih =>
      rw [heq] at ih
      simp only [List.mem_cons, ih, or_assoc]
  | case4 n a as hp gone kept heq ih =>
      rw [heq] at ih
      simp only [List.mem_cons, ih]
      tauto

theorem mem_trim (p : ChangeRow → Bool) (rows : List ChangeRow) (r : ChangeRow) :
    r ∈ rows ↔ r ∈ (trim p rows).1 ∨ r ∈ (trim p rows).2 :=
  mem_removeOldest p _ rows r

/-- Only rows that meet `p` are removed. -/
theorem of_mem_removeOldest (p : ChangeRow → Bool) (n : Nat) (rows : List ChangeRow)
    (r : ChangeRow) (h : r ∈ (removeOldest p n rows).1) : p r = true := by
  fun_induction removeOldest p n rows with
  | case1 rows => simp at h
  | case2 n => simp at h
  | case3 n a as hp gone kept heq ih =>
      rw [heq] at ih
      rcases List.mem_cons.1 h with rfl | h
      · exact hp
      · exact ih h
  | case4 n a as hp gone kept heq ih =>
      rw [heq] at ih
      exact ih h

/-- Below the cap nothing is removed. -/
theorem trim_of_countP_le (p : ChangeRow → Bool) (rows : List ChangeRow)
    (h : rows.countP p ≤ changeLogCap) : trim p rows = ([], rows) := by
  rw [trim, Nat.sub_eq_zero_of_le h]
  cases rows <;> rfl

theorem trim_of_length_le (p : ChangeRow → Bool) (rows : List ChangeRow)
    (h : rows.length ≤ changeLogCap) : trim p rows = ([], rows) :=
  trim_of_countP_le p rows (List.countP_le_length.trans h)

/-- A batch keeps the newest rows. -/
theorem trim_all (rows : List ChangeRow) :
    (trim (fun _ => true) rows).2 = rows.drop (rows.length - changeLogCap) := by
  have hdrop : ∀ n (rows : List ChangeRow), (removeOldest (fun _ => true) n rows).2 = rows.drop n := by
    intro n
    induction n with
    | zero => exact fun _ => by rw [removeOldest, List.drop_zero]
    | succ n ih =>
        intro rows
        cases rows with
        | nil => rfl
        | cons r rs => exact ih rs
  rw [trim, hdrop, List.countP_true]

/-- The rows that a batch removes come before the rows that it keeps. -/
theorem trim_all_append (rows : List ChangeRow) :
    (trim (fun _ => true) rows).1 ++ (trim (fun _ => true) rows).2 = rows := by
  have hsplit : ∀ n (rows : List ChangeRow),
      (removeOldest (fun _ => true) n rows).1 ++ (removeOldest (fun _ => true) n rows).2 = rows := by
    intro n
    induction n with
    | zero => exact fun _ => by rw [removeOldest, List.nil_append]
    | succ n ih =>
        intro rows
        cases rows with
        | nil => rfl
        | cons r rs => exact congrArg (r :: ·) (ih rs)
  exact hsplit _ rows

theorem rows_jmapRecordBatch (db : ChangeLog) (ty : String) (ids : List String) (op : ChangeOp) :
    ∃ new, new = ids.map (fun id => ⟨ty, (db.jmapRecordBatch ty ids op).jmapStateGet ty, id, op⟩) ∧
      (db.jmapRecordBatch ty ids op).rows =
        (db.rows ++ new).drop ((db.rows ++ new).length - changeLogCap) := by
  refine ⟨_, rfl, ?_⟩
  rw [jmapStateGet_jmapRecordBatch, if_pos rfl]
  unfold jmapRecordBatch
  dsimp only
  rw [trim_all, jmapStateGet_jmapStateBump, if_pos rfl]

@[simp] theorem mem_rowsAfter {db : ChangeLog} {ty : String} {since : Int} {r : ChangeRow} :
    r ∈ db.rowsAfter ty since ↔ r ∈ db.rows ∧ r.type = ty ∧ since < r.state := by
  simp [rowsAfter]

@[simp] theorem tooOld_jmapChangesSince (db : ChangeLog) (ty : String) (since : Int) :
    (db.jmapChangesSince ty since).tooOld = db.tooOld ty since := by
  cases h : db.tooOld ty since <;> simp [jmapChangesSince, h]

/-- A page that is not too old: the first 500 rows after the cursor. -/
theorem jmapChangesSince_of_current {db : ChangeLog} {ty : String} {since : Int}
    (h : db.tooOld ty since = false) :
    db.jmapChangesSince ty since =
      { entries := ((db.rowsAfter ty since).take changesPageRows).map fun r => (r.objectId, r.op)
        newState := (((db.rowsAfter ty since).take changesPageRows).getLast?.map
          (·.state)).getD since
        tooOld := false
        hasMore := decide (changesPageRows < (db.rowsAfter ty since).length) } := by
  have hmin : min changesPageRows (changesPageRows + 1) = changesPageRows := by omega
  have hmore : changesPageRows < min (changesPageRows + 1) (db.rowsAfter ty since).length ↔
      changesPageRows < (db.rowsAfter ty since).length := by omega
  simp only [jmapChangesSince, h, Bool.false_eq_true, if_false, List.take_take, hmin,
    List.length_take, hmore]

/-- The smallest logged state bounds every logged state of its type. -/
theorem oldestState_le {db : ChangeLog} {r : ChangeRow} (h : r ∈ db.rows) :
    ∃ o, db.oldestState r.type = some o ∧ o ≤ r.state := by
  have hmem : r.state ∈ (db.rows.filter fun q => q.type = r.type).map (·.state) :=
    List.mem_map.2 ⟨r, by simp [h], rfl⟩
  cases ho : db.oldestState r.type with
  | none =>
      rw [oldestState, List.min?_eq_none_iff] at ho
      simp [ho] at hmem
  | some o =>
      have hmin := (List.min?_eq_some_iff.1 ho).2 r.state hmem
      exact ⟨o, rfl, hmin⟩

/-- The smallest logged state is the state of a logged row. -/
theorem exists_of_oldestState {db : ChangeLog} {ty : String} {o : Int}
    (h : db.oldestState ty = some o) : ∃ r ∈ db.rows, r.type = ty ∧ r.state = o := by
  have hmem := (List.min?_eq_some_iff.1 h).1
  obtain ⟨r, hr, rfl⟩ := List.mem_map.1 hmem
  have := List.mem_filter.1 hr
  exact ⟨r, this.1, by simpa using this.2, rfl⟩

end ChangeLog

end AsterBridge.Db
