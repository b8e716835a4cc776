import AsterBridge.Lib.Faults
import AsterBridge.Lib.Runs

/-!
# The data directory

The files of the data directory under their names, and the statements that `db/mod.rs` runs on the
database `bridge.db`. A database is its main file and its own `-wal`; what a connection writes goes
to the `-wal`, and a checkpoint, which SQLite may make with any commit, brings it into the main
file. The `-shm` holds no rows, and a hot `-journal` is not modelled.

Every operation is one step of a program of `Lib.Faults`.
-/

set_option autoImplicit false

namespace AsterBridge.Db.DataDir

open AsterBridge.Lib.Faults

/-! ## Names -/

/-- The name of a file in the data directory. -/
abbrev Name := List Char

local instance lawfulBEqName : LawfulBEq Name := inferInstance

/-- The database, `bridge.db`. -/
def live : Name := "bridge.db".toList

/-- `PENDING_CLEAR_MARKER` -/
def pendingClearMarker : Name := "user_data_clear_pending".toList

/-- `DB_FILE_SUFFIXES` -/
def dbFileSuffixes : List Name := ["".toList, "-wal".toList, "-shm".toList]

/-- `sibling_path` -/
def siblingPath (n suffix : Name) : Name := n ++ suffix

/-- `plaintext_backup_path` -/
def plaintextBackupPath (n : Name) : Name := siblingPath n ".plain".toList

/-- `file_stem`: what stands before the last dot, where that is not the first character. -/
def fileStem (n : Name) : Name :=
  if '.' ∈ n.tail then ((n.reverse.dropWhile fun c => c != '.').drop 1).reverse else n

/-- `with_extension` -/
def withExtension (n extension : Name) : Name := fileStem n ++ '.' :: extension

/-- A time in a name. -/
def digits (stamp : Nat) : Name := Nat.toDigits 10 stamp

/-- `is_old_copy` -/
def isOldCopy (live name : Name) : Bool :=
  decide (live.length + 1 < name.length) && live.isPrefixOf name && name[live.length]? == some '.'

/-! ## Tables -/

/-- A table of a database. -/
structure Table (ρ : Type) where
  name : String
  columns : List String
  rows : List ρ

/-- The tables of a database. -/
abbrev Tables (ρ : Type) := List (Table ρ)

variable {κ ρ α : Type}

namespace Tables

/-- The table of a name. -/
def get (ts : Tables ρ) (name : String) : Option (Table ρ) := ts.find? fun t => t.name = name

/-- `table_columns`; a table that is not there has none. -/
def tableColumns (ts : Tables ρ) (name : String) : List String :=
  ((ts.get name).map Table.columns).getD []

/-- `CREATE TABLE IF NOT EXISTS` -/
def create (name : String) (columns : List String) (ts : Tables ρ) : Tables ρ :=
  if (ts.get name).isSome then ts else ts ++ [⟨name, columns, []⟩]

/-- A statement on one table; it fails where the table is not there. -/
def change (name : String) (f : Table ρ → Except String (Table ρ)) (ts : Tables ρ) :
    Except String (Tables ρ) :=
  match ts.get name with
  | none => .error ("no such table: " ++ name)
  | some t =>
      match f t with
      | .error e => .error e
      | .ok t' => .ok (ts.map fun u => if u.name = name then t' else u)

/-- `ALTER TABLE .. ADD COLUMN` -/
def addColumn (name column : String) : Tables ρ → Except String (Tables ρ) :=
  change name fun t =>
    if column ∈ t.columns then .error ("duplicate column name: " ++ column)
    else .ok { t with columns := t.columns ++ [column] }

/-- A statement that reads columns of a table and leaves `f` of its rows. -/
def update (name : String) (columns : List String) (f : List ρ → List ρ) :
    Tables ρ → Except String (Tables ρ) :=
  change name fun t =>
    if columns.all fun c => t.columns.contains c then .ok { t with rows := f t.rows }
    else .error "no such column"

/-- `CREATE INDEX IF NOT EXISTS`, of which only the columns that it needs matter here. -/
def createIndex (name : String) (columns : List String) : Tables ρ → Except String (Tables ρ) :=
  update name columns id

/-- `DELETE FROM` a table. -/
def deleteFrom (name : String) : Tables ρ → Except String (Tables ρ) := update name [] fun _ => []

/-- `ALTER TABLE .. RENAME TO` -/
def rename (src dst : String) (ts : Tables ρ) : Except String (Tables ρ) :=
  if (ts.get dst).isSome then .error ("there is already another table: " ++ dst)
  else change src (fun t => .ok { t with name := dst }) ts

/-- `table_row_counts`: not of the tables of SQLite, nor of the virtual one. -/
def tableRowCounts (ts : Tables ρ) : List (String × Nat) :=
  (ts.filter fun t => !"sqlite_".toList.isPrefixOf t.name.toList && t.name != "message_fts").map
    fun t => (t.name, t.rows.length)

/-- `holds_same_rows` -/
def holdsSameRows (ts : Tables ρ) (expected : List (String × Nat)) : Bool :=
  expected.all fun e => (ts.get e.1).map (fun t => t.rows.length) == some e.2

end Tables

/-! ## Files -/

/-- What a file holds. -/
inductive Content (κ ρ : Type) where
  /-- the main file of a database, and the key it is under -/
  | database (key : Option κ) (tables : Tables ρ)
  /-- pages without a main file: a `-wal`, with its tables, or a copy that is not finished -/
  | pages (tables : Tables ρ)
  /-- a file without content -/
  | blank
  /-- a file without rows -/
  | other

/-- The tables with rows in a file. -/
def Content.tables : Content κ ρ → Tables ρ
  | .database _ ts => ts
  | .pages ts => ts
  | .blank => []
  | .other => []

/-- The file holds a database or a part of one. -/
def Content.isCopy : Content κ ρ → Bool
  | .database _ _ => true
  | .pages _ => true
  | .blank => false
  | .other => false

/-- The data directory and the process. -/
structure World (κ ρ : Type) where
  files : List (Name × Content κ ρ)
  /-- the entries that cannot be read now -/
  unread : List Name
  /-- the connection of the running process, by its key -/
  conn : Option κ
  /-- how often `clear_all_user_data` has come to its end -/
  wiped : Nat

namespace World

/-- What stands under a name. -/
def file (w : World κ ρ) (n : Name) : Option (Content κ ρ) :=
  (w.files.find? fun e => e.1 = n).map Prod.snd

/-- A file is removed. -/
def remove (w : World κ ρ) (n : Name) : World κ ρ :=
  { w with files := w.files.filter fun e => e.1 ≠ n }

/-- A file is written. -/
def write (w : World κ ρ) (n : Name) (c : Content κ ρ) : World κ ρ :=
  { w with files := (n, c) :: (w.remove n).files }

/-- The name of the log of a database. -/
def logOf (n : Name) : Name := siblingPath n "-wal".toList

/-- The name of the shared memory of a database. -/
def memoryOf (n : Name) : Name := siblingPath n "-shm".toList

/-- The database under a name, as a connection sees it: with the pages in its log. -/
def recover (w : World κ ρ) (n : Name) : Option (Option κ × Tables ρ) :=
  match w.file n with
  | some (.database key ts) =>
      match w.file (logOf n) with
      | some (.pages full) => some (key, full)
      | _ => some (key, ts)
  | _ => none

/-- The tables of the database under a name. -/
def tablesAt (w : World κ ρ) (n : Name) : Tables ρ := ((w.recover n).map Prod.snd).getD []

/-- `is_readable` under a key; a file without content is an empty database. -/
def readable [DecidableEq κ] (w : World κ ρ) (n : Name) (key : Option κ) : Bool :=
  match w.file n with
  | some (.database k _) => k = key
  | some .blank => true
  | none => true
  | _ => false

/-- A connection is closed; SQLite brings the log into the main file, or leaves it. -/
def close (w : World κ ρ) (n : Name) (checkpoints : Bool) : World κ ρ :=
  match checkpoints, w.recover n with
  | true, some (key, ts) => ((w.write n (.database key ts)).remove (logOf n)).remove (memoryOf n)
  | _, _ => w

/-- A commit on the database that is open under `key`. -/
def store (w : World κ ρ) (key : κ) (checkpoints : Bool) (ts : Tables ρ) : World κ ρ :=
  if checkpoints || (w.recover live).isNone then
    (w.write live (.database (some key) ts)).write (logOf live) (.pages ts)
  else w.write (logOf live) (.pages ts)

/-- `wal_checkpoint(TRUNCATE)` -/
def truncateLog (w : World κ ρ) (key : κ) : World κ ρ :=
  (w.write live (.database (some key) (w.tablesAt live))).write (logOf live) .blank

end World

open World

/-! ## Operations -/

/-- Programs on the data directory. -/
abbrev Run (κ ρ α : Type) := Prog (World κ ρ) α

/-- `clear_pending` -/
def clearPending (w : World κ ρ) : Bool := (w.file pendingClearMarker).isSome

/-- `exists`, and `is_file`: the names of databases are those of plain files. -/
def fileExists (n : Name) : Run κ ρ Bool := Prog.look fun w => (w.file n).isSome

/-- `unix_millis` -/
def unixMillis : Run κ ρ Nat := Prog.operation fun t w => (.ok t.reading, w)

/-- `remove_file` -/
def removeFile (n : Name) : Run κ ρ Unit :=
  Prog.atomic fun _ w =>
    match w.file n with
    | none => .error "no such file"
    | some _ => .ok ((), w.remove n)

/-- `rename` of a file -/
def renameFile (src dst : Name) : Run κ ρ Unit :=
  Prog.atomic fun _ w =>
    match w.file src with
    | none => .error "no such file"
    | some c => .ok ((), (w.remove src).write dst c)

/-- A file is written. -/
def writeFile (n : Name) (c : World κ ρ → Content κ ρ) : Run κ ρ Unit :=
  Prog.atomic fun _ w => .ok ((), w.write n (c w))

/-- `let _ =` -/
def ignore (p : Run κ ρ Unit) : Run κ ρ Unit := do
  let _ ← p.attempt
  pure ()

/-- `best_effort_overwrite`: the file is zeros, or as it was. -/
def bestEffortOverwrite (n : Name) : Run κ ρ Unit :=
  Prog.operation fun t w =>
    (.ok (), if t.choice && (w.file n).isSome then w.write n .other else w)

/-- A question over a connection that stays open. -/
def ask (f : World κ ρ → α) : Run κ ρ α := Prog.atomic fun _ w => .ok (f w, w)

/-- A connection is closed. -/
def closeConnection (n : Name) : Run κ ρ Unit :=
  Prog.operation fun t w => (.ok (), w.close n t.choice)

/-- A question to the database under a name, over a connection that is closed after it. -/
def query (n : Name) (f : World κ ρ → α) : Run κ ρ α :=
  Prog.atomic fun t w => .ok (f w, w.close n t.choice)

/-- A setting of the connection. -/
def pragma : Run κ ρ Unit := Prog.atomic fun _ w => .ok ((), w)

/-- A transaction on the database that is open under `key`. -/
def commit (key : κ) (f : Tables ρ → Except String (Tables ρ)) : Run κ ρ Unit :=
  Prog.atomic fun t w =>
    match f (w.tablesAt live) with
    | .error e => .error e
    | .ok ts => .ok ((), w.store key t.choice ts)

/-- `move_db_files` -/
def moveDbFiles (src dst : Name) : Run κ ρ Unit :=
  Prog.each (fun suffix => do
    let present ← fileExists (siblingPath src suffix)
    Prog.only present (renameFile (siblingPath src suffix) (siblingPath dst suffix)))
    dbFileSuffixes

/-- The loop over files that are overwritten and removed, with the failures. -/
def shredEach : List Name → Run κ ρ (List String)
  | [] => pure []
  | n :: names => do
      if ← fileExists n then
        bestEffortOverwrite n
        match ← (removeFile n).attempt with
        | .ok _ => shredEach names
        | .error e => do
            let failed ← shredEach names
            pure ((String.ofList n ++ " (" ++ e ++ ")") :: failed)
      else shredEach names

/-- Files are overwritten and removed. -/
def shred (names : List Name) : Run κ ρ Unit := do
  let failed ← shredEach names
  if failed = [] then pure () else Prog.fail ("could not delete " ++ ", ".intercalate failed)

/-- `shred_db_files` -/
def shredDbFiles (n : Name) : Run κ ρ Unit := shred (dbFileSuffixes.map (siblingPath n))

/-- `read_dir` of the data directory; an entry that cannot be read is left out. -/
def readDir : Run κ ρ (List Name) :=
  Prog.atomic fun _ w => .ok ((w.files.map Prod.fst).filter fun n => n ∉ w.unread, w)

/-- `shred_files_where` -/
def shredFilesWhere (db : Name) (keep : Name → Name → Bool) : Run κ ρ Unit := do
  let names ← readDir
  shred (names.filter (keep db))

/-- `remove_old_copies` -/
def removeOldCopies : Run κ ρ Unit := shredFilesWhere live isOldCopy

end AsterBridge.Db.DataDir
