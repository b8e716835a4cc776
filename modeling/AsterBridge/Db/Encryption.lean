import AsterBridge.Lib.Runs

/-!
# The switch to the encrypted database

`db/mod.rs`: `open_keyed` finds a plaintext database, copies it with `sqlcipher_export`, sets its
files aside and puts the copy in their place; an interrupted switch is undone by a later call. A
step is one operation on the files, which may fail where the source looks at a failure, and the
program may die between any two.

SQLite is what its documentation says: a database is its main file and its own `-wal`, a checkpoint
moves the rows of the `-wal` into the main file, and one may happen whenever a connection is closed.
The `-shm` holds no rows.
-/

set_option autoImplicit false

namespace AsterBridge.Db.Encryption

open AsterBridge.Lib.Runs

universe u

/-! ## Files -/

/-- The rows of a database, table by table in the order of the names. -/
abbrev Tables (ρ : Type u) := List (String × List ρ)

/-- The suffixes of `DB_FILE_SUFFIXES`. -/
inductive Suffix where
  | main
  | wal
  | shm
deriving DecidableEq

/-- `DB_FILE_SUFFIXES` -/
def dbFileSuffixes : List Suffix := [.main, .wal, .shm]

/-- The paths that a database has files beside. -/
inductive Place where
  | db
  /-- `plaintext_backup_path` -/
  | backup
  /-- an older plaintext copy, by its time -/
  | aside (stamp : Nat)
deriving DecidableEq

/-- The names of files. -/
inductive Name where
  | file (p : Place) (x : Suffix)
  /-- `bridge.db.enc` -/
  | enc
  /-- a database in quarantine, by its time -/
  | unreadable (stamp : Nat)
deriving DecidableEq

variable {ρ : Type u}

/-- What a file holds. -/
inductive Content (ρ : Type u) where
  /-- the main file of a plaintext database -/
  | plain (rows : Tables ρ)
  /-- a `-wal`, by the rows of its database with it -/
  | wal (rows : Tables ρ)
  | shm
  /-- a database under the key -/
  | cipher (rows : Tables ρ)
  /-- a copy that is not finished -/
  | part
  /-- zeros -/
  | erased

/-- The files that exist. -/
abbrev Files (ρ : Type u) := Name → Option (Content ρ)

namespace Files

/-- A file is written, or removed. -/
def set (fs : Files ρ) (n : Name) (c : Option (Content ρ)) : Files ρ :=
  fun k => if k = n then c else fs k

@[simp] theorem set_same (fs : Files ρ) (n : Name) (c : Option (Content ρ)) : fs.set n c n = c :=
  if_pos rfl

theorem set_other (fs : Files ρ) {k n : Name} (c : Option (Content ρ)) (h : k ≠ n) :
    fs.set n c k = fs k :=
  if_neg h

/-- `rename` of a file that exists. -/
def rename (fs : Files ρ) (src dst : Name) : Files ρ := (fs.set dst (fs src)).set src none

theorem rename_other (fs : Files ρ) {k src dst : Name} (hsrc : k ≠ src) (hdst : k ≠ dst) :
    fs.rename src dst k = fs k := by
  rw [rename, set_other _ _ hsrc, set_other _ _ hdst]

/-- The rows of the plaintext database at a path, as SQLite recovers them. -/
def plaintext (fs : Files ρ) (p : Place) : Option (Tables ρ) :=
  match fs (.file p .main) with
  | some (.plain rows) =>
      match fs (.file p .wal) with
      | some (.wal full) => some full
      | _ => some rows
  | _ => none

/-- The rows of the database at `db_path` under the key. -/
def live (fs : Files ρ) : Option (Tables ρ) :=
  match fs (.file .db .main), fs (.file .db .wal) with
  | some (.cipher rows), none => some rows
  | _, _ => none

/-- The last connection to a plaintext database is closed: its `-wal` goes into the main file. -/
def checkpoint (fs : Files ρ) (p : Place) : Files ρ :=
  match fs (.file p .main), fs (.file p .wal) with
  | some (.plain _), some (.wal full) =>
      ((fs.set (.file p .main) (some (.plain full))).set (.file p .wal) none).set
        (.file p .shm) none
  | _, _ => fs

/-- What a checkpoint does: nothing, or it writes the `-wal` into the main file. -/
theorem checkpoint_cases (fs : Files ρ) (p : Place) :
    fs.checkpoint p = fs ∨ ∃ full, (∃ base, fs (.file p .main) = some (.plain base)) ∧
      fs (.file p .wal) = some (.wal full) ∧
      fs.checkpoint p = ((fs.set (.file p .main) (some (.plain full))).set (.file p .wal) none).set
        (.file p .shm) none := by
  unfold checkpoint
  split
  next base full hmain hwal => exact Or.inr ⟨full, ⟨base, hmain⟩, hwal, rfl⟩
  next => exact Or.inl rfl

end Files

/-- `table_row_counts` -/
def tableRowCounts (t : Tables ρ) : List (String × Nat) := t.map fun e => (e.1, e.2.length)

/-- `holds_same_rows` -/
def holdsSameRows (t : Tables ρ) (expected : List (String × Nat)) : Bool :=
  expected.all fun e => (t.lookup e.1).map List.length = some e.2

/-! ## The steps of `open_keyed` -/

/-- What a `move_db_files` is for, and what follows it. -/
inductive Move where
  /-- `restore_plaintext_backup` -/
  | restore
  /-- an older plaintext copy -/
  | olderAside
  /-- the plaintext database, before the copy takes its place -/
  | setAside
  /-- back, after a failed step of the migration -/
  | rollBack
deriving DecidableEq

/-- Where `shred_db_files` is called. -/
inductive Shred (ρ : Type u) where
  | migrated
  /-- in `discard_copied_plaintext_backup`, with the database opened -/
  | discard (rows : Tables ρ)

/-- What the last call returned; a crash returns nothing. -/
inductive Answer (ρ : Type u) where
  | none
  | opened (rows : Tables ρ)
  | failed

/-- Where the program is. -/
inductive Pc (ρ : Type u) where
  | idle (last : Answer ρ)
  | opening
  /-- `restore_plaintext_backup` before it removes stray files -/
  | dropping (rest : List Suffix)
  | moving (src dst : Place) (rest : List Suffix) (why : Move)
  | probing
  /-- in `plaintext_is_readable` -/
  | probingPlain
  /-- `migrate_plaintext_with_rename` before it switches the journal mode -/
  | switching
  /-- before it removes an older `bridge.db.enc` -/
  | clearing (expected : List (String × Nat))
  | exporting (expected : List (String × Nat))
  | copying (expected : List (String × Nat))
  | verifying (expected : List (String × Nat))
  | checkingBackup
  | swapping
  /-- before it removes `bridge.db.enc` and returns an error -/
  | droppingEnc
  | shredding (rest : List Suffix) (why : Shred ρ)
  /-- `shred_db_files` with the file overwritten -/
  | removing (x : Suffix) (rest : List Suffix) (why : Shred ρ)
  | quarantining
  | quarantiningRest (rest : List Suffix)
  | finalOpening
  | discarding (rows : Tables ρ)

/-- What a call does to files with rows that a later call cannot undo. -/
inductive Event (ρ : Type u) where
  /-- a file was removed or overwritten while the encrypted database had the rows `live` -/
  | lost (n : Name) (live : Option (Tables ρ))
  | quarantined
  /-- an empty database was created -/
  | created

/-- The files and the running call. -/
structure State (ρ : Type u) where
  files : Files ρ
  pc : Pc ρ
  events : List (Event ρ)

/-- What the environment chooses in a step. -/
structure Outcome where
  fails : Bool
  /-- SQLite writes the `-wal` back when it closes the connection -/
  checkpoints : Bool
  stamp : Nat

namespace State

/-- The call goes on at `pc`. -/
def at_ (s : State ρ) (pc : Pc ρ) : State ρ := { s with pc := pc }

/-- SQLite closes its connection to the plaintext database at `db_path`. -/
def close (s : State ρ) (o : Outcome) (p : Place) : State ρ :=
  if o.checkpoints then { s with files := s.files.checkpoint p } else s

/-- A file is removed or overwritten. -/
def lose (s : State ρ) (n : Name) (c : Option (Content ρ)) : State ρ :=
  { s with
    files := s.files.set n c
    events := .lost n s.files.live :: s.events }

/-- A file is renamed, over another if there is one. -/
def rename (s : State ρ) (src dst : Name) : State ρ :=
  { s with
    files := s.files.rename src dst
    events := if (s.files dst).isSome then .lost dst s.files.live :: s.events else s.events }

end State

/-- What follows a `move_db_files` that succeeded. -/
def moved : Move → Pc ρ
  | .restore => .probing
  | .olderAside => .moving .db .backup dbFileSuffixes .setAside
  | .setAside => .swapping
  | .rollBack => .droppingEnc

/-- What follows a `move_db_files` of which a rename failed. -/
def notMoved : Move → Pc ρ
  | .restore => .idle .failed
  | .olderAside => .droppingEnc
  | .setAside => .moving .backup .db dbFileSuffixes .rollBack
  | .rollBack => .droppingEnc

/-- What follows `shred_db_files`. -/
def shredded : Shred ρ → Pc ρ
  | .migrated => .finalOpening
  | .discard rows => .idle (.opened rows)

/-- The next step of `open_keyed`. -/
def go (o : Outcome) (s : State ρ) : State ρ :=
  match s.pc with
  | .idle _ => s
  | .opening =>
      if (s.files (.file .db .main)).isNone ∧ (s.files (.file .backup .main)).isSome then
        s.at_ (.dropping [.wal, .shm])
      else s.at_ .probing
  | .dropping [] => s.at_ (.moving .backup .db dbFileSuffixes .restore)
  | .dropping (x :: rest) =>
      if (s.files (.file .db x)).isSome ∧ (s.files (.file .backup x)).isNone ∧ ¬ o.fails then
        (s.lose (.file .db x) none).at_ (.dropping rest)
      else s.at_ (.dropping rest)
  | .moving _ _ [] why => s.at_ (moved why)
  | .moving src dst (x :: rest) why =>
      if (s.files (.file src x)).isSome then
        if o.fails then s.at_ (notMoved why)
        else (s.rename (.file src x) (.file dst x)).at_ (.moving src dst rest why)
      else s.at_ (.moving src dst rest why)
  | .probing =>
      if (s.files (.file .db .main)).isNone then s.at_ .finalOpening
      else
        match s.files.live with
        | some _ => s.at_ .finalOpening
        | none => (s.close o .db).at_ .probingPlain
  | .probingPlain =>
      match s.files.plaintext .db with
      | some _ => (s.close o .db).at_ .switching
      | none => s.at_ .quarantining
  | .switching =>
      -- a switch that fails leaves the `-wal`
      match (s.close o .db).files.plaintext .db with
      | some rows => (s.close o .db).at_ (.clearing (tableRowCounts rows))
      | none => (s.close o .db).at_ (.idle .failed)
  | .clearing expected =>
      if o.fails then s.at_ (.exporting expected)
      else { s with files := s.files.set .enc none, pc := .exporting expected }
  | .exporting expected =>
      if o.fails then s.at_ .droppingEnc
      else { s with files := s.files.set .enc (some .part), pc := .copying expected }
  | .copying expected =>
      match s.files.plaintext .db with
      | some rows =>
          State.close
            { s with files := s.files.set .enc (some (.cipher rows)), pc := .verifying expected }
            o .db
      | none => s.at_ .droppingEnc
  | .verifying expected =>
      match s.files .enc with
      | some (.cipher rows) =>
          if ¬ o.fails ∧ tableRowCounts rows = expected then s.at_ .checkingBackup
          else s.at_ .droppingEnc
      | _ => s.at_ .droppingEnc
  | .checkingBackup =>
      if (s.files (.file .backup .main)).isSome then
        s.at_ (.moving .backup (.aside o.stamp) dbFileSuffixes .olderAside)
      else s.at_ (.moving .db .backup dbFileSuffixes .setAside)
  | .swapping =>
      if o.fails then s.at_ (.moving .backup .db dbFileSuffixes .rollBack)
      else (s.rename .enc (.file .db .main)).at_ (.shredding dbFileSuffixes .migrated)
  | .droppingEnc =>
      if o.fails then s.at_ (.idle .failed)
      else { s with files := s.files.set .enc none, pc := .idle .failed }
  | .shredding [] why => s.at_ (shredded why)
  | .shredding (x :: rest) why =>
      if (s.files (.file .backup x)).isSome then
        (s.lose (.file .backup x) (some .erased)).at_ (.removing x rest why)
      else s.at_ (.shredding rest why)
  | .removing x rest why =>
      if o.fails then s.at_ (.shredding rest why)
      else (s.lose (.file .backup x) none).at_ (.shredding rest why)
  | .quarantining =>
      if o.fails then s.at_ (.idle .failed)
      else
        { s with
          files := s.files.rename (.file .db .main) (.unreadable o.stamp)
          events := .quarantined :: s.events
          pc := .quarantiningRest [.wal, .shm] }
  | .quarantiningRest [] => s.at_ .finalOpening
  | .quarantiningRest (x :: rest) =>
      if o.fails then s.at_ (.quarantiningRest rest)
      else (s.lose (.file .db x) none).at_ (.quarantiningRest rest)
  | .finalOpening =>
      if (s.files (.file .db .main)).isNone then
        { s with
          files := s.files.set (.file .db .main) (some (.cipher []))
          events := .created :: s.events
          pc := .discarding [] }
      else
        match s.files.live with
        | some rows => s.at_ (.discarding rows)
        | none => s.at_ (.idle .failed)
  | .discarding rows =>
      match s.files.plaintext .backup with
      | some copied =>
          if holdsSameRows rows (tableRowCounts copied) then
            (s.close o .backup).at_ (.shredding dbFileSuffixes (.discard rows))
          else (s.close o .backup).at_ (.idle (.opened rows))
      | none => s.at_ (.idle (.opened rows))

/-- A step: `open_keyed` is called, or goes on, or the program dies. -/
inductive Action where
  | call
  | go (o : Outcome)
  | crash

def step (s : State ρ) : Action → State ρ
  | .call =>
      match s.pc with
      | .idle _ => s.at_ .opening
      | _ => s
  | .go o => go o s
  | .crash => s.at_ (.idle .none)

/-- A plaintext database with the rows `base` in its main file and, if there is a `-wal`, the rows
`full` with it. -/
def State.start (base : Tables ρ) (full : Option (Tables ρ)) (shm : Bool) : State ρ where
  files := fun n =>
    match n with
    | .file .db .main => some (.plain base)
    | .file .db .wal => full.map .wal
    | .file .db .shm => if shm then some .shm else none
    | _ => none
  pc := .idle .none
  events := []

/-! ## Where the rows are -/

/-- The other one of `db_path` and its backup. -/
def Place.other : Place → Place
  | .db => .backup
  | .backup => .db
  | .aside stamp => .aside stamp

/-- One of `db_path` and its backup. -/
def Place.IsEnd (p : Place) : Prop := p = .db ∨ p = .backup

theorem Place.IsEnd.other_ne {p : Place} (h : p.IsEnd) : p.other ≠ p := by
  rcases h with rfl | rfl <;> decide

theorem Place.IsEnd.eq_or {p q : Place} (hp : p.IsEnd) (hq : q.IsEnd) : p = q ∨ p = q.other := by
  rcases hp with rfl | rfl <;> rcases hq with rfl | rfl <;> decide

theorem Place.other_other (p : Place) : p.other.other = p := by
  cases p <;> rfl

theorem Place.IsEnd.other {p : Place} (h : p.IsEnd) : p.other.IsEnd := by
  rcases h with rfl | rfl
  · exact Or.inr rfl
  · exact Or.inl rfl

/-- The main file of the plaintext database is at `m` and its `-wal`, if there is one, at `w`; both
together are all rows. -/
structure Split (all : Tables ρ) (fs : Files ρ) (m w : Place) : Prop where
  ends : m.IsEnd ∧ w.IsEnd
  noMain : fs (.file m.other .main) = none
  noWal : fs (.file w.other .wal) = none
  rows : ∃ base, fs (.file m .main) = some (.plain base) ∧
    (fs (.file w .wal) = none ∧ base = all ∨ fs (.file w .wal) = some (.wal all))

/-- The encrypted database has all rows. -/
def InPlace (all : Tables ρ) (fs : Files ρ) : Prop := fs.live = some all

theorem inPlace_iff {all : Tables ρ} {fs : Files ρ} :
    InPlace all fs ↔ fs (.file .db .main) = some (.cipher all) ∧ fs (.file .db .wal) = none := by
  unfold InPlace Files.live
  constructor
  · intro h
    split at h
    next rows hmain hwal =>
      cases h
      exact ⟨hmain, hwal⟩
    next => exact nomatch h
  · rintro ⟨hmain, hwal⟩
    rw [hmain, hwal]

/-- Files that agree on the main files and the `-wal`s of both ends have the rows in the same
place. -/
theorem Split.congr {all : Tables ρ} {fs gs : Files ρ} {m w : Place} (h : Split all fs m w)
    (hmain : ∀ p : Place, p.IsEnd → gs (.file p .main) = fs (.file p .main))
    (hwal : ∀ p : Place, p.IsEnd → gs (.file p .wal) = fs (.file p .wal)) :
    Split all gs m w := by
  obtain ⟨⟨hm, hw⟩, hnoMain, hnoWal, base, hbase, hrows⟩ := h
  refine ⟨⟨hm, hw⟩, ?_, ?_, base, ?_, ?_⟩
  · rw [hmain _ hm.other]; exact hnoMain
  · rw [hwal _ hw.other]; exact hnoWal
  · rw [hmain _ hm]; exact hbase
  · rw [hwal _ hw]; exact hrows

theorem Split.set {all : Tables ρ} {fs : Files ρ} {m w : Place} (h : Split all fs m w) {n : Name}
    (c : Option (Content ρ)) (hmain : ∀ p, n ≠ .file p .main) (hwal : ∀ p, n ≠ .file p .wal) :
    Split all (fs.set n c) m w :=
  h.congr (fun p _ => Files.set_other fs c fun hn => hmain p hn.symm)
    (fun p _ => Files.set_other fs c fun hn => hwal p hn.symm)

/-- A plaintext database whose `-wal` lies beside it is recovered. -/
theorem Split.plaintext {all : Tables ρ} {fs : Files ρ} {p : Place} (h : Split all fs p p) :
    fs.plaintext p = some all := by
  obtain ⟨-, -, -, base, hbase, ⟨hwal, rfl⟩ | hwal⟩ := h
  · rw [Files.plaintext, hbase]
    dsimp only
    rw [hwal]
  · rw [Files.plaintext, hbase]
    dsimp only
    rw [hwal]

theorem Split.live {all : Tables ρ} {fs : Files ρ} {m w : Place} (h : Split all fs m w) :
    fs.live = none := by
  have hmain : ∀ rows, fs (.file .db .main) ≠ some (.cipher rows) := by
    intro rows hcipher
    obtain ⟨⟨rfl | rfl, -⟩, hnoMain, -, base, hbase, -⟩ := h
    · exact nomatch hbase.symm.trans hcipher
    · exact nomatch hnoMain.symm.trans hcipher
  unfold Files.live
  split
  next rows hcipher _ => exact absurd hcipher (hmain rows)
  next => rfl

theorem Split.notInPlace {all all' : Tables ρ} {fs : Files ρ} {m w : Place}
    (h : Split all fs m w) : ¬ InPlace all' fs :=
  fun hin => nomatch h.live.symm.trans hin

/-- SQLite's own write of the `-wal` into the main file. -/
theorem Split.checkpoint {all : Tables ρ} {fs : Files ρ} (h : Split all fs .db .db) :
    Split all (fs.checkpoint .db) .db .db := by
  rcases fs.checkpoint_cases .db with hsame | ⟨full, -, hwal, hfull⟩
  · rw [hsame]
    exact h
  · obtain ⟨⟨hm, hw⟩, hnoMain, hnoWal, base, hbase, ⟨hnone, -⟩ | hall⟩ := h
    · exact nomatch hnone.symm.trans hwal
    · cases hall.symm.trans hwal
      rw [hfull]
      exact ⟨⟨hm, hw⟩, hnoMain, hnoWal, all, rfl, Or.inl ⟨rfl, rfl⟩⟩

/-- The rename of the main file. -/
theorem Split.renameMain {all : Tables ρ} {fs : Files ρ} {m w src : Place} (h : Split all fs m w)
    (hsrc : src.IsEnd) (hexists : (fs (.file src .main)).isSome = true) :
    Split all (fs.rename (.file src .main) (.file src.other .main)) src.other w := by
  obtain ⟨⟨hm, hw⟩, hnoMain, hnoWal, base, hbase, hrows⟩ := h
  obtain rfl : m = src := by
    rcases hm.eq_or hsrc with hsame | hother
    · exact hsame
    · rw [hother, Place.other_other] at hnoMain
      rw [hnoMain] at hexists
      exact nomatch hexists
  have hne : Name.file m.other .main ≠ .file m .main := by
    intro heq
    injection heq with heq
    exact hm.other_ne heq
  have hkeep : ∀ p : Place,
      fs.rename (.file m .main) (.file m.other .main) (.file p .wal) = fs (.file p .wal) :=
    fun _ => Files.rename_other fs nofun nofun
  refine ⟨⟨hm.other, hw⟩, ?_, ?_, base, ?_, ?_⟩
  · rw [Place.other_other, Files.rename, Files.set_same]
  · rw [hkeep]; exact hnoWal
  · rw [Files.rename, Files.set_other _ _ hne, Files.set_same, hbase]
  · rw [hkeep]; exact hrows

/-- The rename of the `-wal`. -/
theorem Split.renameWal {all : Tables ρ} {fs : Files ρ} {m w src : Place} (h : Split all fs m w)
    (hsrc : src.IsEnd) (hexists : (fs (.file src .wal)).isSome = true) :
    Split all (fs.rename (.file src .wal) (.file src.other .wal)) m src.other := by
  obtain ⟨⟨hm, hw⟩, hnoMain, hnoWal, base, hbase, hrows⟩ := h
  obtain rfl : w = src := by
    rcases hw.eq_or hsrc with hsame | hother
    · exact hsame
    · rw [hother, Place.other_other] at hnoWal
      rw [hnoWal] at hexists
      exact nomatch hexists
  have hne : Name.file w.other .wal ≠ .file w .wal := by
    intro heq
    injection heq with heq
    exact hw.other_ne heq
  have hkeep : ∀ p : Place,
      fs.rename (.file w .wal) (.file w.other .wal) (.file p .main) = fs (.file p .main) :=
    fun _ => Files.rename_other fs nofun nofun
  refine ⟨⟨hm, hw.other⟩, ?_, ?_, base, ?_, ?_⟩
  · rw [hkeep]; exact hnoMain
  · rw [Place.other_other, Files.rename, Files.set_same]
  · rw [hkeep]; exact hbase
  · rw [Files.rename, Files.set_other _ _ hne, Files.set_same]; exact hrows

/-- A main file that is not there is at the other end. -/
theorem Split.main_elsewhere {all : Tables ρ} {fs : Files ρ} {m w src : Place}
    (h : Split all fs m w) (hsrc : src.IsEnd) (hnone : ¬ (fs (.file src .main)).isSome = true) :
    Split all fs src.other w := by
  rcases h.ends.1.eq_or hsrc with rfl | rfl
  · obtain ⟨base, hbase, -⟩ := h.rows
    rw [hbase] at hnone
    exact absurd rfl hnone
  · exact h

/-- A `-wal` that is not there is at the other end, or nowhere. -/
theorem Split.wal_elsewhere {all : Tables ρ} {fs : Files ρ} {m w src : Place}
    (h : Split all fs m w) (hsrc : src.IsEnd) (hnone : ¬ (fs (.file src .wal)).isSome = true) :
    Split all fs m src.other := by
  rcases h.ends.2.eq_or hsrc with rfl | rfl
  · obtain ⟨⟨hm, hw⟩, hnoMain, hnoWal, base, hbase, hrows⟩ := h
    have hwal : fs (.file w .wal) = none := by
      cases hwal : fs (.file w .wal) with
      | none => rfl
      | some c => rw [hwal] at hnone; exact absurd rfl hnone
    refine ⟨⟨hm, hw.other⟩, hnoMain, ?_, base, hbase, ?_⟩
    · rw [Place.other_other]; exact hwal
    · rcases hrows with ⟨-, hall⟩ | hsome
      · exact Or.inl ⟨hnoWal, hall⟩
      · exact nomatch hwal.symm.trans hsome
  · exact h

/-! ## What a call knows of the files -/

/-- What is already moved when the suffixes `rest` are left. -/
def MovedTo (all : Tables ρ) (fs : Files ρ) (dst : Place) : List Suffix → Prop
  | [.main, .wal, .shm] => ∃ m w, Split all fs m w
  | [.wal, .shm] => ∃ w, Split all fs dst w
  | [.shm] | [] => Split all fs dst dst
  | _ => False

theorem MovedTo.split {all : Tables ρ} {fs : Files ρ} {dst : Place} {rest : List Suffix}
    (h : MovedTo all fs dst rest) : ∃ m w, Split all fs m w := by
  unfold MovedTo at h
  split at h
  · exact h
  · exact ⟨dst, h⟩
  · exact ⟨dst, dst, h⟩
  · exact ⟨dst, dst, h⟩
  · exact h.elim

/-- The finished copy. -/
def Copied (all : Tables ρ) (fs : Files ρ) : Prop := fs .enc = some (.cipher all)

/-- What the running call knows of the files. -/
def Known (all : Tables ρ) (s : State ρ) : Prop :=
  match s.pc with
  | .idle (.opened rows) => rows = all ∧ InPlace all s.files
  | .idle _ => InPlace all s.files ∨ ∃ m w, Split all s.files m w
  | .opening => InPlace all s.files ∨ ∃ p, Split all s.files p p
  | .dropping rest => Split all s.files .backup .backup ∧ .main ∉ rest
  | .moving src dst rest why =>
      MovedTo all s.files dst rest ∧
        match why with
        | .restore | .rollBack => src = .backup ∧ dst = .db
        | .setAside => src = .db ∧ dst = .backup ∧ Copied all s.files
        | .olderAside => False
  | .probing => InPlace all s.files ∨ Split all s.files .db .db
  | .probingPlain | .switching => Split all s.files .db .db
  | .clearing expected | .exporting expected | .copying expected =>
      Split all s.files .db .db ∧ expected = tableRowCounts all
  | .verifying _ | .checkingBackup => Split all s.files .db .db ∧ Copied all s.files
  | .swapping => Split all s.files .backup .backup ∧ Copied all s.files
  | .droppingEnc => ∃ m w, Split all s.files m w
  | .shredding _ .migrated | .removing _ _ .migrated | .finalOpening => InPlace all s.files
  | .shredding _ (.discard rows) | .removing _ _ (.discard rows) | .discarding rows =>
      rows = all ∧ InPlace all s.files
  | .quarantining | .quarantiningRest _ => False

/-- What was removed or overwritten is a `-shm`, or the encrypted database had all rows. -/
def Event.Harmless (all : Tables ρ) : Event ρ → Prop
  | .lost n live => live = some all ∨ ∃ p, n = .file p .shm
  | .quarantined | .created => False

/-- What holds in every run that starts no call with the `-wal` away from its main file. -/
structure Safe (all : Tables ρ) (s : State ρ) : Prop where
  known : Known all s
  events : ∀ e ∈ s.events, e.Harmless all

/-- The plaintext main file and a `-wal` lie under one name. -/
def Beside (fs : Files ρ) : Prop :=
  ∀ p q : Place, p.IsEnd → q.IsEnd → ∀ base full,
    fs (.file p .main) = some (.plain base) → fs (.file q .wal) = some (.wal full) → p = q

/-- They do when a call begins. -/
def Together (s : State ρ) : Action → Prop
  | .call => (∃ last, s.pc = .idle last) → Beside s.files
  | _ => True

theorem InPlace.set {all : Tables ρ} {fs : Files ρ} (h : InPlace all fs) {n : Name}
    (c : Option (Content ρ)) (hmain : n ≠ .file .db .main) (hwal : n ≠ .file .db .wal) :
    InPlace all (fs.set n c) := by
  rw [inPlace_iff] at h ⊢
  rw [Files.set_other fs c hmain.symm, Files.set_other fs c hwal.symm]
  exact h

/-- A checkpoint of the copy that was set aside. -/
theorem InPlace.checkpoint {all : Tables ρ} {fs : Files ρ} (h : InPlace all fs) :
    InPlace all (fs.checkpoint .backup) := by
  rcases fs.checkpoint_cases .backup with hsame | ⟨full, -, -, hfull⟩
  · rw [hsame]
    exact h
  · rw [hfull, inPlace_iff]
    exact inPlace_iff.1 h

theorem Split.close {all : Tables ρ} {s : State ρ} (h : Split all s.files .db .db) (o : Outcome) :
    Split all (s.close o .db).files .db .db := by
  unfold State.close
  split
  · exact h.checkpoint
  · exact h

theorem close_harmless {all : Tables ρ} {s : State ρ} (h : ∀ e ∈ s.events, e.Harmless all)
    (o : Outcome) (p : Place) : ∀ e ∈ (s.close o p).events, e.Harmless all := by
  unfold State.close
  split <;> exact h

theorem checkpoint_enc (fs : Files ρ) (p : Place) : fs.checkpoint p .enc = fs .enc := by
  rcases fs.checkpoint_cases p with hsame | ⟨full, -, -, hfull⟩
  · rw [hsame]
  · rw [hfull]
    rfl

theorem close_enc (s : State ρ) (o : Outcome) (p : Place) :
    (s.close o p).files .enc = s.files .enc := by
  unfold State.close
  split
  · exact checkpoint_enc s.files p
  · rfl

theorem close_pc (s : State ρ) (o : Outcome) (p : Place) : (s.close o p).pc = s.pc := by
  unfold State.close
  split <;> rfl

/-- A call that begins finds the encrypted database in place or the plaintext one in one place. -/
theorem together_of_call {all : Tables ρ} {s : State ρ} {m w : Place}
    (h : Split all s.files m w) (ht : Beside s.files) : ∃ p, Split all s.files p p := by
  obtain ⟨⟨hm, hw⟩, hnoMain, hnoWal, base, hbase, ⟨hnone, rfl⟩ | hwal⟩ := h
  · -- without a `-wal` it is wherever the main file is
    refine ⟨m, ⟨hm, hm⟩, hnoMain, ?_, base, hbase, Or.inl ⟨?_, rfl⟩⟩
    · rcases hm.other.eq_or hw with hsame | hother
      · rw [hsame]; exact hnone
      · rw [hother]; exact hnoWal
    · rcases hm.eq_or hw with rfl | rfl
      · exact hnone
      · exact hnoWal
  · cases ht m w hm hw base all hbase hwal
    exact ⟨m, ⟨hm, hw⟩, hnoMain, hnoWal, base, hbase, Or.inr hwal⟩

/-! ## Every step -/

theorem MovedTo.skip {all : Tables ρ} {fs : Files ρ} {src : Place} {x : Suffix}
    {rest : List Suffix} (hsrc : src.IsEnd) (h : MovedTo all fs src.other (x :: rest))
    (hnone : ¬ (fs (.file src x)).isSome = true) : MovedTo all fs src.other rest := by
  unfold MovedTo at h
  split at h
  next heq =>
    cases heq
    obtain ⟨m, w, hsplit⟩ := h
    exact ⟨w, hsplit.main_elsewhere hsrc hnone⟩
  next heq =>
    cases heq
    obtain ⟨w, hsplit⟩ := h
    exact hsplit.wal_elsewhere hsrc hnone
  next heq =>
    cases heq
    exact h
  next heq => exact nomatch heq
  next => exact h.elim

theorem MovedTo.rename {all : Tables ρ} {fs : Files ρ} {src : Place} {x : Suffix}
    {rest : List Suffix} (hsrc : src.IsEnd) (h : MovedTo all fs src.other (x :: rest))
    (hexists : (fs (.file src x)).isSome = true) :
    MovedTo all (fs.rename (.file src x) (.file src.other x)) src.other rest := by
  unfold MovedTo at h
  split at h
  next heq =>
    cases heq
    obtain ⟨m, w, hsplit⟩ := h
    exact ⟨w, hsplit.renameMain hsrc hexists⟩
  next heq =>
    cases heq
    obtain ⟨w, hsplit⟩ := h
    exact hsplit.renameWal hsrc hexists
  next heq =>
    cases heq
    refine Split.congr h ?_ ?_
    · exact fun p _ => Files.rename_other fs nofun nofun
    · exact fun p _ => Files.rename_other fs nofun nofun
  next heq => exact nomatch heq
  next => exact h.elim

/-- No rename of a `move_db_files` is onto a main file or a `-wal`. -/
theorem MovedTo.target {all : Tables ρ} {fs : Files ρ} {src : Place} {x : Suffix}
    {rest : List Suffix} (hsrc : src.IsEnd) (h : MovedTo all fs src.other (x :: rest))
    (hexists : (fs (.file src x)).isSome = true) (hdst : (fs (.file src.other x)).isSome = true) :
    x = .shm := by
  unfold MovedTo at h
  split at h
  next heq =>
    cases heq
    obtain ⟨m, w, hsplit⟩ := h
    have hnone := hsplit.noMain
    rcases hsplit.ends.1.eq_or hsrc with rfl | rfl
    · rw [hnone] at hdst
      exact nomatch hdst
    · rw [Place.other_other] at hnone
      rw [hnone] at hexists
      exact nomatch hexists
  next heq =>
    cases heq
    obtain ⟨w, hsplit⟩ := h
    have hnone := hsplit.noWal
    rcases hsplit.ends.2.eq_or hsrc with rfl | rfl
    · rw [hnone] at hdst
      exact nomatch hdst
    · rw [Place.other_other] at hnone
      rw [hnone] at hexists
      exact nomatch hexists
  next heq =>
    cases heq
    rfl
  next heq => exact nomatch heq
  next => exact h.elim

theorem Safe.moving {all : Tables ρ} {s : State ρ} (h : Safe all s) {src dst : Place}
    {rest : List Suffix} {why : Move} (hpc : s.pc = .moving src dst rest why) (o : Outcome) :
    Safe all (go o s) := by
  have hknown := h.known
  unfold Known at hknown
  rw [hpc] at hknown
  obtain ⟨hmoved, hwhy⟩ := hknown
  have hends : src.IsEnd ∧ dst = src.other := by
    cases why with
    | restore => obtain ⟨rfl, rfl⟩ := hwhy; exact ⟨Or.inr rfl, rfl⟩
    | rollBack => obtain ⟨rfl, rfl⟩ := hwhy; exact ⟨Or.inr rfl, rfl⟩
    | setAside => obtain ⟨rfl, rfl, -⟩ := hwhy; exact ⟨Or.inl rfl, rfl⟩
    | olderAside => exact hwhy.elim
  obtain ⟨hsrc, rfl⟩ := hends
  unfold go
  rw [hpc]
  cases rest with
  | nil =>
      refine ⟨?_, h.events⟩
      cases why with
      | restore => obtain ⟨rfl, -⟩ := hwhy; exact Or.inr hmoved
      | rollBack => exact hmoved.split
      | setAside => obtain ⟨rfl, -, hcopied⟩ := hwhy; exact ⟨hmoved, hcopied⟩
      | olderAside => exact hwhy.elim
  | cons x rest =>
      dsimp only
      split
      next hexists =>
        split
        next =>
          -- what is moved so far stays where it is
          refine ⟨?_, h.events⟩
          cases why with
          | restore => exact Or.inr hmoved.split
          | rollBack => exact hmoved.split
          | setAside => exact ⟨hmoved.split, rfl, rfl⟩
          | olderAside => exact hwhy.elim
        next =>
          refine ⟨⟨hmoved.rename hsrc hexists, ?_⟩, ?_⟩
          · cases why with
            | setAside =>
                refine ⟨hwhy.1, hwhy.2.1, ?_⟩
                have hkeep : s.files.rename (.file src x) (.file src.other x) .enc =
                    s.files .enc := Files.rename_other _ nofun nofun
                exact hkeep.trans hwhy.2.2
            | _ => exact hwhy
          · intro e he
            dsimp only [State.rename, State.at_] at he
            split at he
            next hdst =>
              rcases List.mem_cons.1 he with rfl | hmem
              · right
                exact ⟨_, by rw [hmoved.target hsrc hexists hdst]⟩
              · exact h.events e hmem
            next => exact h.events e he
      next hnone => exact ⟨⟨hmoved.skip hsrc hnone, hwhy⟩, h.events⟩

/-- At every point the rows are in the encrypted database, or in the files of the plaintext one. -/
theorem Known.recoverable {all : Tables ρ} {s : State ρ} (h : Known all s) :
    InPlace all s.files ∨ ∃ m w, Split all s.files m w := by
  unfold Known at h
  cases hpc : s.pc with
  | idle last =>
      rw [hpc] at h
      cases last with
      | opened rows => exact Or.inl h.2
      | none => exact h
      | failed => exact h
  | opening =>
      rw [hpc] at h
      exact h.imp id fun ⟨p, hsplit⟩ => ⟨p, p, hsplit⟩
  | dropping rest => rw [hpc] at h; exact Or.inr ⟨_, _, h.1⟩
  | moving src dst rest why => rw [hpc] at h; exact Or.inr h.1.split
  | probing => rw [hpc] at h; exact h.imp id fun hsplit => ⟨_, _, hsplit⟩
  | probingPlain => rw [hpc] at h; exact Or.inr ⟨_, _, h⟩
  | switching => rw [hpc] at h; exact Or.inr ⟨_, _, h⟩
  | clearing expected => rw [hpc] at h; exact Or.inr ⟨_, _, h.1⟩
  | exporting expected => rw [hpc] at h; exact Or.inr ⟨_, _, h.1⟩
  | copying expected => rw [hpc] at h; exact Or.inr ⟨_, _, h.1⟩
  | verifying expected => rw [hpc] at h; exact Or.inr ⟨_, _, h.1⟩
  | checkingBackup => rw [hpc] at h; exact Or.inr ⟨_, _, h.1⟩
  | swapping => rw [hpc] at h; exact Or.inr ⟨_, _, h.1⟩
  | droppingEnc => rw [hpc] at h; exact Or.inr h
  | shredding rest why =>
      rw [hpc] at h
      cases why with
      | migrated => exact Or.inl h
      | discard rows => exact Or.inl h.2
  | removing x rest why =>
      rw [hpc] at h
      cases why with
      | migrated => exact Or.inl h
      | discard rows => exact Or.inl h.2
  | quarantining => rw [hpc] at h; exact h.elim
  | quarantiningRest rest => rw [hpc] at h; exact h.elim
  | finalOpening => rw [hpc] at h; exact Or.inl h
  | discarding rows => rw [hpc] at h; exact Or.inl h.2

theorem Safe.shredding {all : Tables ρ} {s : State ρ} (h : Safe all s)
    (hin : InPlace all s.files) (x : Suffix) (c : Option (Content ρ)) (pc : Pc ρ)
    (hpc : ∀ t : State ρ, t.pc = pc → InPlace all t.files → Known all t) :
    Safe all ((s.lose (.file .backup x) c).at_ pc) := by
  refine ⟨hpc _ rfl (hin.set c nofun nofun), ?_⟩
  intro e he
  rcases List.mem_cons.1 he with rfl | hmem
  · exact Or.inl hin
  · exact h.events e hmem

theorem Safe.go {all : Tables ρ} {s : State ρ} (h : Safe all s) (o : Outcome) :
    Safe all (go o s) := by
  have hknown := h.known
  unfold Known at hknown
  cases hpc : s.pc with
  | moving src dst rest why => exact h.moving hpc o
  | idle last =>
      unfold Encryption.go
      rw [hpc]
      exact h
  | opening =>
      rw [hpc] at hknown
      unfold Encryption.go
      rw [hpc]
      dsimp only
      split
      next hbackup =>
        refine ⟨?_, h.events⟩
        rcases hknown with hin | ⟨p, hsplit⟩
        · rw [(inPlace_iff.1 hin).1] at hbackup
          exact nomatch hbackup.1
        · rcases hsplit.ends.1 with rfl | rfl
          · obtain ⟨base, hbase, -⟩ := hsplit.rows
            rw [hbase] at hbackup
            exact nomatch hbackup.1
          · exact ⟨hsplit, by decide⟩
      next hnot =>
        refine ⟨?_, h.events⟩
        rcases hknown with hin | ⟨p, hsplit⟩
        · exact Or.inl hin
        · rcases hsplit.ends.1 with rfl | rfl
          · exact Or.inr hsplit
          · obtain ⟨base, hbase, -⟩ := hsplit.rows
            refine absurd ⟨?_, ?_⟩ hnot
            · exact (congrArg Option.isNone hsplit.noMain)
            · rw [hbase]; rfl
  | dropping rest =>
      rw [hpc] at hknown
      unfold Encryption.go
      rw [hpc]
      obtain ⟨hsplit, hmain⟩ := hknown
      cases rest with
      | nil => exact ⟨⟨⟨_, _, hsplit⟩, rfl, rfl⟩, h.events⟩
      | cons x rest =>
          have hrest : .main ∉ rest := fun hmem => hmain (List.mem_cons_of_mem _ hmem)
          dsimp only
          split
          next hstray =>
            cases x with
            | main => exact absurd List.mem_cons_self hmain
            | wal =>
                -- the `-wal` lies beside the backup
                have hnone : s.files (.file .db .wal) = none := hsplit.noWal
                rw [hnone] at hstray
                exact nomatch hstray.1
            | shm =>
                refine ⟨⟨hsplit.set none nofun nofun, hrest⟩, ?_⟩
                intro e he
                rcases List.mem_cons.1 he with rfl | hmem
                · exact Or.inr ⟨.db, rfl⟩
                · exact h.events e hmem
          next => exact ⟨⟨hsplit, hrest⟩, h.events⟩
  | probing =>
      rw [hpc] at hknown
      unfold Encryption.go
      rw [hpc]
      dsimp only
      rcases hknown with hin | hsplit
      · rw [if_neg (by rw [(inPlace_iff.1 hin).1]; exact nofun), hin]
        exact ⟨hin, h.events⟩
      · obtain ⟨base, hbase, -⟩ := hsplit.rows
        rw [if_neg (by rw [hbase]; exact nofun), hsplit.live]
        exact ⟨hsplit.close o, close_harmless h.events o .db⟩
  | probingPlain =>
      rw [hpc] at hknown
      unfold Encryption.go
      rw [hpc]
      dsimp only
      rw [Split.plaintext hknown]
      exact ⟨Split.close hknown o, close_harmless h.events o .db⟩
  | switching =>
      rw [hpc] at hknown
      have hclosed := Split.close hknown o
      unfold Encryption.go
      rw [hpc]
      dsimp only
      rw [hclosed.plaintext]
      exact ⟨⟨hclosed, rfl⟩, close_harmless h.events o .db⟩
  | clearing expected =>
      rw [hpc] at hknown
      unfold Encryption.go
      rw [hpc]
      dsimp only
      split
      next => exact ⟨hknown, h.events⟩
      next => exact ⟨⟨hknown.1.set none nofun nofun, hknown.2⟩, h.events⟩
  | exporting expected =>
      rw [hpc] at hknown
      unfold Encryption.go
      rw [hpc]
      dsimp only
      split
      next => exact ⟨⟨_, _, hknown.1⟩, h.events⟩
      next => exact ⟨⟨hknown.1.set _ nofun nofun, hknown.2⟩, h.events⟩
  | copying expected =>
      rw [hpc] at hknown
      unfold Encryption.go
      rw [hpc]
      dsimp only
      rw [hknown.1.plaintext]
      dsimp only
      let written : State ρ :=
        ⟨s.files.set .enc (some (.cipher all)), .verifying expected, s.events⟩
      have hcopied : Split all written.files .db .db := hknown.1.set _ nofun nofun
      refine ⟨?_, close_harmless (s := written) h.events o .db⟩
      unfold Known
      rw [close_pc]
      refine ⟨hcopied.close o, ?_⟩
      rw [Copied, close_enc]
      exact Files.set_same s.files .enc _
  | verifying expected =>
      rw [hpc] at hknown
      unfold Encryption.go
      rw [hpc]
      dsimp only
      rw [hknown.2]
      dsimp only
      split
      next => exact ⟨hknown, h.events⟩
      next => exact ⟨⟨_, _, hknown.1⟩, h.events⟩
  | checkingBackup =>
      rw [hpc] at hknown
      have hbackup : s.files (.file .backup .main) = none := hknown.1.noMain
      unfold Encryption.go
      rw [hpc]
      dsimp only
      rw [if_neg (by rw [hbackup]; exact nofun)]
      exact ⟨⟨⟨_, _, hknown.1⟩, rfl, rfl, hknown.2⟩, h.events⟩
  | swapping =>
      rw [hpc] at hknown
      obtain ⟨hsplit, hcopied⟩ := hknown
      have hmain : s.files (.file .db .main) = none := hsplit.noMain
      have hwal : s.files (.file .db .wal) = none := hsplit.noWal
      unfold Encryption.go
      rw [hpc]
      dsimp only
      split
      next => exact ⟨⟨⟨_, _, hsplit⟩, rfl, rfl⟩, h.events⟩
      next =>
        refine ⟨inPlace_iff.2 ⟨hcopied, hwal⟩, ?_⟩
        intro e he
        dsimp only [State.rename, State.at_] at he
        rw [hmain] at he
        exact h.events e he
  | droppingEnc =>
      rw [hpc] at hknown
      obtain ⟨m, w, hsplit⟩ := hknown
      unfold Encryption.go
      rw [hpc]
      dsimp only
      split
      next => exact ⟨Or.inr ⟨m, w, hsplit⟩, h.events⟩
      next => exact ⟨Or.inr ⟨m, w, hsplit.set none nofun nofun⟩, h.events⟩
  | shredding rest why =>
      rw [hpc] at hknown
      unfold Encryption.go
      rw [hpc]
      cases rest with
      | nil => cases why <;> exact ⟨hknown, h.events⟩
      | cons x rest =>
          dsimp only
          split
          next =>
            cases why with
            | migrated =>
                exact h.shredding hknown x _ _ fun t ht hin => by
                  rw [Known, ht]; exact hin
            | discard rows =>
                exact h.shredding hknown.2 x _ _ fun t ht hin => by
                  rw [Known, ht]; exact ⟨hknown.1, hin⟩
          next => cases why <;> exact ⟨hknown, h.events⟩
  | removing x rest why =>
      rw [hpc] at hknown
      unfold Encryption.go
      rw [hpc]
      dsimp only
      split
      next => cases why <;> exact ⟨hknown, h.events⟩
      next =>
        cases why with
        | migrated => exact h.shredding hknown x _ _ fun t ht hin => by rw [Known, ht]; exact hin
        | discard rows =>
            exact h.shredding hknown.2 x _ _ fun t ht hin => by
              rw [Known, ht]; exact ⟨hknown.1, hin⟩
  | quarantining =>
      rw [hpc] at hknown
      exact hknown.elim
  | quarantiningRest rest =>
      rw [hpc] at hknown
      exact hknown.elim
  | finalOpening =>
      rw [hpc] at hknown
      have hin : s.files.live = some all := hknown
      unfold Encryption.go
      rw [hpc]
      dsimp only
      rw [if_neg (by rw [(inPlace_iff.1 hknown).1]; exact nofun), hin]
      exact ⟨⟨rfl, hknown⟩, h.events⟩
  | discarding rows =>
      rw [hpc] at hknown
      obtain ⟨rfl, hin⟩ := hknown
      have hclosed : InPlace rows (s.close o .backup).files := by
        unfold State.close
        split
        · exact hin.checkpoint
        · exact hin
      unfold Encryption.go
      rw [hpc]
      dsimp only
      split
      next copied hcopied =>
        split
        all_goals exact ⟨⟨rfl, hclosed⟩, close_harmless h.events o .backup⟩
      next => exact ⟨⟨rfl, hin⟩, h.events⟩

theorem Safe.step {all : Tables ρ} {s : State ρ} (h : Safe all s) {a : Action}
    (ht : Together s a) : Safe all (step s a) := by
  cases a with
  | call =>
      unfold Encryption.step
      dsimp only
      split
      next last hpc =>
        refine ⟨?_, h.events⟩
        rcases h.known.recoverable with hin | ⟨m, w, hsplit⟩
        · exact Or.inl hin
        · exact Or.inr (together_of_call hsplit (ht ⟨last, hpc⟩))
      next => exact h
  | go o => exact h.go o
  | crash => exact ⟨h.known.recoverable, h.events⟩

/-! ## Every run -/

theorem safe_start (base : Tables ρ) (full : Option (Tables ρ)) (shm : Bool) :
    Safe (full.getD base) (State.start base full shm) := by
  refine ⟨Or.inr ⟨.db, .db, ⟨Or.inl rfl, Or.inl rfl⟩, rfl, rfl, base, rfl, ?_⟩, nofun⟩
  cases full with
  | none => exact Or.inl ⟨rfl, rfl⟩
  | some rows => exact Or.inr rfl

/-- **The switch loses no row.** In every run in which each call of `open_keyed` finds the plaintext
main file and its `-wal` under one name: the rows are at every point in the encrypted database or in
the files of the plaintext one; nothing but a `-shm` is removed or overwritten before the encrypted
database has all rows, none is quarantined and no empty one created; and a call that returns `Ok`
has opened all rows. -/
theorem switch_loses_no_row (base : Tables ρ) (full : Option (Tables ρ)) (shm : Bool)
    (actions : List Action)
    (htogether : Guarded step Together (State.start base full shm) actions) :
    let all := full.getD base
    let s := exec step (State.start base full shm) actions
    (InPlace all s.files ∨ ∃ m w, Split all s.files m w) ∧
    (∀ e ∈ s.events, e.Harmless all) ∧
    ∀ rows, s.pc = .idle (.opened rows) → rows = all := by
  intro all s
  have hsafe : Safe all s :=
    exec_invariant (fun _ _ h ha => h.step ha) (safe_start base full shm) htogether
  refine ⟨hsafe.known.recoverable, hsafe.events, fun rows hrows => ?_⟩
  have hknown := hsafe.known
  unfold Known at hknown
  rw [hrows] at hknown
  exact hknown.1

/-! ## Concrete switches -/

/-- Steps that work, with a `-wal` that stays. -/
def works (n : Nat) : List Action := List.replicate n (.go ⟨false, false, 0⟩)

theorem together_works (s : State ρ) (n : Nat) : Guarded step Together s (works n) := by
  induction n generalizing s with
  | zero => trivial
  | succ n ih => exact ⟨trivial, ih _⟩

/-- One row in the main file, another one in the `-wal`. -/
def someStart : State Nat := State.start [("t", [1])] (some [("t", [1, 2])]) true

/-- The program dies when all three files are set aside, and starts again. -/
def diesBeforeSwap : List Action := .call :: works 12 ++ .crash :: .call :: works 40

theorem switch_loses_no_row_after_crash :
    let s := exec step someStart diesBeforeSwap
    s.pc = .idle (.opened [("t", [1, 2])]) ∧
      ∀ rows, s.pc = .idle (.opened rows) → rows = [("t", [1, 2])] := by
  intro s
  have htogether : Guarded step Together someStart diesBeforeSwap := by
    rw [diesBeforeSwap, List.cons_append, guarded_cons, guarded_append]
    refine ⟨?_, together_works _ 12, trivial, ?_, together_works _ 40⟩
    · rintro - p q (rfl | rfl) (rfl | rfl) base full hmain hwal
      · rfl
      · exact nomatch hwal
      · exact nomatch hmain
      · rfl
    · rintro - p q (rfl | rfl) (rfl | rfl) base full hmain hwal
      · rfl
      · exact nomatch hmain
      · exact nomatch hwal
      · rfl
  have h := switch_loses_no_row [("t", [1])] (some [("t", [1, 2])]) true diesBeforeSwap htogether
  exact ⟨rfl, h.2.2⟩

/-- The program dies when the main file is set aside and the `-wal` is not, and starts again. -/
def diesBetweenFiles : List Action := .call :: works 10 ++ .crash :: .call :: works 40

/-- The second call removes the `-wal`, and opens a database without its row. -/
theorem stray_wal_is_removed :
    let s := exec step someStart diesBetweenFiles
    s.files.live = some [("t", [1])] ∧ s.pc = .idle (.opened [("t", [1])]) ∧
      .lost (.file .db .wal) none ∈ s.events := by
  refine ⟨rfl, rfl, ?_⟩
  exact List.mem_of_getElem? (i := 3) rfl

end AsterBridge.Db.Encryption
