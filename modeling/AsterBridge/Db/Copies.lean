import AsterBridge.Db.Startup

/-!
# Where copies of the database stand

Every file that holds a database, or pages of one, is `bridge.db`, its log, or an old copy by
`is_old_copy`; and every table is one of the schema or an `outbox` that was set aside. `Tidy` says
so, and that the marker of a deferred sign-out is there. Every operation of `db/mod.rs` keeps it,
and so does every start.
-/

set_option autoImplicit false

namespace AsterBridge.Db.Copies

open AsterBridge.Lib.Faults AsterBridge.Db.DataDir AsterBridge.Db.DataDir.World
open AsterBridge.Db.Startup

/-! ## Names -/

/-- A name under which a copy may stand; that of a shared memory is none. -/
def Placed (n : Name) : Prop :=
  n = live ∨ n = logOf live ∨ (isOldCopy live n = true ∧ n.getLast? ≠ some 'm')

/-- A name that begins with `bridge.db`. -/
def Own (n : Name) : Prop := ∃ rest, n = live ++ rest

/-- A name under which the files of a database may stand. -/
structure Base (n : Name) : Prop where
  own : Own n
  placed : Placed n
  log : Placed (logOf n)

theorem live_eq : live = ['b', 'r', 'i', 'd', 'g', 'e', '.', 'd', 'b'] := by decide

theorem isOldCopy_append {rest : Name} (hrest : rest ≠ []) :
    isOldCopy live (live ++ '.' :: rest) = true := by
  obtain ⟨c, cs, rfl⟩ := List.exists_cons_of_ne_nil hrest
  rw [live_eq]
  simp [isOldCopy]

theorem placed_copy {rest : Name} (hrest : rest ≠ []) (hlast : rest.getLast? ≠ some 'm') :
    Placed (live ++ '.' :: rest) := by
  right
  right
  refine ⟨isOldCopy_append hrest, ?_⟩
  obtain ⟨c, cs, rfl⟩ := List.exists_cons_of_ne_nil hrest
  rw [List.getLast?_append_of_ne_nil _ (List.cons_ne_nil _ _), List.getLast?_cons_cons]
  exact hlast

theorem not_placed_memoryOf (n : Name) : ¬Placed (memoryOf n) := by
  have hlast : (memoryOf n).getLast? = some 'm' := by
    unfold memoryOf siblingPath
    rw [List.getLast?_append_of_ne_nil _ (by decide)]
    decide
  intro h
  obtain h | h | h := h
  · rw [h] at hlast
    exact absurd hlast (by decide)
  · rw [h] at hlast
    exact absurd hlast (by decide)
  · exact h.2 hlast

theorem not_placed_marker : ¬Placed pendingClearMarker := by
  rintro (h | h | h)
  · exact absurd h (by decide)
  · exact absurd h (by decide)
  · exact absurd h.1 (by decide)

theorem base_live : Base live := ⟨⟨[], rfl⟩, Or.inl rfl, Or.inr (Or.inl rfl)⟩

/-- A copy that ends in no `m` is one with its log. -/
theorem base_copy {rest : Name} (hrest : rest ≠ []) (hlast : rest.getLast? ≠ some 'm') :
    Base (live ++ '.' :: rest) := by
  refine ⟨⟨_, rfl⟩, placed_copy hrest hlast, ?_⟩
  have hlog : logOf (live ++ '.' :: rest) = live ++ '.' :: (rest ++ "-wal".toList) := by
    simp [logOf, siblingPath]
  rw [hlog]
  apply placed_copy
  · simp [hrest]
  · rw [List.getLast?_append_of_ne_nil _ (by decide)]
    decide

theorem digits_ne_nil (stamp : Nat) : digits stamp ≠ [] := Nat.toDigits_ne_nil

theorem getLast?_digits (stamp : Nat) : (digits stamp).getLast? ≠ some 'm' := by
  intro h
  have hmem : 'm' ∈ Nat.toDigits 10 stamp := List.mem_of_getLast? h
  exact absurd (Nat.isDigit_of_mem_toDigits (by decide) (by decide) hmem) (by decide)

/-- A copy that is named after a time. -/
theorem base_stamped (words : Name) (stamp : Nat) : Base (live ++ '.' :: (words ++ digits stamp)) := by
  apply base_copy
  · simp [digits_ne_nil]
  · rw [List.getLast?_append_of_ne_nil _ (digits_ne_nil stamp)]
    exact getLast?_digits stamp

theorem base_plaintextBackup : Base (plaintextBackupPath live) := by
  have h : plaintextBackupPath live = live ++ '.' :: "plain".toList := by decide
  rw [h]
  exact base_copy (by decide) (by decide)

theorem base_encPath : Base encPath := by
  have h : encPath = live ++ '.' :: "enc".toList := by decide
  rw [h]
  exact base_copy (by decide) (by decide)

/-- The dot of `bridge.db` is the one that `with_extension` replaces. -/
theorem withExtension_live (extension : Name) :
    withExtension live ("db".toList ++ extension) = live ++ extension := by
  have hstem : fileStem live = "bridge".toList := by decide
  unfold withExtension
  rw [hstem]
  rfl

theorem not_isOldCopy_live : isOldCopy live live = false := by decide

theorem not_isOldCopy_log : isOldCopy live (logOf live) = false := by decide

theorem own_sibling {n : Name} (h : Own n) (suffix : Name) : Own (siblingPath n suffix) := by
  obtain ⟨rest, rfl⟩ := h
  exact ⟨rest ++ suffix, List.append_assoc _ _ _⟩

/-- The marker is none of the files of a database. -/
theorem Own.ne_marker {n : Name} (h : Own n) : n ≠ pendingClearMarker := by
  have hmarker : pendingClearMarker.head? = some 'u' := by decide
  obtain ⟨rest, rfl⟩ := h
  intro h
  rw [← h, live_eq] at hmarker
  simp at hmarker

theorem logOf_ne_marker (n : Name) : logOf n ≠ pendingClearMarker := by
  intro h
  have hlast := congrArg List.getLast? h
  unfold logOf siblingPath at hlast
  rw [List.getLast?_append_of_ne_nil _ (by decide)] at hlast
  exact absurd hlast (by decide)

theorem memoryOf_ne_marker (n : Name) : memoryOf n ≠ pendingClearMarker := by
  intro h
  have hlast := congrArg List.getLast? h
  unfold memoryOf siblingPath at hlast
  rw [List.getLast?_append_of_ne_nil _ (by decide)] at hlast
  exact absurd hlast (by decide)

/-! ## Files -/

section Files

variable {κ ρ : Type} {w : World κ ρ} {n m : Name} {c : Content κ ρ} {e : Name × Content κ ρ}

theorem mem_of_file (h : w.file n = some c) : (n, c) ∈ w.files := by
  obtain ⟨e, he, rfl⟩ := Option.map_eq_some_iff.mp h
  have hname : e.1 = n := by simpa using List.find?_some he
  rw [← hname]
  exact List.mem_of_find?_eq_some he

theorem mem_remove : e ∈ (w.remove n).files ↔ e ∈ w.files ∧ e.1 ≠ n := by
  simp [World.remove]

theorem mem_write : e ∈ (w.write n c).files ↔ e = (n, c) ∨ (e ∈ w.files ∧ e.1 ≠ n) := by
  simp [World.write, World.remove]

theorem file_write_self : (w.write n c).file n = some c := by
  simp [World.write, World.file]

theorem file_remove_of_ne (h : m ≠ n) : (w.remove n).file m = w.file m := by
  unfold World.remove World.file
  rw [List.find?_filter]
  congr 2
  funext e
  by_cases he : e.1 = m
  · simp [he, h]
  · simp [he]

theorem file_write_of_ne (h : m ≠ n) : (w.write n c).file m = w.file m := by
  have hfind : (w.write n c).file m = (w.remove n).file m := by
    simp [World.write, World.file, Ne.symm h]
  rw [hfind, file_remove_of_ne h]

/-- What is written does not take a file away. -/
theorem clearPending_write (h : clearPending w = true) : clearPending (w.write n c) = true := by
  unfold clearPending
  by_cases hn : pendingClearMarker = n
  · rw [hn, file_write_self]
    rfl
  · rw [file_write_of_ne hn]
    exact h

theorem clearPending_remove (hn : n ≠ pendingClearMarker) :
    clearPending (w.remove n) = clearPending w := by
  unfold clearPending
  rw [file_remove_of_ne hn.symm]

/-- The tables that a connection sees stand in one of the files. -/
theorem recover_mem {key : Option κ} {ts : Tables ρ} (h : w.recover n = some (key, ts)) :
    (∃ own, (n, Content.database key own) ∈ w.files) ∧ ∃ e ∈ w.files, e.2.tables = ts := by
  unfold World.recover at h
  split at h
  · rename_i own hfile
    have hmain := mem_of_file hfile
    split at h
    · rename_i full hlog
      cases h
      exact ⟨⟨own, hmain⟩, _, mem_of_file hlog, rfl⟩
    · cases h
      exact ⟨⟨_, hmain⟩, _, hmain, rfl⟩
  · cases h

end Files

theorem file_isSome {κ ρ : Type} {w : World κ ρ} {n : Name} {e : Name × Content κ ρ}
    (he : e ∈ w.files) (hname : e.1 = n) : (w.file n).isSome = true := by
  unfold World.file
  rw [Option.isSome_map, List.find?_isSome]
  exact ⟨e, he, by simpa using hname⟩

/-! ## The invariant -/

/-- A table of the schema, or one that was set aside. -/
def Known (name : String) : Prop := name ∈ schemaTables ∨ ∃ stamp, name = asideTable stamp

/-- Copies stand where the wipe looks for them, the tables have known names and, where `marked`
says so, the marker of a deferred sign-out is there. -/
structure Tidy {κ ρ : Type} (marked : Bool) (w : World κ ρ) : Prop where
  placed : ∀ e ∈ w.files, e.2.isCopy = true → Placed e.1
  known : ∀ e ∈ w.files, ∀ t ∈ e.2.tables, Known t.name
  pending : marked = true → clearPending w = true

section Worlds

variable {κ ρ : Type} {w : World κ ρ} {n : Name} {c : Content κ ρ} {marked : Bool}

theorem Tidy.unmarked (h : Tidy marked w) : Tidy false w := ⟨h.placed, h.known, nofun⟩

theorem Tidy.remove_unmarked (h : Tidy marked w) : Tidy false (w.remove n) := by
  refine ⟨?_, ?_, nofun⟩
  · intro e he
    exact h.placed e (mem_remove.mp he).1
  · intro e he
    exact h.known e (mem_remove.mp he).1

theorem Tidy.remove (h : Tidy marked w) (hn : n ≠ pendingClearMarker) :
    Tidy marked (w.remove n) := by
  have hunmarked : Tidy false (w.remove n) := h.remove_unmarked
  refine ⟨hunmarked.placed, hunmarked.known, ?_⟩
  intro hm
  rw [clearPending_remove hn]
  exact h.pending hm

theorem Tidy.write (h : Tidy marked w) (hplaced : c.isCopy = true → Placed n)
    (hknown : ∀ t ∈ c.tables, Known t.name) : Tidy marked (w.write n c) := by
  refine ⟨?_, ?_, ?_⟩
  · intro e he
    obtain rfl | he := mem_write.mp he
    · exact hplaced
    · exact h.placed e he.1
  · intro e he
    obtain rfl | he := mem_write.mp he
    · exact hknown
    · exact h.known e he.1
  · intro hm
    exact clearPending_write (h.pending hm)

/-- The marker is written. -/
theorem Tidy.mark (h : Tidy marked w) : Tidy true (w.write pendingClearMarker .blank) := by
  have hwritten : Tidy marked (w.write pendingClearMarker .blank) :=
    h.write nofun (by simp [Content.tables])
  refine ⟨hwritten.placed, hwritten.known, fun _ => ?_⟩
  unfold clearPending
  rw [file_write_self]
  rfl

theorem Tidy.tablesAt (h : Tidy marked w) : ∀ t ∈ w.tablesAt n, Known t.name := by
  unfold World.tablesAt
  cases hr : w.recover n with
  | none => simp
  | some r =>
      obtain ⟨-, e, he, hts⟩ := recover_mem hr
      intro t ht
      apply h.known e he
      rw [hts]
      exact ht

theorem Tidy.close (h : Tidy marked w) (checkpoints : Bool) :
    Tidy marked (w.close n checkpoints) := by
  unfold World.close
  split
  · rename_i key ts hr
    obtain ⟨⟨own, hmain⟩, e, he, hts⟩ := recover_mem hr
    apply Tidy.remove _ (memoryOf_ne_marker n)
    apply Tidy.remove _ (logOf_ne_marker n)
    apply h.write
    · intro _
      exact h.placed _ hmain rfl
    · rw [← hts] at *
      exact h.known e he
  · exact h

theorem Tidy.store (h : Tidy marked w) (key : κ) (checkpoints : Bool) {ts : Tables ρ}
    (hts : ∀ t ∈ ts, Known t.name) : Tidy marked (w.store key checkpoints ts) := by
  have hlog : Placed (logOf live) := base_live.log
  unfold World.store
  split
  · apply Tidy.write _ (fun _ => hlog) hts
    apply h.write (fun _ => base_live.placed)
    exact hts
  · apply h.write (fun _ => hlog)
    exact hts

theorem Tidy.truncateLog (h : Tidy marked w) (key : κ) : Tidy marked (w.truncateLog key) := by
  unfold World.truncateLog
  apply Tidy.write
  · exact h.write (fun _ => base_live.placed) h.tablesAt
  · nofun
  · simp [Content.tables]

end Worlds

/-! ## Operations -/

section Operations

variable {κ ρ α : Type} {marked : Bool} {n src dst : Name} {I : World κ ρ → Prop}

theorem keeps_fileExists (n : Name) : Prog.Keeps I (fileExists n) := Prog.keeps_look _

theorem keeps_unixMillis : Prog.Keeps I (unixMillis : Run κ ρ Nat) :=
  Prog.keeps_operation fun _ _ hw => hw

theorem keeps_ask (f : World κ ρ → α) : Prog.Keeps I (ask f) := by
  apply Prog.keeps_atomic
  intro t w a w' hw heq
  cases heq
  exact hw

theorem keeps_pragma : Prog.Keeps I (pragma : Run κ ρ Unit) := by
  apply Prog.keeps_atomic
  intro t w a w' hw heq
  cases heq
  exact hw

theorem keeps_ignore {p : Run κ ρ Unit} (h : Prog.Keeps I p) : Prog.Keeps I (ignore p) :=
  h.attempt.bind fun _ => Prog.keeps_pure _

theorem keeps_readDir : Prog.Keeps I (readDir : Run κ ρ (List Name)) := by
  apply Prog.keeps_atomic
  intro t w a w' hw heq
  cases heq
  exact hw

theorem keeps_query (f : World κ ρ → α) : Prog.Keeps (Tidy marked) (query n f) := by
  apply Prog.keeps_atomic
  intro t w a w' hw heq
  cases heq
  exact hw.close _

theorem keeps_closeConnection :
    Prog.Keeps (Tidy marked) (closeConnection n : Run κ ρ Unit) :=
  Prog.keeps_operation fun _ _ hw => hw.close _

/-- To remove a file keeps what the file system without it keeps. -/
theorem keeps_removal (h : ∀ w : World κ ρ, I w → I (w.remove n)) :
    Prog.Keeps I (removeFile n) := by
  apply Prog.keeps_atomic
  intro t w a w' hw heq
  split at heq
  · cases heq
  · cases heq
    exact h w hw

theorem keeps_removeFile (hn : n ≠ pendingClearMarker) :
    Prog.Keeps (Tidy marked) (removeFile n : Run κ ρ Unit) :=
  keeps_removal fun _ hw => hw.remove hn

/-- A file is renamed to a name where it may stand, if it may stand where it is. -/
theorem keeps_renameFile (hsrc : src ≠ pendingClearMarker) (hdst : Placed src → Placed dst) :
    Prog.Keeps (Tidy marked) (renameFile src dst : Run κ ρ Unit) := by
  apply Prog.keeps_atomic
  intro t w a w' hw heq
  split at heq
  · cases heq
  · rename_i c hfile
    cases heq
    have hmem := mem_of_file hfile
    apply (hw.remove hsrc).write
    · intro hcopy
      exact hdst (hw.placed _ hmem hcopy)
    · exact hw.known _ hmem

theorem keeps_writeFile {c : World κ ρ → Content κ ρ} (hplaced : Placed n)
    (hknown : ∀ w, Tidy marked w → ∀ t ∈ (c w).tables, Known t.name) :
    Prog.Keeps (Tidy marked) (writeFile n c) := by
  apply Prog.keeps_atomic
  intro t w a w' hw heq
  cases heq
  exact hw.write (fun _ => hplaced) (hknown w hw)

theorem keeps_bestEffortOverwrite (h : ∀ w : World κ ρ, I w → I (w.write n .other)) :
    Prog.Keeps I (bestEffortOverwrite n) := by
  apply Prog.keeps_operation
  intro t w hw
  dsimp only
  split
  · exact h w hw
  · exact hw

/-- The statement leaves tables of known names. -/
def KeepsKnown (f : Tables ρ → Except String (Tables ρ)) : Prop :=
  ∀ ts ts', (∀ t ∈ ts, Known t.name) → f ts = .ok ts' → ∀ t ∈ ts', Known t.name

theorem keeps_commit (key : κ) {f : Tables ρ → Except String (Tables ρ)} (hf : KeepsKnown f) :
    Prog.Keeps (Tidy marked) (commit key f) := by
  apply Prog.keeps_atomic
  intro t w a w' hw heq
  split at heq
  · cases heq
  · rename_i ts hts
    cases heq
    exact hw.store key _ (hf _ ts hw.tablesAt hts)

/-- The files of a database are moved to names where they may stand. -/
theorem keeps_moveDbFiles (hsrc : Own src) (hdst : Base dst) :
    Prog.Keeps (Tidy marked) (moveDbFiles src dst : Run κ ρ Unit) := by
  apply Prog.keeps_each
  intro suffix hsuffix
  refine (keeps_fileExists _).bind fun present => ?_
  refine Prog.keeps_only fun _ => ?_
  apply keeps_renameFile (own_sibling hsrc suffix).ne_marker
  simp only [dbFileSuffixes, List.mem_cons, List.not_mem_nil, or_false] at hsuffix
  obtain rfl | rfl | rfl := hsuffix
  · intro _
    have hname : siblingPath dst "".toList = dst := List.append_nil dst
    rw [hname]
    exact hdst.placed
  · intro _
    exact hdst.log
  · intro hplaced
    exact absurd hplaced (not_placed_memoryOf src)

/-- To shred files keeps what both of its operations keep. -/
theorem keeps_shredEach {names : List Name}
    (hremove : ∀ n ∈ names, ∀ w : World κ ρ, I w → I (w.remove n))
    (hwrite : ∀ n ∈ names, ∀ w : World κ ρ, I w → I (w.write n .other)) :
    Prog.Keeps I (shredEach names) := by
  induction names with
  | nil => exact Prog.keeps_pure _
  | cons n names ih =>
      have hrest : Prog.Keeps I (shredEach names : Run κ ρ (List String)) :=
        ih (fun m hm => hremove m (List.mem_cons_of_mem _ hm))
          fun m hm => hwrite m (List.mem_cons_of_mem _ hm)
      refine (keeps_fileExists n).bind fun present => ?_
      refine Prog.keeps_ite (fun _ => ?_) fun _ => hrest
      refine (keeps_bestEffortOverwrite (hwrite n List.mem_cons_self)).bind fun _ => ?_
      refine (keeps_removal (hremove n List.mem_cons_self)).attempt.bind fun result => ?_
      cases result with
      | ok _ => exact hrest
      | error e => exact hrest.bind fun failed => Prog.keeps_pure _

theorem Tidy.overwrite {w : World κ ρ} (h : Tidy marked w) : Tidy marked (w.write n .other) :=
  h.write nofun (by simp [Content.tables])

theorem keeps_shred {names : List Name} (h : ∀ n ∈ names, n ≠ pendingClearMarker) :
    Prog.Keeps (Tidy marked) (shred names : Run κ ρ Unit) := by
  refine (keeps_shredEach ?_ ?_).bind fun failed => ?_
  · intro n hn w hw
    exact hw.remove (h n hn)
  · intro n hn w hw
    exact hw.overwrite
  · exact Prog.keeps_ite (fun _ => Prog.keeps_pure _) fun _ => Prog.keeps_fail _

theorem keeps_shredDbFiles (hn : Own n) :
    Prog.Keeps (Tidy marked) (shredDbFiles n : Run κ ρ Unit) := by
  apply keeps_shred
  intro m hm
  obtain ⟨suffix, -, rfl⟩ := List.mem_map.mp hm
  exact (own_sibling hn suffix).ne_marker

end Operations

/-! ## Statements -/

section Statements

variable {ρ : Type}

theorem keepsKnown_change {name : String} {f : Table ρ → Except String (Table ρ)}
    (hf : ∀ t t', Known t.name → f t = .ok t' → Known t'.name) :
    KeepsKnown (Tables.change name f) := by
  intro ts ts' hts heq
  unfold Tables.change at heq
  split at heq
  · cases heq
  · rename_i t hget
    split at heq
    · cases heq
    · rename_i t' ht'
      cases heq
      intro u hu
      obtain ⟨old, hold, rfl⟩ := List.mem_map.mp hu
      split
      · exact hf t t' (hts t (List.mem_of_find?_eq_some hget)) ht'
      · exact hts old hold

theorem keepsKnown_create {name : String} (columns : List String) (hname : Known name) :
    KeepsKnown fun ts : Tables ρ => .ok (ts.create name columns) := by
  intro ts ts' hts heq
  cases heq
  unfold Tables.create
  split
  · exact hts
  · intro t ht
    obtain ht | ht := List.mem_append.mp ht
    · exact hts t ht
    · rw [List.mem_singleton.mp ht]
      exact hname

theorem keepsKnown_addColumn (name column : String) :
    KeepsKnown (Tables.addColumn name column : Tables ρ → _) := by
  apply keepsKnown_change
  intro t t' ht heq
  split at heq
  · cases heq
  · cases heq
    exact ht

theorem keepsKnown_update (name : String) (columns : List String) (f : List ρ → List ρ) :
    KeepsKnown (Tables.update name columns f) := by
  apply keepsKnown_change
  intro t t' ht heq
  split at heq
  · cases heq
    exact ht
  · cases heq

theorem keepsKnown_rename (name : String) {dst : String} (hdst : Known dst) :
    KeepsKnown (Tables.rename name dst : Tables ρ → _) := by
  intro ts ts' hts heq
  unfold Tables.rename at heq
  split at heq
  · cases heq
  · refine keepsKnown_change ?_ ts ts' hts heq
    intro t t' _ heq
    cases heq
    exact hdst

/-- A statement of the schema names only tables of the schema. -/
theorem keepsKnown_apply (rewrite : String → List ρ → List ρ) (x : Statement)
    (hx : x.table ∈ schemaTables) : KeepsKnown (x.apply rewrite) := by
  cases x with
  | create t columns => exact keepsKnown_create columns (Or.inl hx)
  | add t column => exact keepsKnown_addColumn t column
  | index t columns => exact keepsKnown_update t columns id
  | update t columns => exact keepsKnown_update t columns (rewrite t)

end Statements

/-! ## A start -/

section Start

variable {κ ρ : Type} {marked : Bool} (key : κ) (rewrite : String → List ρ → List ρ)

theorem keeps_run {x : Statement} (hx : x.table ∈ schemaTables) :
    Prog.Keeps (Tidy marked) (x.run rewrite key : Run κ ρ Unit) := by
  have hcommit : Prog.Keeps (Tidy marked) (commit key (x.apply rewrite)) :=
    keeps_commit key (keepsKnown_apply rewrite x hx)
  cases x with
  | create t columns => exact hcommit
  | add t column => exact keeps_ignore hcommit
  | index t columns => exact hcommit
  | update t columns => exact hcommit

theorem mem_schemaTables {x : Statement} (hx : x ∈ schemaBefore ++ schemaAfter) :
    x.table ∈ schemaTables :=
  List.mem_dedup.mpr (List.mem_map.mpr ⟨x, hx, rfl⟩)

/-- The table that is set aside has the name of one. -/
theorem keeps_repairOutboxTable :
    Prog.Keeps (Tidy marked) (repairOutboxTable rewrite key : Run κ ρ Unit) := by
  refine (keeps_ask _).bind fun columns => ?_
  refine Prog.keeps_ite (fun _ => ?_) fun _ => ?_
  · apply Prog.keeps_each
    intro c _
    refine Prog.keeps_only fun _ => ?_
    exact keeps_commit key (keepsKnown_addColumn "outbox" c)
  · refine keeps_unixMillis.bind fun stamp => ?_
    have haside : Known (asideTable stamp) := Or.inr ⟨stamp, rfl⟩
    refine (keeps_commit key (keepsKnown_rename "outbox" haside)).bind fun _ => ?_
    exact keeps_run key rewrite (mem_schemaTables (by decide))

theorem keeps_verifyRequiredColumns :
    Prog.Keeps (Tidy marked) (verifyRequiredColumns : Run κ ρ Unit) := by
  apply Prog.keeps_each
  intro e _
  refine (keeps_ask _).bind fun columns => ?_
  exact Prog.keeps_ite (fun _ => Prog.keeps_pure _) fun _ => Prog.keeps_fail _

theorem keeps_prepareSchema :
    Prog.Keeps (Tidy marked) (prepareSchema rewrite key : Run κ ρ Unit) := by
  refine (Prog.keeps_each fun _ _ => keeps_pragma).bind fun _ => ?_
  refine (Prog.keeps_each fun x hx => ?_).bind fun _ => ?_
  · exact keeps_run key rewrite (mem_schemaTables (List.mem_append_left _ hx))
  refine (keeps_repairOutboxTable key rewrite).bind fun _ => ?_
  refine (Prog.keeps_each fun x hx => ?_).bind fun _ => ?_
  · exact keeps_run key rewrite (mem_schemaTables (List.mem_append_right _ hx))
  exact keeps_verifyRequiredColumns

theorem keeps_restorePlaintextBackup :
    Prog.Keeps (Tidy marked) (restorePlaintextBackup : Run κ ρ Unit) := by
  refine Prog.Keeps.bind (Prog.keeps_each fun suffix _ => ?_) fun _ => ?_
  · refine (keeps_fileExists _).bind fun stray => ?_
    refine (keeps_fileExists _).bind fun kept => ?_
    refine Prog.keeps_only fun _ => ?_
    exact keeps_ignore (keeps_removeFile (own_sibling base_live.own suffix).ne_marker)
  · exact keeps_moveDbFiles base_plaintextBackup.own base_live

theorem keeps_removeEnc : Prog.Keeps (Tidy marked) (ignore (removeFile encPath) : Run κ ρ Unit) :=
  keeps_ignore (keeps_removeFile base_encPath.own.ne_marker)

theorem keeps_dropEnc (e : String) : Prog.Keeps (Tidy marked) (dropEnc e : Run κ ρ Unit) :=
  keeps_removeEnc.bind fun _ => Prog.keeps_fail e

theorem keeps_exportEncrypted :
    Prog.Keeps (Tidy marked) (exportEncrypted key : Run κ ρ Unit) := by
  refine Prog.Keeps.bind ?_ fun _ => ?_
  · exact keeps_writeFile base_encPath.placed fun w hw => hw.tablesAt
  · exact keeps_writeFile base_encPath.placed fun w hw => hw.tablesAt

/-- The plaintext files come back where the switch fails. -/
theorem keeps_swapFiles : Prog.Keeps (Tidy marked) (swapFiles : Run κ ρ Unit) := by
  have hback : Prog.Keeps (Tidy marked)
      (ignore (moveDbFiles (plaintextBackupPath live) live) : Run κ ρ Unit) :=
    keeps_ignore (keeps_moveDbFiles base_plaintextBackup.own base_live)
  refine Prog.Keeps.bind (Prog.Keeps.attempt ?_) fun moved => ?_
  · exact keeps_moveDbFiles base_live.own base_plaintextBackup
  cases moved with
  | error e => exact hback.bind fun _ => keeps_dropEnc _
  | ok _ =>
      refine Prog.Keeps.bind (Prog.Keeps.attempt ?_) fun renamed => ?_
      · exact keeps_renameFile base_encPath.own.ne_marker fun _ => base_live.placed
      cases renamed with
      | error e => exact hback.bind fun _ => keeps_dropEnc _
      | ok _ => exact keeps_ignore (keeps_shredDbFiles base_plaintextBackup.own)

theorem keeps_replacePlaintext : Prog.Keeps (Tidy marked) (replacePlaintext : Run κ ρ Unit) := by
  refine (keeps_fileExists _).bind fun older => ?_
  refine Prog.keeps_ite (fun _ => ?_) fun _ => keeps_swapFiles
  refine keeps_unixMillis.bind fun stamp => ?_
  have haside : Base (siblingPath live (".plain.".toList ++ digits stamp)) :=
    base_stamped "plain.".toList stamp
  refine (keeps_moveDbFiles base_plaintextBackup.own haside).attempt.bind fun moved => ?_
  cases moved with
  | error e => exact keeps_dropEnc _
  | ok _ => exact keeps_swapFiles

theorem keeps_quarantineUnreadableDb :
    Prog.Keeps (Tidy marked) (quarantineUnreadableDb : Run κ ρ Unit) := by
  refine keeps_unixMillis.bind fun stamp => ?_
  refine (keeps_fileExists _).bind fun present => ?_
  have hdest : Base (withExtension live ("db.unreadable.".toList ++ digits stamp)) := by
    have hname := withExtension_live (".unreadable.".toList ++ digits stamp)
    exact hname ▸ base_stamped "unreadable.".toList stamp
  have hwal : withExtension live "db-wal".toList ≠ pendingClearMarker := by decide
  have hshm : withExtension live "db-shm".toList ≠ pendingClearMarker := by decide
  refine (Prog.keeps_only fun _ => ?_).bind fun _ => ?_
  · exact keeps_renameFile base_live.own.ne_marker fun _ => hdest.placed
  refine (keeps_ignore (keeps_removeFile hwal)).bind fun _ => ?_
  exact keeps_ignore (keeps_removeFile hshm)

theorem keeps_quarantineIncompatibleDb :
    Prog.Keeps (Tidy marked) (quarantineIncompatibleDb : Run κ ρ Unit) := by
  refine keeps_unixMillis.bind fun stamp => ?_
  have hdest : Base (withExtension live ("db.incompatible.".toList ++ digits stamp)) := by
    have hname := withExtension_live (".incompatible.".toList ++ digits stamp)
    exact hname ▸ base_stamped "incompatible.".toList stamp
  refine Prog.Keeps.bind (keeps_renameFile base_live.own.ne_marker fun _ => hdest.placed) ?_
  intro _
  apply Prog.keeps_each
  intro suffix hsuffix
  refine (keeps_fileExists _).bind fun present => ?_
  refine Prog.keeps_only fun _ => keeps_ignore ?_
  apply keeps_renameFile (own_sibling base_live.own suffix).ne_marker
  simp only [List.mem_cons, List.not_mem_nil, or_false] at hsuffix
  obtain rfl | rfl := hsuffix
  · intro _
    exact hdest.log
  · intro hplaced
    exact absurd hplaced (not_placed_memoryOf live)

variable [DecidableEq κ]

theorem keeps_migratePlaintextToEncrypted :
    Prog.Keeps (Tidy marked) (migratePlaintextToEncrypted key : Run κ ρ Unit) := by
  refine (keeps_ask _).bind fun plain => ?_
  refine Prog.keeps_ite (fun _ => ?_) fun _ => Prog.keeps_fail _
  have hlog : Prog.Keeps (Tidy marked) (leaveLog : Run κ ρ Unit) := by
    apply Prog.keeps_atomic
    intro t w a w' hw heq
    cases heq
    exact hw.close true
  refine (keeps_ignore hlog).bind fun _ => ?_
  refine (keeps_ask _).bind fun expected => ?_
  refine keeps_removeEnc.bind fun _ => ?_
  refine (keeps_exportEncrypted key).attempt.bind fun exported => ?_
  refine keeps_closeConnection.bind fun _ => ?_
  cases exported with
  | error e => exact keeps_dropEnc _
  | ok _ =>
      refine (keeps_query _).attempt.bind fun verified => ?_
      split
      · exact keeps_replacePlaintext
      · exact keeps_dropEnc _

theorem keeps_discardCopiedPlaintextBackup :
    Prog.Keeps (Tidy marked) (discardCopiedPlaintextBackup : Run κ ρ Unit) := by
  refine (keeps_fileExists _).bind fun present => ?_
  refine Prog.keeps_ite (fun _ => ?_) fun _ => Prog.keeps_pure _
  refine (keeps_query _).attempt.bind fun backup => ?_
  split
  · refine (Prog.keeps_look _).bind fun held => ?_
    refine Prog.keeps_only fun _ => ?_
    exact keeps_ignore (keeps_shredDbFiles base_plaintextBackup.own)
  · exact Prog.keeps_pure _

theorem keeps_connect : Prog.Keeps (Tidy marked) (connect key : Run κ ρ Unit) := by
  apply Prog.keeps_atomic
  intro t w a w' hw heq
  split at heq
  · cases heq
    split
    · exact hw
    · exact hw.remove (logOf_ne_marker live)
  · cases heq

theorem keeps_replaceUnreadable :
    Prog.Keeps (Tidy marked) (replaceUnreadable key : Run κ ρ Unit) := by
  refine (keeps_fileExists _).bind fun present => ?_
  refine Prog.keeps_ite (fun _ => ?_) fun _ => Prog.keeps_pure _
  refine (keeps_query _).bind fun readable => ?_
  refine Prog.keeps_ite (fun _ => Prog.keeps_pure _) fun _ => ?_
  refine (keeps_query _).bind fun plain => ?_
  exact Prog.keeps_ite (fun _ => keeps_migratePlaintextToEncrypted key)
    fun _ => keeps_quarantineUnreadableDb

theorem keeps_openKeyed : Prog.Keeps (Tidy marked) (openKeyed key : Run κ ρ Unit) := by
  refine (keeps_fileExists _).bind fun present => ?_
  refine (keeps_fileExists _).bind fun backup => ?_
  refine (Prog.keeps_only fun _ => keeps_restorePlaintextBackup).bind fun _ => ?_
  refine (keeps_replaceUnreadable key).bind fun _ => ?_
  refine (keeps_connect key).bind fun _ => ?_
  exact keeps_discardCopiedPlaintextBackup

/-- **A start keeps the copies where they may stand**, however far it comes. -/
theorem keeps_openWithKey : Prog.Keeps (Tidy marked) (openWithKey key rewrite : Run κ ρ Unit) := by
  refine (keeps_openKeyed key).bind fun _ => ?_
  refine Prog.Keeps.bind ?_ fun _ => ?_
  · refine (keeps_prepareSchema key rewrite).attempt.bind fun prepared => ?_
    cases prepared with
    | ok _ => exact Prog.keeps_pure _
    | error e =>
        refine keeps_closeConnection.bind fun _ => ?_
        refine keeps_quarantineIncompatibleDb.bind fun _ => ?_
        refine (keeps_openKeyed key).bind fun _ => ?_
        exact keeps_prepareSchema key rewrite
  · apply Prog.keeps_modify
    intro w hw
    exact ⟨hw.placed, hw.known, hw.pending⟩

end Start

end AsterBridge.Db.Copies
