import AsterBridge.Db.Copies

/-!
# Signing out

`clear_all_user_data` empties the tables of a list, then the log, and shreds the old copies of the
database by the pattern of their names; `clear_user_data_or_defer` leaves a marker for the next
start unless that came to its end. A table that `repair_outbox_table` has set aside is on no list:
`sign_out_leaves_nothing_iff`.
-/

set_option autoImplicit false

namespace AsterBridge.Db.SignOut

open AsterBridge.Lib AsterBridge.Lib.Faults AsterBridge.Db.DataDir AsterBridge.Db.DataDir.World
open AsterBridge.Db.Startup AsterBridge.Db.Copies

variable {κ ρ : Type}

/-- `USER_DATA_TABLES` -/
def userDataTables : List String :=
  ["message_cache", "message_keywords", "message_tag", "custom_tag", "custom_tag_alias",
    "builtin_tag_slot", "custom_folder", "message_attachment", "message_fts", "uid_map",
    "app_passwords", "sync_state", "jmap_mailbox", "jmap_state", "jmap_change_log", "jmap_blob",
    "envelope_nonces", "recipient_key_pin", "outbox", "pending_flag_push", "sqlite_sequence"]

/-- The tables of `HISTORY_CLEAR_SQL`. -/
def historyTables : List String := ["listing_member", "history_prune_queue", "history_retry"]

/-- The tables that the wipe empties. -/
def wipedTables : List String := userDataTables ++ historyTables

/-- `DELETE FROM` the tables of a list. -/
def deleteFromAll : List String → Tables ρ → Except String (Tables ρ)
  | [], ts => .ok ts
  | name :: names, ts =>
      match Tables.deleteFrom name ts with
      | .error e => .error e
      | .ok ts' => deleteFromAll names ts'

/-- The transaction of `clear_all_user_data`; to optimize the full-text index, it has to be there. -/
def wipe (ts : Tables ρ) : Except String (Tables ρ) :=
  match deleteFromAll wipedTables ts with
  | .error e => .error e
  | .ok ts' => Tables.update "message_fts" [] id ts'

section Clear

variable (key : κ)

/-- `scrub_free_space`: `VACUUM` writes the database to the log, the checkpoint empties it. -/
def scrubFreeSpace : Run κ ρ Unit := do
  pragma
  commit key .ok
  let busy ← Prog.atomic fun t w => .ok (t.choice, if t.choice then w else w.truncateLog key)
  if busy then Prog.fail "the database is busy, so its log could not be emptied" else pure ()

/-- `clear_all_user_data`, without the caches in memory. -/
def clearAllUserData : Run κ ρ Unit := do
  commit key wipe
  scrubFreeSpace key
  removeOldCopies
  Prog.modify fun w => { w with wiped := w.wiped + 1 }

/-- `CLEAR_ATTEMPTS` -/
def clearAttempts : Nat := 5

/-- The attempts of `clear_user_data_or_defer`. -/
def clearOrDefer (marked : Bool) : Nat → String → Run κ ρ Unit
  | 0, lastError => Prog.fail lastError
  | attempts + 1, _ => do
      match ← (clearAllUserData key).attempt with
      | .ok _ => Prog.only marked (removeFile pendingClearMarker)
      | .error e => clearOrDefer marked attempts e

/-- `clear_user_data_or_defer` -/
def clearUserDataOrDefer : Run κ ρ Unit := do
  match ← (writeFile pendingClearMarker fun _ => .blank).attempt with
  | .ok _ => clearOrDefer key true clearAttempts ""
  | .error _ => clearOrDefer key false clearAttempts ""

/-- `finish_pending_clear` -/
def finishPendingClear : Run κ ρ Bool := do
  if ← fileExists pendingClearMarker then
    clearAllUserData key
    removeFile pendingClearMarker
    pure true
  else pure false

/-- Rows are written; which, the rest of the program decides. -/
def writeRows (f : String → List ρ → List ρ) : Run κ ρ Unit :=
  commit key fun ts => .ok (ts.map fun t => { t with rows := f t.name t.rows })

end Clear

/-! ## Runs of the program -/

/-- What the program and its user do. -/
inductive Act (κ ρ : Type) where
  | start (key : κ) (rewrite : String → List ρ → List ρ)
  | finish
  | write (f : String → List ρ → List ρ)
  | clear
  | signOut
  | stop
  /-- from now on these entries of the directory cannot be read -/
  | unreadable (names : List Name)

/-- What is left when a program has ended; a process that died has no connection. -/
def settle {α : Type} (o : Outcome (World κ ρ) α) : World κ ρ :=
  match o.exit with
  | .died => { o.state with conn := none }
  | _ => o.state

/-- One act, with what the world does to its operations. -/
def step [DecidableEq κ] (w : World κ ρ) (a : Act κ ρ × List Turn) : World κ ρ :=
  match a.1, w.conn with
  | .start key rewrite, none => settle (openWithKey key rewrite w a.2)
  | .finish, some key => settle (finishPendingClear key w a.2)
  | .write f, some key => settle (writeRows key f w a.2)
  | .clear, some key => settle (clearAllUserData key w a.2)
  | .signOut, some key => settle (clearUserDataOrDefer key w a.2)
  | .stop, _ => { w with conn := none }
  | .unreadable names, _ => { w with unread := names }
  | _, _ => w

/-- A data directory with a database of the bridge, in any layout that an earlier version gave to
its tables, or without one. -/
structure Initial (w : World κ ρ) : Prop where
  own : ∀ e ∈ w.files, e.2.isCopy = true → e.1 = live ∨ e.1 = logOf live
  tables : ∀ e ∈ w.files, ∀ t ∈ e.2.tables, t.name ∈ schemaTables

/-- The state is reached by a run of the bridge. -/
def Reached [DecidableEq κ] (w : World κ ρ) : Prop :=
  ∃ start acts, Initial start ∧ w = Runs.exec step start acts

/-! ## What is left behind -/

/-- No table of the database has a row, and no other file holds a copy of a database. -/
def NothingLeft (w : World κ ρ) : Prop :=
  (∀ t ∈ w.tablesAt live, t.rows = []) ∧ ∀ e ∈ w.files, e.1 ≠ live → e.2.isCopy = false

/-- No table that `repair_outbox_table` has set aside has a row. -/
def AsideEmpty (w : World κ ρ) : Prop :=
  ∀ t ∈ w.tablesAt live, ∀ stamp, t.name = asideTable stamp → t.rows = []

/-- Every old copy of the database can be read. -/
def CopiesRead (w : World κ ρ) : Prop :=
  ∀ e ∈ w.files, isOldCopy live e.1 = true → e.2.isCopy = true → e.1 ∉ w.unread

/-- Nothing stands where the wipe does not look. -/
def NothingAside (w : World κ ρ) : Prop := AsideEmpty w ∧ CopiesRead w

/-! ## The statements of the wipe -/

theorem change_spec {name : String} {f : Table ρ → Except String (Table ρ)} {ts ts' : Tables ρ}
    (h : Tables.change name f ts = .ok ts') : ∃ t t', t ∈ ts ∧ t.name = name ∧ f t = .ok t' ∧
      ts' = ts.map fun u => if u.name = name then t' else u := by
  unfold Tables.change at h
  split at h
  · cases h
  · rename_i t hget
    split at h
    · cases h
    · rename_i t' ht'
      cases h
      have hname : t.name = name := by simpa using List.find?_some hget
      exact ⟨t, t', List.mem_of_find?_eq_some hget, hname, ht', rfl⟩

/-- The tables of the list are empty, the others as they were. -/
structure Cleared (names : List String) (ts ts' : Tables ρ) : Prop where
  tables : ∀ u ∈ ts', (u.name ∈ names ∧ u.rows = []) ∨ (u ∈ ts ∧ u.name ∉ names)
  others : ∀ u ∈ ts, u.name ∉ names → u ∈ ts'

theorem cleared_update {name : String} {f : List ρ → List ρ} {ts ts' : Tables ρ}
    (h : Tables.update name [] f ts = .ok ts') (hf : ∀ t ∈ ts, t.name = name → f t.rows = []) :
    Cleared [name] ts ts' := by
  obtain ⟨t, t', ht, hname, hft, rfl⟩ := change_spec h
  have ht' : t' = { t with rows := f t.rows } := by
    symm
    simpa using hft
  refine ⟨?_, ?_⟩
  · intro u hu
    obtain ⟨old, hold, rfl⟩ := List.mem_map.mp hu
    split
    · left
      rw [ht']
      exact ⟨List.mem_singleton.mpr hname, hf t ht hname⟩
    · rename_i hne
      right
      exact ⟨hold, by simpa using hne⟩
  · intro u hu hne
    refine List.mem_map.mpr ⟨u, hu, ?_⟩
    have hne' : u.name ≠ name := by simpa using hne
    simp [hne']

/-- Statements one after the other. -/
theorem Cleared.trans {names names' : List String} {ts ts' ts'' : Tables ρ}
    (h : Cleared names ts ts') (h' : Cleared names' ts' ts'') :
    Cleared (names ++ names') ts ts'' := by
  refine ⟨?_, ?_⟩
  · intro u hu
    obtain ⟨hmem, hrows⟩ | ⟨hu', hnot'⟩ := h'.tables u hu
    · exact Or.inl ⟨List.mem_append_right _ hmem, hrows⟩
    · obtain ⟨hmem, hrows⟩ | ⟨hold, hnot⟩ := h.tables u hu'
      · exact Or.inl ⟨List.mem_append_left _ hmem, hrows⟩
      · right
        refine ⟨hold, ?_⟩
        intro hmem
        obtain hmem | hmem := List.mem_append.mp hmem
        · exact hnot hmem
        · exact hnot' hmem
  · intro u hu hnot
    apply h'.others
    · apply h.others u hu
      intro hmem
      exact hnot (List.mem_append_left _ hmem)
    · intro hmem
      exact hnot (List.mem_append_right _ hmem)

theorem cleared_deleteFromAll {names : List String} {ts ts' : Tables ρ}
    (h : deleteFromAll names ts = .ok ts') : Cleared names ts ts' := by
  induction names generalizing ts with
  | nil =>
      cases h
      exact ⟨fun u hu => Or.inr ⟨hu, List.not_mem_nil⟩, fun u hu _ => hu⟩
  | cons name names ih =>
      unfold deleteFromAll at h
      split at h
      · cases h
      · rename_i mid hmid
        have hfirst : Cleared [name] ts mid := cleared_update hmid fun _ _ _ => rfl
        exact hfirst.trans (ih h)

theorem fts_is_wiped : "message_fts" ∈ wipedTables := by decide

theorem cleared_wipe {ts ts' : Tables ρ} (h : wipe ts = .ok ts') : Cleared wipedTables ts ts' := by
  unfold wipe at h
  split at h
  · cases h
  · rename_i mid hmid
    have hall := cleared_deleteFromAll hmid
    have hlast : Cleared ["message_fts"] mid ts' := by
      apply cleared_update h
      intro t ht hname
      obtain ⟨-, hrows⟩ | ⟨-, hnot⟩ := hall.tables t ht
      · exact hrows
      · rw [hname] at hnot
        exact absurd fts_is_wiped hnot
    have hboth := hall.trans hlast
    refine ⟨?_, ?_⟩
    · intro u hu
      obtain ⟨hmem, hrows⟩ | ⟨hold, hnot⟩ := hboth.tables u hu
      · left
        refine ⟨?_, hrows⟩
        obtain hmem | hmem := List.mem_append.mp hmem
        · exact hmem
        · rw [List.mem_singleton.mp hmem]
          exact fts_is_wiped
      · exact Or.inr ⟨hold, fun hmem => hnot (List.mem_append_left _ hmem)⟩
    · intro u hu hnot
      apply hboth.others u hu
      intro hmem
      obtain hmem | hmem := List.mem_append.mp hmem
      · exact hnot hmem
      · rw [List.mem_singleton.mp hmem] at hnot
        exact hnot fts_is_wiped

/-- Every table of the schema is on the list. -/
theorem schemaTables_wiped {name : String} (h : name ∈ schemaTables) : name ∈ wipedTables := by
  have hall : ((schemaBefore ++ schemaAfter).all fun x => wipedTables.contains x.table) = true := by
    decide +kernel
  obtain ⟨x, hx, rfl⟩ := List.mem_map.mp (List.mem_dedup.mp h)
  simpa using List.all_eq_true.mp hall x hx

/-- The list names nothing else. -/
theorem wiped_schemaTables {name : String} (h : name ∈ wipedTables) : name ∈ schemaTables := by
  have hall : (wipedTables.all fun name =>
      ((schemaBefore ++ schemaAfter).map Statement.table).contains name) = true := by
    decide +kernel
  refine List.mem_dedup.mpr ?_
  simpa using List.all_eq_true.mp hall name h

/-- The name of a table that was set aside. -/
def namedAside (name : String) : Bool := "outbox_incompatible_".toList.isPrefixOf name.toList

theorem namedAside_asideTable (stamp : Nat) : namedAside (asideTable stamp) = true := by
  unfold namedAside asideTable
  rw [List.isPrefixOf_iff_prefix, String.toList_append]
  exact List.prefix_append _ _

/-- A table that was set aside is on no list. -/
theorem asideTable_not_wiped (stamp : Nat) : asideTable stamp ∉ wipedTables := by
  have hall : (wipedTables.all fun name => !namedAside name) = true := by
    decide +kernel
  intro hmem
  have hnot := List.all_eq_true.mp hall _ hmem
  rw [namedAside_asideTable] at hnot
  cases hnot

/-! ## What one operation does to what is aside -/

section Aside

variable {w : World κ ρ} {n : Name} {c : Content κ ρ} {ts : Tables ρ}

theorem tablesAt_of_files {w' : World κ ρ} (hmain : w'.file live = w.file live)
    (hlog : w'.file (logOf live) = w.file (logOf live)) : w'.tablesAt live = w.tablesAt live := by
  unfold World.tablesAt World.recover
  rw [hmain, hlog]

theorem tablesAt_remove (hlive : n ≠ live) (hlog : n ≠ logOf live) :
    (w.remove n).tablesAt live = w.tablesAt live :=
  tablesAt_of_files (file_remove_of_ne hlive.symm) (file_remove_of_ne hlog.symm)

theorem tablesAt_write (hlive : n ≠ live) (hlog : n ≠ logOf live) :
    (w.write n c).tablesAt live = w.tablesAt live :=
  tablesAt_of_files (file_write_of_ne hlive.symm) (file_write_of_ne hlog.symm)

theorem live_ne_log : live ≠ logOf live := by decide

/-- What is committed is what the connection sees. -/
theorem tablesAt_store (key : κ) (checkpoints : Bool) :
    (w.store key checkpoints ts).tablesAt live = ts := by
  unfold World.store
  split
  · simp [World.tablesAt, World.recover, file_write_self, file_write_of_ne live_ne_log]
  · rename_i hkept
    have hsome : (w.recover live).isSome = true := by
      cases h : w.recover live with
      | none => simp [h] at hkept
      | some r => rfl
    obtain ⟨⟨key', seen⟩, hr⟩ := Option.isSome_iff_exists.mp hsome
    unfold World.recover at hr
    split at hr
    · rename_i own hfile
      simp [World.tablesAt, World.recover, file_write_self, file_write_of_ne live_ne_log, hfile]
    · cases hr

theorem tablesAt_truncateLog (key : κ) : (w.truncateLog key).tablesAt live = w.tablesAt live := by
  unfold World.truncateLog
  generalize w.tablesAt live = ts
  simp [World.tablesAt, World.recover, file_write_self, file_write_of_ne live_ne_log]

theorem copiesRead_write (hn : isOldCopy live n = true → c.isCopy = false ∧ n ∉ w.unread) :
    CopiesRead (w.write n c) ↔ CopiesRead w := by
  constructor
  · intro h e he hold hcopy hunread
    by_cases hname : e.1 = n
    · exact (hn (hname ▸ hold)).2 (hname ▸ hunread)
    · exact h e (mem_write.mpr (Or.inr ⟨he, hname⟩)) hold hcopy hunread
  · intro h e he hold hcopy hunread
    obtain rfl | he := mem_write.mp he
    · rw [(hn hold).1] at hcopy
      cases hcopy
    · exact h e he.1 hold hcopy hunread

theorem copiesRead_remove (hn : isOldCopy live n = true → n ∉ w.unread) :
    CopiesRead (w.remove n) ↔ CopiesRead w := by
  constructor
  · intro h e he hold hcopy hunread
    by_cases hname : e.1 = n
    · exact hn (hname ▸ hold) (hname ▸ hunread)
    · exact h e (mem_remove.mpr ⟨he, hname⟩) hold hcopy hunread
  · intro h e he
    exact h e (mem_remove.mp he).1

theorem copiesRead_write_other (hn : isOldCopy live n = false) :
    CopiesRead (w.write n c) ↔ CopiesRead w := by
  apply copiesRead_write
  intro hold
  rw [hn] at hold
  cases hold

/-- The database and its log are no old copies. -/
theorem copiesRead_store (key : κ) (checkpoints : Bool) :
    CopiesRead (w.store key checkpoints ts) ↔ CopiesRead w := by
  unfold World.store
  split
  · rw [copiesRead_write_other not_isOldCopy_log, copiesRead_write_other not_isOldCopy_live]
  · rw [copiesRead_write_other not_isOldCopy_log]

theorem copiesRead_truncateLog (key : κ) : CopiesRead (w.truncateLog key) ↔ CopiesRead w := by
  unfold World.truncateLog
  rw [copiesRead_write_other not_isOldCopy_log, copiesRead_write_other not_isOldCopy_live]

theorem unread_store (key : κ) (checkpoints : Bool) :
    (w.store key checkpoints ts).unread = w.unread := by
  unfold World.store
  split
  · rfl
  · rfl

theorem wiped_store (key : κ) (checkpoints : Bool) :
    (w.store key checkpoints ts).wiped = w.wiped := by
  unfold World.store
  split
  · rfl
  · rfl

theorem ne_live_of_old (h : isOldCopy live n = true) : n ≠ live := by
  rintro rfl
  exact absurd h (by decide)

theorem ne_log_of_old (h : isOldCopy live n = true) : n ≠ logOf live := by
  rintro rfl
  exact absurd h (by decide)

theorem ne_marker_of_old (h : isOldCopy live n = true) : n ≠ pendingClearMarker := by
  rintro rfl
  exact absurd h (by decide)

end Aside

/-! ## What a sign-out keeps -/

/-- While a sign-out is at work: the copies are where they may stand, what is aside stays as it
is, and the number of wipes does not fall. -/
structure Frame (marked : Bool) (aside : Prop) (unread : List Name) (wiped : Nat)
    (w : World κ ρ) : Prop where
  tidy : Tidy marked w
  aside : NothingAside w ↔ aside
  unread : w.unread = unread
  wiped : wiped ≤ w.wiped

/-- The tables of the list are empty. -/
def Emptied (w : World κ ρ) : Prop := ∀ t ∈ w.tablesAt live, t.name ∈ wipedTables → t.rows = []

/-- The log holds no pages. -/
def LogEmpty (w : World κ ρ) : Prop := ∀ e ∈ w.files, e.1 = logOf live → e.2.isCopy = false

/-- The old copies that are left are those that could not be read. -/
def Swept (w : World κ ρ) : Prop :=
  ∀ e ∈ w.files, isOldCopy live e.1 = true → e.2.isCopy = true → e.1 ∈ w.unread

section Frames

variable {w : World κ ρ} {n : Name} {marked : Bool} {aside : Prop} {unread : List Name}
variable {wiped : Nat}

/-- **After a wipe, what is left is what was aside.** -/
theorem nothingLeft_iff (htidy : Tidy marked w) (htables : Emptied w) (hlog : LogEmpty w)
    (hcopies : Swept w) : NothingLeft w ↔ NothingAside w := by
  constructor
  · rintro ⟨hrows, hfiles⟩
    refine ⟨fun t ht _ _ => hrows t ht, ?_⟩
    intro e he hold hcopy _
    rw [hfiles e he (ne_live_of_old hold)] at hcopy
    cases hcopy
  · rintro ⟨haside, hread⟩
    refine ⟨?_, ?_⟩
    · intro t ht
      obtain hknown | ⟨stamp, hstamp⟩ := htidy.tablesAt t ht
      · exact htables t ht (schemaTables_wiped hknown)
      · exact haside t ht stamp hstamp
    · intro e he hne
      by_contra hcopy
      rw [Bool.not_eq_false] at hcopy
      obtain hlive | hname | ⟨hold, -⟩ := htidy.placed e he hcopy
      · exact hne hlive
      · rw [hlog e he hname] at hcopy
        cases hcopy
      · exact hread e he hold hcopy (hcopies e he hold hcopy)

theorem Frame.unmarked (h : Frame marked aside unread wiped w) :
    Frame false aside unread wiped w :=
  ⟨h.tidy.unmarked, h.aside, h.unread, h.wiped⟩

/-- A commit that leaves the rows of the tables that were set aside. -/
theorem Frame.store (h : Frame marked aside unread wiped w) (key : κ) (checkpoints : Bool)
    {ts : Tables ρ} (hknown : ∀ t ∈ ts, Known t.name)
    (hrows : AsideEmpty w ↔ ∀ t ∈ ts, ∀ stamp, t.name = asideTable stamp → t.rows = []) :
    Frame marked aside unread wiped (w.store key checkpoints ts) := by
  refine ⟨h.tidy.store key checkpoints hknown, ?_, ?_, ?_⟩
  · have haside : AsideEmpty (w.store key checkpoints ts) ↔ AsideEmpty w := by
      unfold AsideEmpty
      rw [tablesAt_store]
      exact hrows.symm
    exact (and_congr haside (copiesRead_store key checkpoints)).trans h.aside
  · rw [unread_store]
    exact h.unread
  · rw [wiped_store]
    exact h.wiped

theorem Frame.truncateLog (h : Frame marked aside unread wiped w) (key : κ) :
    Frame marked aside unread wiped (w.truncateLog key) := by
  refine ⟨h.tidy.truncateLog key, ?_, h.unread, h.wiped⟩
  have haside : AsideEmpty (w.truncateLog key) ↔ AsideEmpty w := by
    unfold AsideEmpty
    rw [tablesAt_truncateLog]
  exact (and_congr haside (copiesRead_truncateLog key)).trans h.aside

theorem nothingAside_remove (hlive : n ≠ live) (hlog : n ≠ logOf live)
    (hread : isOldCopy live n = true → n ∉ w.unread) :
    NothingAside (w.remove n) ↔ NothingAside w := by
  refine and_congr ?_ (copiesRead_remove hread)
  unfold AsideEmpty
  rw [tablesAt_remove hlive hlog]

/-- An old copy that can be read is removed. -/
theorem Frame.remove (h : Frame marked aside unread wiped w) (hold : isOldCopy live n = true)
    (hread : n ∉ unread) : Frame marked aside unread wiped (w.remove n) := by
  refine ⟨h.tidy.remove (ne_marker_of_old hold), ?_, h.unread, h.wiped⟩
  refine Iff.trans (nothingAside_remove (ne_live_of_old hold) (ne_log_of_old hold) ?_) h.aside
  intro _
  rw [h.unread]
  exact hread

/-- An old copy that can be read is overwritten. -/
theorem Frame.overwrite (h : Frame marked aside unread wiped w) (hold : isOldCopy live n = true)
    (hread : n ∉ unread) : Frame marked aside unread wiped (w.write n .other) := by
  refine ⟨h.tidy.write nofun (by simp [Content.tables]), ?_, h.unread, h.wiped⟩
  have haside : AsideEmpty (w.write n .other) ↔ AsideEmpty w := by
    unfold AsideEmpty
    rw [tablesAt_write (ne_live_of_old hold) (ne_log_of_old hold)]
  refine (and_congr haside (copiesRead_write ?_)).trans h.aside
  intro _
  rw [h.unread]
  exact ⟨rfl, hread⟩

end Frames

/-! ## The wipe -/

section Wipe

variable {w : World κ ρ} {marked : Bool} {aside : Prop} {unread : List Name} {wiped : Nat} (key : κ)

/-- The transaction empties the tables of the list and leaves those that were set aside. -/
theorem wp_wipe (h : Frame marked aside unread wiped w) :
    (commit key wipe).wp (fun r w' => Frame marked aside unread wiped w' ∧
      (r = .done () → Emptied w')) w := by
  apply Prog.wp_atomic
  · exact ⟨h, nofun⟩
  · intro e
    exact ⟨h, nofun⟩
  · intro t a w' heq
    split at heq
    · cases heq
    · rename_i ts hts
      cases heq
      have hcleared := cleared_wipe hts
      refine ⟨h.store key _ ?_ ?_, ?_⟩
      · intro u hu
        obtain ⟨hmem, -⟩ | ⟨hold, -⟩ := hcleared.tables u hu
        · exact Or.inl (wiped_schemaTables hmem)
        · exact h.tidy.tablesAt u hold
      · constructor
        · intro hempty u hu stamp hname
          obtain ⟨-, hrows⟩ | ⟨hold, -⟩ := hcleared.tables u hu
          · exact hrows
          · exact hempty u hold stamp hname
        · intro hempty u hu stamp hname
          have hnot : u.name ∉ wipedTables := hname ▸ asideTable_not_wiped stamp
          exact hempty u (hcleared.others u hu hnot) stamp hname
      · intro _ u hu hmem
        rw [tablesAt_store] at hu
        obtain ⟨-, hrows⟩ | ⟨-, hnot⟩ := hcleared.tables u hu
        · exact hrows
        · exact absurd hmem hnot

/-- `VACUUM` and the checkpoint empty the log. -/
theorem wp_scrubFreeSpace (h : Frame marked aside unread wiped w) (htables : Emptied w) :
    (scrubFreeSpace key).wp (fun r w' => Frame marked aside unread wiped w' ∧
      (r = .done () → Emptied w' ∧ LogEmpty w')) w := by
  apply Prog.wp_bind
  apply Prog.wp_atomic
  · exact ⟨h, nofun⟩
  · intro e
    exact ⟨h, nofun⟩
  intro t a w' heq
  cases heq
  apply Prog.wp_bind
  apply Prog.wp_atomic
  · exact ⟨h, nofun⟩
  · intro e
    exact ⟨h, nofun⟩
  intro t a w' heq
  cases heq
  have hstored := h.store key t.choice h.tidy.tablesAt Iff.rfl
  have htables' : Emptied (w.store key t.choice (w.tablesAt live)) := by
    unfold Emptied
    rw [tablesAt_store]
    exact htables
  apply Prog.wp_bind
  apply Prog.wp_atomic
  · exact ⟨hstored, nofun⟩
  · intro e
    exact ⟨hstored, nofun⟩
  intro t' busy w' heq
  cases heq
  dsimp only
  cases t'.choice with
  | true => exact Prog.wp_fail ⟨hstored, nofun⟩
  | false =>
      apply Prog.wp_pure
      rw [if_neg Bool.false_ne_true]
      refine ⟨hstored.truncateLog key, fun _ => ⟨?_, ?_⟩⟩
      · unfold Emptied
        rw [tablesAt_truncateLog]
        exact htables'
      · intro e he hname
        obtain rfl | ⟨-, hne⟩ := mem_write.mp he
        · rfl
        · exact absurd hname hne

/-- What the shredding of old copies leaves as it is. -/
structure Shredding (marked : Bool) (aside : Prop) (unread : List Name) (wiped : Nat)
    (w : World κ ρ) : Prop where
  frame : Frame marked aside unread wiped w
  tables : Emptied w
  log : LogEmpty w

theorem Shredding.remove {n : Name} (h : Shredding marked aside unread wiped w)
    (hold : isOldCopy live n = true) (hread : n ∉ unread) :
    Shredding marked aside unread wiped (w.remove n) := by
  refine ⟨h.frame.remove hold hread, ?_, ?_⟩
  · unfold Emptied
    rw [tablesAt_remove (ne_live_of_old hold) (ne_log_of_old hold)]
    exact h.tables
  · intro e he
    exact h.log e (mem_remove.mp he).1

theorem Shredding.overwrite {n : Name} (h : Shredding marked aside unread wiped w)
    (hold : isOldCopy live n = true) (hread : n ∉ unread) :
    Shredding marked aside unread wiped (w.write n .other) := by
  refine ⟨h.frame.overwrite hold hread, ?_, ?_⟩
  · unfold Emptied
    rw [tablesAt_write (ne_live_of_old hold) (ne_log_of_old hold)]
    exact h.tables
  · intro e he hname
    obtain rfl | he := mem_write.mp he
    · rfl
    · exact h.log e he.1 hname

/-- The old copies that are left can not be read, or are still to be shredded. -/
def SweptBut (names : List Name) (w : World κ ρ) : Prop :=
  ∀ e ∈ w.files, isOldCopy live e.1 = true → e.2.isCopy = true → e.1 ∈ w.unread ∨ e.1 ∈ names

theorem keeps_shredding {names : List Name}
    (hnames : ∀ n ∈ names, isOldCopy live n = true ∧ n ∉ unread) :
    Prog.Keeps (Shredding marked aside unread wiped)
      (shredEach names : Run κ ρ (List String)) := by
  apply keeps_shredEach
  · intro n hn w hw
    exact hw.remove (hnames n hn).1 (hnames n hn).2
  · intro n hn w hw
    exact hw.overwrite (hnames n hn).1 (hnames n hn).2

theorem wp_shredEach {names : List Name}
    (hnames : ∀ n ∈ names, isOldCopy live n = true ∧ n ∉ unread)
    (h : Shredding marked aside unread wiped w) (hswept : SweptBut names w) :
    (shredEach names).wp (fun r w' => Shredding marked aside unread wiped w' ∧
      (r = .done [] → Swept w')) w := by
  induction names generalizing w with
  | nil =>
      apply Prog.wp_pure
      refine ⟨h, fun _ e he hold hcopy => ?_⟩
      obtain hunread | hmem := hswept e he hold hcopy
      · exact hunread
      · cases hmem
  | cons n names ih =>
      obtain ⟨hold, hread⟩ := hnames n List.mem_cons_self
      have hrest : ∀ m ∈ names, isOldCopy live m = true ∧ m ∉ unread :=
        fun m hm => hnames m (List.mem_cons_of_mem _ hm)
      apply Prog.wp_bind
      apply Prog.wp_look
      dsimp only
      split
      · rename_i hpresent
        apply Prog.wp_bind
        apply Prog.wp_operation
        · exact ⟨h, nofun⟩
        intro t
        dsimp only
        -- what the overwriting leaves; the file is still to be removed
        generalize hw' : (if t.choice && (w.file n).isSome then w.write n .other else w) = w'
        have h' : Shredding marked aside unread wiped w' := by
          rw [← hw']
          split
          · exact h.overwrite hold hread
          · exact h
        have hswept' : SweptBut (n :: names) w' := by
          rw [← hw']
          split
          · intro e he hold' hcopy
            obtain rfl | he := mem_write.mp he
            · cases hcopy
            · exact hswept e he.1 hold' hcopy
          · exact hswept
        apply Prog.wp_bind
        apply Prog.wp_attempt
        apply Prog.wp_atomic
        · exact ⟨h', nofun⟩
        · intro e
          -- the file stays: the loop goes on, and reports it
          apply Prog.wp_bind
          refine Prog.wp_mono (keeps_shredding hrest _ h') ?_
          · intro r w'' hr
            cases r with
            | done failed =>
                apply Prog.wp_pure
                exact ⟨hr, nofun⟩
            | failed e => exact ⟨hr, nofun⟩
            | died => exact ⟨hr, nofun⟩
        · intro t' a w'' heq
          split at heq
          · cases heq
          · cases heq
            apply ih hrest (h'.remove hold hread)
            intro e he hold' hcopy
            obtain ⟨he, hne⟩ := mem_remove.mp he
            obtain hunread | hmem := hswept' e he hold' hcopy
            · exact Or.inl hunread
            · obtain rfl | hmem := List.mem_cons.mp hmem
              · exact absurd rfl hne
              · exact Or.inr hmem
      · rename_i habsent
        apply ih hrest h
        intro e he hold' hcopy
        obtain hunread | hmem := hswept e he hold' hcopy
        · exact Or.inl hunread
        · obtain hname | hmem := List.mem_cons.mp hmem
          · exact absurd (file_isSome he hname) habsent
          · exact Or.inr hmem

/-- **The old copies that can be read are gone**, where the shredding succeeds. -/
theorem wp_removeOldCopies (h : Shredding marked aside unread wiped w) :
    removeOldCopies.wp (fun r w' => Shredding marked aside unread wiped w' ∧
      (r = .done () → Swept w')) w := by
  apply Prog.wp_bind
  apply Prog.wp_atomic
  · exact ⟨h, nofun⟩
  · intro e
    exact ⟨h, nofun⟩
  intro t names w' heq
  cases heq
  have hnames : ∀ n ∈ ((w.files.map Prod.fst).filter fun n => n ∉ w.unread).filter
      (isOldCopy live), isOldCopy live n = true ∧ n ∉ unread := by
    intro n hn
    obtain ⟨hn, hold⟩ := List.mem_filter.mp hn
    refine ⟨hold, ?_⟩
    rw [← h.frame.unread]
    simpa using (List.mem_filter.mp hn).2
  have hswept : SweptBut (((w.files.map Prod.fst).filter fun n => n ∉ w.unread).filter
      (isOldCopy live)) w := by
    intro e he hold _
    by_cases hread : e.1 ∈ w.unread
    · exact Or.inl hread
    · right
      refine List.mem_filter.mpr ⟨List.mem_filter.mpr ⟨List.mem_map_of_mem he, ?_⟩, hold⟩
      simpa using hread
  apply Prog.wp_bind
  refine Prog.wp_mono (wp_shredEach hnames h hswept) ?_
  rintro r w' ⟨hkept, hdone⟩
  cases r with
  | done failed =>
      dsimp only
      split
      · rename_i hnone
        subst hnone
        exact Prog.wp_pure ⟨hkept, fun _ => hdone rfl⟩
      · exact Prog.wp_fail ⟨hkept, nofun⟩
  | failed e => exact ⟨hkept, nofun⟩
  | died => exact ⟨hkept, nofun⟩

/-- **What `clear_all_user_data` ensures**: where it succeeds, what is left is what was aside. -/
theorem wp_clearAllUserData (h : Frame marked aside unread wiped w) :
    (clearAllUserData key).wp (fun r w' => Frame marked aside unread wiped w' ∧
      (r = .done () → (NothingLeft w' ↔ aside) ∧ wiped < w'.wiped)) w := by
  apply Prog.wp_bind
  refine Prog.wp_mono (wp_wipe key h) ?_
  rintro r w₁ ⟨hframe₁, htables⟩
  cases r with
  | failed e => exact ⟨hframe₁, nofun⟩
  | died => exact ⟨hframe₁, nofun⟩
  | done _ =>
  apply Prog.wp_bind
  refine Prog.wp_mono (wp_scrubFreeSpace key hframe₁ (htables rfl)) ?_
  rintro r w₂ ⟨hframe₂, hlog⟩
  cases r with
  | failed e => exact ⟨hframe₂, nofun⟩
  | died => exact ⟨hframe₂, nofun⟩
  | done _ =>
  apply Prog.wp_bind
  obtain ⟨htables₂, hlog₂⟩ := hlog rfl
  refine Prog.wp_mono (wp_removeOldCopies ⟨hframe₂, htables₂, hlog₂⟩) ?_
  rintro r w₃ ⟨⟨hframe₃, htables₃, hlog₃⟩, hswept⟩
  cases r with
  | failed e => exact ⟨hframe₃, nofun⟩
  | died => exact ⟨hframe₃, nofun⟩
  | done _ =>
  apply Prog.wp_modify
  -- the files are those of `w₃`; only the count of wipes is another
  have hleft := (nothingLeft_iff hframe₃.tidy htables₃ hlog₃ (hswept rfl)).trans hframe₃.aside
  refine ⟨⟨⟨hframe₃.tidy.placed, hframe₃.tidy.known, hframe₃.tidy.pending⟩, hframe₃.aside,
    hframe₃.unread, ?_⟩, fun _ => ⟨hleft, ?_⟩⟩
  · exact Nat.le_succ_of_le hframe₃.wiped
  · exact Nat.lt_succ_of_le hframe₃.wiped

/-- The marker is no copy of the database. -/
theorem nothingLeft_remove_marker (h : Tidy marked w) :
    NothingLeft (w.remove pendingClearMarker) ↔ NothingLeft w := by
  unfold NothingLeft
  rw [tablesAt_remove (by decide) (by decide)]
  refine and_congr Iff.rfl ?_
  constructor
  · intro hfiles e he hne
    by_cases hname : e.1 = pendingClearMarker
    · by_contra hcopy
      rw [Bool.not_eq_false] at hcopy
      have hplaced := h.placed e he hcopy
      rw [hname] at hplaced
      exact not_placed_marker hplaced
    · exact hfiles e (mem_remove.mpr ⟨he, hname⟩) hne
  · intro hfiles e he
    exact hfiles e (mem_remove.mp he).1

/-- The marker is written. -/
theorem Frame.mark (h : Frame false aside unread wiped w) :
    Frame true aside unread wiped (w.write pendingClearMarker .blank) := by
  refine ⟨h.tidy.mark, ?_, h.unread, h.wiped⟩
  have hrows : AsideEmpty (w.write pendingClearMarker .blank) ↔ AsideEmpty w := by
    unfold AsideEmpty
    rw [tablesAt_write (by decide) (by decide)]
  exact (and_congr hrows (copiesRead_write_other (by decide))).trans h.aside

/-- The marker is taken away. -/
theorem Frame.removeMarker (h : Frame marked aside unread wiped w) :
    Frame false aside unread wiped (w.remove pendingClearMarker) := by
  refine ⟨h.tidy.remove_unmarked, ?_, h.unread, h.wiped⟩
  refine Iff.trans (nothingAside_remove (by decide) (by decide) ?_) h.aside
  intro hold
  exact absurd hold (by decide)

/-- What a sign-out ensures: where it succeeds, what is left is what was aside; and the marker is
there, or the wipe has come to its end. -/
def SignedOut (marked : Bool) (aside : Prop) (unread : List Name) (wiped : Nat) {α : Type}
    (r : Exit α) (w : World κ ρ) : Prop :=
  Frame false aside unread wiped w ∧ (∀ a, r = .done a → (NothingLeft w ↔ aside)) ∧
    (marked = true → clearPending w = true ∨ wiped < w.wiped)

/-- The marker is taken away after a wipe. -/
theorem wp_removeMarker (h : Frame marked aside unread wiped w) (hleft : NothingLeft w ↔ aside)
    (hwiped : wiped < w.wiped) :
    (removeFile pendingClearMarker).wp (SignedOut marked aside unread wiped) w := by
  have hstays : ∀ r : Exit Unit, SignedOut marked aside unread wiped r w :=
    fun r => ⟨h.unmarked, fun _ _ => hleft, fun _ => Or.inr hwiped⟩
  apply Prog.wp_atomic
  · exact hstays _
  · intro e
    exact hstays _
  · intro t a w' heq
    split at heq
    · cases heq
    · cases heq
      refine ⟨h.removeMarker, fun _ _ => ?_, fun _ => Or.inr hwiped⟩
      exact (nothingLeft_remove_marker h.tidy).trans hleft

/-- **The attempts**: each begins with what the one before has left. -/
theorem wp_clearOrDefer (attempts : Nat) (lastError : String)
    (h : Frame marked aside unread wiped w) :
    (clearOrDefer key marked attempts lastError).wp (SignedOut marked aside unread wiped) w := by
  induction attempts generalizing w lastError with
  | zero =>
      apply Prog.wp_fail
      exact ⟨h.unmarked, nofun, fun hm => Or.inl (h.tidy.pending hm)⟩
  | succ attempts ih =>
      apply Prog.wp_bind
      apply Prog.wp_attempt
      refine Prog.wp_mono (wp_clearAllUserData key h) ?_
      rintro r w' ⟨hframe, hdone⟩
      cases r with
      | died => exact ⟨hframe.unmarked, nofun, fun hm => Or.inl (hframe.tidy.pending hm)⟩
      | failed e => exact ih e hframe
      | done _ =>
          obtain ⟨hleft, hwiped⟩ := hdone rfl
          cases marked with
          | true => exact wp_removeMarker hframe hleft hwiped
          | false =>
              apply Prog.wp_pure
              exact ⟨hframe, fun _ _ => hleft, nofun⟩

theorem wp_clearUserDataOrDefer (h : Frame false aside unread wiped w) :
    (clearUserDataOrDefer key).wp (SignedOut false aside unread wiped) w := by
  have hstays : ∀ r : Exit Unit, (∀ a, r ≠ .done a) → SignedOut false aside unread wiped r w :=
    fun r hr => ⟨h, fun a ha => absurd ha (hr a), nofun⟩
  apply Prog.wp_bind
  apply Prog.wp_attempt
  apply Prog.wp_atomic
  · exact hstays _ nofun
  · intro e
    exact wp_clearOrDefer key _ _ h
  · intro t a w' heq
    cases heq
    refine Prog.wp_mono (wp_clearOrDefer key _ _ h.mark) ?_
    rintro r w' ⟨hframe, hleft, -⟩
    exact ⟨hframe, hleft, nofun⟩

theorem wp_finishPendingClear (h : Frame false aside unread wiped w) :
    (finishPendingClear key).wp (fun r w' => Frame false aside unread wiped w' ∧
      (r = .done true → (NothingLeft w' ↔ aside))) w := by
  apply Prog.wp_bind
  apply Prog.wp_look
  dsimp only
  split
  · apply Prog.wp_bind
    refine Prog.wp_mono (wp_clearAllUserData key h) ?_
    rintro r w' ⟨hframe, hdone⟩
    cases r with
    | failed e => exact ⟨hframe, nofun⟩
    | died => exact ⟨hframe, nofun⟩
    | done _ =>
        obtain ⟨hleft, hwiped⟩ := hdone rfl
        apply Prog.wp_bind
        refine Prog.wp_mono (wp_removeMarker hframe hleft hwiped) ?_
        rintro r w'' ⟨hframe', hleft', -⟩
        cases r with
        | failed e => exact ⟨hframe', nofun⟩
        | died => exact ⟨hframe', nofun⟩
        | done a =>
            apply Prog.wp_pure
            exact ⟨hframe', fun _ => hleft' a rfl⟩
  · exact Prog.wp_pure ⟨h, nofun⟩

end Wipe

/-! ## Runs -/

section Reach

variable {w : World κ ρ}

theorem tidy_initial (h : Initial w) : Tidy false w := by
  refine ⟨?_, ?_, nofun⟩
  · intro e he hcopy
    obtain hlive | hlog := h.own e he hcopy
    · exact Or.inl hlive
    · exact Or.inr (Or.inl hlog)
  · intro e he t ht
    exact Or.inl (h.tables e he t ht)

theorem tidy_settle {α : Type} {o : Outcome (World κ ρ) α} (h : Tidy false o.state) :
    Tidy false (settle o) := by
  unfold settle
  split
  · exact ⟨h.placed, h.known, nofun⟩
  · exact h

theorem keepsKnown_rows (f : String → List ρ → List ρ) :
    KeepsKnown fun ts => .ok (ts.map fun t => { t with rows := f t.name t.rows }) := by
  intro ts ts' hts heq
  cases heq
  intro t ht
  obtain ⟨old, hold, rfl⟩ := List.mem_map.mp ht
  exact hts old hold

/-- A state in which the copies are where they may stand is one in which a sign-out begins. -/
theorem Frame.start (h : Tidy false w) : Frame false (NothingAside w) w.unread w.wiped w :=
  ⟨h, Iff.rfl, rfl, le_rfl⟩

/-- The marker file is written: the first operation of a sign-out works. -/
def MarkerWritten (ts : List Turn) : Prop :=
  (ts.headD .calm).dies = false ∧ (ts.headD .calm).error = none

theorem clearUserDataOrDefer_marked (key : κ) {ts : List Turn} (h : MarkerWritten ts) :
    clearUserDataOrDefer key w ts =
      clearOrDefer key true clearAttempts "" (w.write pendingClearMarker .blank) ts.tail := by
  obtain ⟨hlives, hworks⟩ := h
  simp only [clearUserDataOrDefer, bind, Prog.attempt, writeFile, Prog.atomic, Prog.operation]
  have hruns : ¬(ts.headD .calm).dies = true := by
    rw [hlives]
    exact Bool.false_ne_true
  rw [if_neg hruns, hworks]

variable [DecidableEq κ]

/-- **The step lemma**: no act puts a copy where the wipe does not look for it. -/
theorem tidy_step (h : Tidy false w) (a : Act κ ρ × List Turn) : Tidy false (step w a) := by
  obtain ⟨act, ts⟩ := a
  unfold step
  split
  · rename_i key rewrite _ _
    exact tidy_settle ((keeps_openWithKey key rewrite).state h ts)
  · rename_i key _ _
    exact tidy_settle (wp_finishPendingClear key (Frame.start h) ts).1.tidy
  · rename_i f key _ _
    exact tidy_settle ((keeps_commit key (keepsKnown_rows f)).state h ts)
  · rename_i key _ _
    exact tidy_settle (wp_clearAllUserData key (Frame.start h) ts).1.tidy
  · rename_i key _ _
    exact tidy_settle (wp_clearUserDataOrDefer key (Frame.start h) ts).1.tidy
  · exact ⟨h.placed, h.known, nofun⟩
  · exact ⟨h.placed, h.known, nofun⟩
  · exact h

/-- **The run lemma.** -/
theorem tidy_reached (h : Reached w) : Tidy false w := by
  obtain ⟨start, acts, hinitial, rfl⟩ := h
  have hstart := tidy_initial hinitial
  clear hinitial
  induction acts generalizing start with
  | nil => exact hstart
  | cons a acts ih => exact ih (step start a) (tidy_step hstart a)

/-- **The marker outlives the sign-out**: however it ends, the next start finds it, or the wipe has
come to its end. -/
theorem pending_or_wiped (h : Tidy false w) (key key' : κ) (rewrite : String → List ρ → List ρ)
    {ts : List Turn} (hmarked : MarkerWritten ts) (ts' : List Turn) :
    clearPending (openWithKey key' rewrite
        { settle (clearUserDataOrDefer key w ts) with conn := none } ts').state = true ∨
      w.wiped < (settle (clearUserDataOrDefer key w ts)).wiped := by
  rw [clearUserDataOrDefer_marked key hmarked]
  have hsigned := wp_clearOrDefer key clearAttempts "" (Frame.start h).mark ts.tail
  obtain ⟨hframe, -, hend⟩ := hsigned
  generalize clearOrDefer key true clearAttempts "" (w.write pendingClearMarker .blank) ts.tail =
    o at hframe hend
  have hfiles : (settle o).files = o.state.files ∧ (settle o).wiped = o.state.wiped := by
    unfold settle
    split
    · exact ⟨rfl, rfl⟩
    · exact ⟨rfl, rfl⟩
  obtain hpending | hwiped := hend rfl
  · left
    have hnext : Tidy true { settle o with conn := none } := by
      refine ⟨?_, ?_, fun _ => ?_⟩
      · rw [hfiles.1]
        exact hframe.tidy.placed
      · rw [hfiles.1]
        exact hframe.tidy.known
      · unfold clearPending World.file
        rw [hfiles.1]
        exact hpending
    exact ((keeps_openWithKey key' rewrite).state hnext ts').pending rfl
  · right
    rw [hfiles.2]
    exact hwiped

/-- **Signing out leaves nothing behind exactly where nothing stands aside.** Of the state before:
no table that `repair_outbox_table` has set aside has a row, and every old copy of the database can
be read. The deferral holds without a condition. -/
theorem sign_out_leaves_nothing_iff (h : Reached w) (key : κ) :
    (∀ ts, (clearAllUserData key w ts).exit = .done () →
      (NothingLeft (clearAllUserData key w ts).state ↔ NothingAside w)) ∧
    (∀ ts, (clearUserDataOrDefer key w ts).exit = .done () →
      (NothingLeft (clearUserDataOrDefer key w ts).state ↔ NothingAside w)) ∧
    (∀ ts, (finishPendingClear key w ts).exit = .done true →
      (NothingLeft (finishPendingClear key w ts).state ↔ NothingAside w)) ∧
    ∀ ts, MarkerWritten ts → ∀ key' rewrite ts',
      clearPending (openWithKey key' rewrite
          { settle (clearUserDataOrDefer key w ts) with conn := none } ts').state = true ∨
        w.wiped < (settle (clearUserDataOrDefer key w ts)).wiped := by
  have htidy := tidy_reached h
  refine ⟨?_, ?_, ?_, ?_⟩
  · intro ts hdone
    exact ((wp_clearAllUserData key (Frame.start htidy) ts).2 hdone).1
  · intro ts hdone
    exact (wp_clearUserDataOrDefer key (Frame.start htidy) ts).2.1 () hdone
  · intro ts hdone
    exact (wp_finishPendingClear key (Frame.start htidy) ts).2 hdone
  · intro ts hmarked key' rewrite ts'
    exact pending_or_wiped htidy key key' rewrite hmarked ts'

end Reach

/-! ## Two data directories -/

/-- A database of an earlier version, with an `outbox` table of three columns. -/
def earlierOutbox : World Nat Nat :=
  ⟨[(live, .database (some 0) [⟨"outbox", ["id", "body", "recipient"], [7]⟩])], [], none, 0⟩

/-- The start sets the table aside. -/
def afterStart (w : World Nat Nat) : World Nat Nat := step w (.start 0 fun _ rows => rows, [])

theorem reached_afterStart {w : World Nat Nat} (h : Initial w) : Reached (afterStart w) :=
  ⟨w, [(.start 0 fun _ rows => rows, [])], h, rfl⟩

theorem initial_earlierOutbox : Initial earlierOutbox := by
  refine ⟨?_, ?_⟩
  · intro e he _
    rw [List.mem_singleton.mp he]
    exact Or.inl rfl
  · intro e he t ht
    rw [List.mem_singleton.mp he] at ht
    rw [List.mem_singleton.mp ht]
    exact @mem_schemaTables outboxTable (by decide)

/-- The program came to its end. -/
def isDone : Exit Unit → Bool
  | .done _ => true
  | .failed _ => false
  | .died => false

theorem eq_done {r : Exit Unit} (h : isDone r = true) : r = .done () := by
  cases r with
  | done a => rfl
  | failed e => cases h
  | died => cases h

/-- The mail of the earlier version is still in the database after the sign-out. -/
theorem earlier_outbox_survives :
    Reached (afterStart earlierOutbox) ∧
      (clearAllUserData 0 (afterStart earlierOutbox) []).exit = .done () ∧
      ¬NothingLeft (clearAllUserData 0 (afterStart earlierOutbox) []).state := by
  have hrun : (isDone (clearAllUserData 0 (afterStart earlierOutbox) []).exit &&
      ((clearAllUserData 0 (afterStart earlierOutbox) []).state.tablesAt live).any
        fun t => !t.rows.isEmpty) = true := by
    decide +kernel
  obtain ⟨hdone, hleft⟩ := Bool.and_eq_true_iff.mp hrun
  refine ⟨reached_afterStart initial_earlierOutbox, eq_done hdone, ?_⟩
  rintro ⟨hrows, -⟩
  obtain ⟨t, ht, hsome⟩ := List.any_eq_true.mp hleft
  rw [hrows t ht] at hsome
  cases hsome

/-- A data directory with a database that the bridge itself has made, and mail waiting in it. -/
def ownOutbox : World Nat Nat :=
  ⟨[(live, .database (some 0) [⟨"outbox", ["id", "raw_mime", "envelope_from", "envelope_to",
    "queued_at", "attempts", "last_attempt_at", "last_error", "status"], [7]⟩])], [], none, 0⟩

theorem initial_ownOutbox : Initial ownOutbox := by
  refine ⟨?_, ?_⟩
  · intro e he _
    rw [List.mem_singleton.mp he]
    exact Or.inl rfl
  · intro e he t ht
    rw [List.mem_singleton.mp he] at ht
    rw [List.mem_singleton.mp ht]
    exact @mem_schemaTables outboxTable (by decide)

/-- There is nothing aside in it, and the sign-out leaves nothing. -/
theorem own_outbox_is_cleared :
    (clearAllUserData 0 (afterStart ownOutbox) []).exit = .done () ∧
      NothingLeft (clearAllUserData 0 (afterStart ownOutbox) []).state := by
  have hrun : (isDone (clearAllUserData 0 (afterStart ownOutbox) []).exit &&
      (((afterStart ownOutbox).tablesAt live).all fun t => !namedAside t.name) &&
      ((afterStart ownOutbox).files.all fun e => !isOldCopy live e.1)) = true := by
    decide +kernel
  obtain ⟨hrun, hfiles⟩ := Bool.and_eq_true_iff.mp hrun
  obtain ⟨hdone, htables⟩ := Bool.and_eq_true_iff.mp hrun
  have hdone := eq_done hdone
  refine ⟨hdone, ?_⟩
  refine ((sign_out_leaves_nothing_iff (reached_afterStart initial_ownOutbox) 0).1 [] hdone).mpr ?_
  refine ⟨?_, ?_⟩
  · intro t ht stamp hname
    have hnot := List.all_eq_true.mp htables t ht
    rw [hname, namedAside_asideTable] at hnot
    cases hnot
  · intro e he hold
    have hnot := List.all_eq_true.mp hfiles e he
    rw [hold] at hnot
    cases hnot

end AsterBridge.Db.SignOut
