import AsterBridge.Lib.Ledger
import AsterBridge.Lib.Runs
import AsterBridge.Db.Cache

/-!
# UIDs are never issued twice

The mappings of `uid_map` and the counters of `sync_state` are a ledger of issued
numbers (`Cache.ledger`): `assign_uid_if_missing` issues the next number of a
folder, every other function revokes some (`Advances`). `fresh_uid_above_issued`
follows for every run of these functions.

UIDs leave the database as `u32`. A folder that has issued 2^32 - 1 UIDs gives out
the UID 0 next (`freshUid_fails_at_limit`).
-/

set_option autoImplicit false

namespace AsterBridge.Db

open AsterBridge.Lib AsterBridge.Lib.Runs AsterBridge.Lib.Text AsterBridge.Lib.Ledger

namespace Cache

/-! ## The ledger of a database -/

/-- The next UID of a folder as `sync_state` has it. -/
def uidCounter (db : Cache) (folder : String) : Nat :=
  max (((db.syncState.get? (uidNextKey folder)).bind parseInt).getD 0).toNat 1

/-- Counters and mappings as a ledger, one space for each folder. -/
def ledger (db : Cache) : Ledger String String where
  next := db.uidCounter
  live folder id := db.uidMap.get? (id, folder)

theorem uidNextKey_injective {f g : String} (h : uidNextKey f = uidNextKey g) : f = g :=
  String.append_right_inj _ |>.1 h

theorem sound_empty : empty.ledger.Sound := by
  refine ⟨?_, ?_, ?_⟩ <;> intro k i <;> simp [ledger, empty]

theorem foldl_max_lt {c : Nat} (l : List Nat) (init : Nat) (hinit : init < c)
    (h : ∀ n ∈ l, n < c) : l.foldl max init < c := by
  induction l generalizing init with
  | nil => exact hinit
  | cons n l ih =>
      refine ih (max init n) ?_ fun m hm => h m (List.mem_cons_of_mem n hm)
      have hn := h n List.mem_cons_self
      omega

theorem existingMax_lt {db : Cache} (hs : db.ledger.Sound) (folder : String) :
    db.existingMax folder < db.uidCounter folder := by
  refine foldl_max_lt _ 0 ?_ ?_
  · have hone : 1 ≤ db.uidCounter folder := le_max_right _ 1
    omega
  · intro n hn
    obtain ⟨⟨⟨id, f⟩, u⟩, hmem, rfl⟩ := List.mem_map.1 hn
    obtain ⟨hrow, hf⟩ := List.mem_filter.1 hmem
    have hf' : f = folder := by simpa using hf
    subst hf'
    exact hs.below f id u (Table.get?_eq_some_iff.2 hrow)

/-- The next UID is the stored counter: the table never runs ahead of it. -/
theorem nextUid_eq {db : Cache} (hs : db.ledger.Sound) (folder : String) :
    db.nextUid folder = db.uidCounter folder := by
  have hlt := existingMax_lt hs folder
  simp only [nextUid, uidCounter] at hlt ⊢
  omega

theorem one_le_nextUid (db : Cache) (folder : String) : 1 ≤ db.nextUid folder := by
  simp only [nextUid]
  omega

/-- A database with the same tables `uid_map` and `sync_state`. -/
theorem advances_of_eq {db db' : Cache} (huid : db'.uidMap = db.uidMap)
    (hsync : db'.syncState = db.syncState) : Advances db.ledger db'.ledger := by
  have hcounter : db'.uidCounter = db.uidCounter := funext fun f => by simp only [uidCounter, hsync]
  have h : db'.ledger = db.ledger := by simp only [ledger, hcounter, huid]
  rw [h]
  exact Advances.refl _

/-- A database with fewer mappings. -/
theorem advances_of_delete {db db' : Cache} (p : String × String → Nat → Bool)
    (huid : db'.uidMap = db.uidMap.deleteWhere p) (hsync : db'.syncState = db.syncState) :
    Advances db.ledger db'.ledger := by
  refine Advances.revoke (fun folder => ?_) fun folder id n h => ?_
  · simp only [ledger, uidCounter, hsync]
  · simp only [ledger, huid, Table.get?_deleteWhere, Option.filter_eq_some_iff] at h
    exact h.1

/-- The state after `assign_uid_if_missing` of a message without a mapping. -/
theorem assignUidIfMissing_of_none {db : Cache} {folder id : String}
    (h : db.uidMap.get? (id, folder) = none) :
    db.assignUidIfMissing folder id =
      ({ db with
          uidMap := db.uidMap.insertIgnore (id, folder) (db.nextUid folder)
          syncState := db.syncState.upsert (uidNextKey folder) (toString (db.nextUid folder + 1)) },
        toU32 (db.nextUid folder)) := by
  simp only [assignUidIfMissing, h]

theorem assignUidIfMissing_of_some {db : Cache} {folder id : String} {uid : Nat}
    (h : db.uidMap.get? (id, folder) = some uid) :
    db.assignUidIfMissing folder id = (db, toU32 uid) := by
  simp only [assignUidIfMissing, h]

theorem uidCounter_assign {db : Cache} {folder id : String}
    (h : db.uidMap.get? (id, folder) = none) (f : String) :
    (db.assignUidIfMissing folder id).1.uidCounter f =
      if f = folder then db.nextUid folder + 1 else db.uidCounter f := by
  rw [assignUidIfMissing_of_none h]
  by_cases hf : f = folder
  · subst hf
    rw [uidCounter, Table.get?_upsert, if_pos rfl, if_pos rfl, Option.bind_some,
      parseInt_toString]
    simp
  · have hkey : uidNextKey f ≠ uidNextKey folder := fun hk => hf (uidNextKey_injective hk)
    simp [uidCounter, hf, hkey]

/-- The mappings after `assign_uid_if_missing`. -/
theorem get?_uidMap_assign (db : Cache) (folder id : String) (k : String × String) :
    (db.assignUidIfMissing folder id).1.uidMap.get? k =
      if k = (id, folder) then some ((db.uidMap.get? (id, folder)).getD (db.nextUid folder))
      else db.uidMap.get? k := by
  cases h : db.uidMap.get? (id, folder) with
  | none => simp [assignUidIfMissing_of_none h, Table.get?_insertIgnore, h]
  | some uid =>
      rw [assignUidIfMissing_of_some h]
      by_cases hk : k = (id, folder)
      · simp [hk, h]
      · simp [hk]

/-- `assign_uid_if_missing` issues at most one number. -/
theorem advances_assign (db : Cache) (folder id : String) :
    Advances db.ledger (db.assignUidIfMissing folder id).1.ledger := by
  cases h : db.uidMap.get? (id, folder) with
  | some uid =>
      rw [assignUidIfMissing_of_some h]
      exact Advances.refl _
  | none =>
      refine Advances.issue folder id (db.one_le_nextUid folder)
        (fun hs => nextUid_eq hs folder) (uidCounter_assign h) ?_
      intro f i
      have hkey : (i, f) = (id, folder) ↔ f = folder ∧ i = id := by
        rw [Prod.mk.injEq, and_comm]
      simp only [ledger, get?_uidMap_assign, h, Option.getD_none, hkey]

theorem advances_assignEach (db : Cache) (folder : String) (ids : List String) :
    Advances db.ledger (db.assignEach folder ids).ledger := by
  induction ids generalizing db with
  | nil => exact Advances.refl _
  | cons id ids ih => exact (advances_assign db folder id).trans (ih _)

theorem advances_removeUidMapping (db : Cache) (uid : Nat) (folder : String) :
    Advances db.ledger (db.removeUidMapping uid folder).ledger :=
  advances_of_delete (fun k u => u = uid && k.2 = folder) rfl rfl

theorem advances_deleteMessageByUid (db : Cache) (uid : Nat) (folder : String) :
    Advances db.ledger (db.deleteMessageByUid uid folder).ledger := by
  cases h : db.uidOwner uid folder with
  | none =>
      rw [deleteMessageByUid, h]
      exact Advances.refl _
  | some id =>
      rw [deleteMessageByUid, h]
      exact advances_of_delete (fun k _ => k.1 = id && k.2 = folder) rfl rfl

theorem advances_deleteMessageByAsterId (db : Cache) (id : String) :
    Advances db.ledger (db.deleteMessageByAsterId id).ledger :=
  advances_of_delete (fun k _ => k.1 = id) rfl rfl

theorem advances_deleteEach (db : Cache) (ids : List String) :
    Advances db.ledger (ids.foldl deleteMessageByAsterId db).ledger := by
  induction ids generalizing db with
  | nil => exact Advances.refl _
  | cons id ids ih => exact (advances_deleteMessageByAsterId db id).trans (ih _)

theorem advances_setFolderIfChanged (db : Cache) (id folder : String) :
    Advances db.ledger (db.setFolderIfChanged id folder).ledger := by
  unfold setFolderIfChanged
  split
  · exact Advances.refl _
  · split
    · exact Advances.refl _
    · exact advances_of_delete (fun k _ => k.1 = id && k.2 ≠ folder) rfl rfl

theorem advances_relocateRows (db : Cache) (source target : String) :
    Advances db.ledger (db.relocateRows source target).ledger :=
  advances_of_delete (fun k _ => k.2 = source) rfl rfl

theorem advances_upsertCachedMessage (db : Cache) (now id folder : String) (v : MessageValues) :
    Advances db.ledger (db.upsertCachedMessage now id folder v).1.ledger := by
  unfold upsertCachedMessage
  split <;> exact advances_of_eq rfl rfl

end Cache

open Cache

/-! ## Runs -/

/-- A UID handed out: the value that `assign_uid_if_missing` returned. -/
structure Assignment where
  folder : String
  asterId : String
  uid : Nat
  deriving DecidableEq, Repr

/-- A call of one of the functions that write messages and mappings. -/
inductive UidCall where
  | upsertCachedMessage (now asterId folder : String) (v : MessageValues)
  | assignUidIfMissing (folder asterId : String)
  | removeUidMapping (uid : Nat) (folder : String)
  | deleteMessageByUid (uid : Nat) (folder : String)
  | deleteMessageByAsterId (asterId : String)
  | setFolderIfChanged (asterId folder : String)
  | relocateFolderMessages (source target : String)
  | trimFoldersToNewest (keep : Nat)

/-- A database with every UID that was ever handed out, in order. -/
structure Tracked where
  db : Cache
  assigned : List Assignment

namespace Tracked

/-- A new database. -/
def start : Tracked := ⟨Cache.empty, []⟩

/-- `assign_uid_if_missing`, noting the UID of a message without a mapping. -/
def assign (s : Tracked) (folder asterId : String) : Tracked :=
  ⟨(s.db.assignUidIfMissing folder asterId).1,
    match s.db.uidMap.get? (asterId, folder) with
    | some _ => s.assigned
    | none => s.assigned ++ [⟨folder, asterId, (s.db.assignUidIfMissing folder asterId).2⟩]⟩

/-- One call. -/
def step (s : Tracked) : UidCall → Tracked
  | .upsertCachedMessage now asterId folder v =>
      { s with db := (s.db.upsertCachedMessage now asterId folder v).1 }
  | .assignUidIfMissing folder asterId => s.assign folder asterId
  | .removeUidMapping uid folder => { s with db := s.db.removeUidMapping uid folder }
  | .deleteMessageByUid uid folder => { s with db := s.db.deleteMessageByUid uid folder }
  | .deleteMessageByAsterId asterId => { s with db := s.db.deleteMessageByAsterId asterId }
  | .setFolderIfChanged asterId folder => { s with db := s.db.setFolderIfChanged asterId folder }
  | .relocateFolderMessages source target =>
      (s.db.folderIds source).foldl (fun s id => s.assign target id)
        { s with db := s.db.relocateRows source target }
  | .trimFoldersToNewest keep => { s with db := (s.db.trimFoldersToNewest keep).1 }

/-- The fold of `relocate_folder_messages` is the code's. -/
theorem db_foldl_assign (s : Tracked) (folder : String) (ids : List String) :
    (ids.foldl (fun s id => s.assign folder id) s).db = s.db.assignEach folder ids := by
  induction ids generalizing s with
  | nil => rfl
  | cons id ids ih => exact ih (s.assign folder id)

theorem db_step_relocate (s : Tracked) (source target : String) :
    (s.step (.relocateFolderMessages source target)).db =
      (s.db.relocateFolderMessages source target).1 :=
  db_foldl_assign _ target _

/-- The ledger is sound, and as long as the counter of a folder fits in a `u32`
the UIDs handed out there are increasing and below the counter. -/
structure Increasing (s : Tracked) : Prop where
  sound : s.db.ledger.Sound
  below : ∀ folder, s.db.uidCounter folder ≤ 2 ^ 32 →
    ∀ a ∈ s.assigned, a.folder = folder → a.uid < s.db.uidCounter folder
  sorted : ∀ folder, s.db.uidCounter folder ≤ 2 ^ 32 →
    ((s.assigned.filter fun a => a.folder = folder).map (·.uid)).Pairwise (· < ·)

theorem increasing_start : Increasing start :=
  ⟨sound_empty, fun _ _ _ ha => absurd ha List.not_mem_nil, fun _ _ => List.Pairwise.nil⟩

/-- A call that hands out nothing. -/
theorem Increasing.advance {s : Tracked} (h : Increasing s) {db' : Cache}
    (hadv : Advances s.db.ledger db'.ledger) : Increasing { s with db := db' } where
  sound := hadv.sound h.sound
  below folder hfit a ha hf := by
    have hle := hadv.next_le h.sound folder
    exact (h.below folder (hle.trans hfit) a ha hf).trans_le hle
  sorted folder hfit := h.sorted folder ((hadv.next_le h.sound folder).trans hfit)

/-- **Step lemma for `assign_uid_if_missing`.** -/
theorem Increasing.assign {s : Tracked} (h : Increasing s) (folder id : String) :
    Increasing (s.assign folder id) := by
  have hadv := advances_assign s.db folder id
  have hmono := h.advance hadv
  cases hmap : s.db.uidMap.get? (id, folder) with
  | some uid =>
      have heq : s.assign folder id = { s with db := (s.db.assignUidIfMissing folder id).1 } := by
        simp only [Tracked.assign, hmap]
      rw [heq]
      exact hmono
  | none =>
      have hnext := nextUid_eq h.sound folder
      have huid : (s.db.assignUidIfMissing folder id).2 = toU32 (s.db.nextUid folder) := by
        rw [assignUidIfMissing_of_none hmap]
      have heq : s.assign folder id =
          ⟨(s.db.assignUidIfMissing folder id).1,
            s.assigned ++ [⟨folder, id, toU32 (s.db.nextUid folder)⟩]⟩ := by
        simp only [Tracked.assign, hmap, huid]
      rw [heq]
      -- in its own folder the new UID is the old counter, whole when the new one fits
      have hwhole : (s.db.assignUidIfMissing folder id).1.uidCounter folder ≤ 2 ^ 32 →
          s.db.uidCounter folder ≤ 2 ^ 32 ∧
            toU32 (s.db.nextUid folder) = s.db.uidCounter folder := by
        intro hfit
        rw [uidCounter_assign hmap, if_pos rfl, hnext] at hfit
        refine ⟨by omega, ?_⟩
        rw [hnext, toU32]
        exact Nat.mod_eq_of_lt (by omega)
      refine ⟨hmono.sound, ?_, ?_⟩
      · intro f hfit a ha hf
        rcases List.mem_append.1 ha with hold | hnew
        · exact hmono.below f hfit a hold hf
        · obtain rfl := List.mem_singleton.1 hnew
          obtain rfl : folder = f := hf
          obtain ⟨-, hu⟩ := hwhole hfit
          rw [uidCounter_assign hmap, if_pos rfl]
          show toU32 (s.db.nextUid folder) < s.db.nextUid folder + 1
          omega
      · intro f hfit
        rw [List.filter_append, List.map_append]
        by_cases hf : folder = f
        · subst hf
          obtain ⟨hold, hu⟩ := hwhole hfit
          have hsingle : ([⟨folder, id, toU32 (s.db.nextUid folder)⟩] : List Assignment).filter
              (fun a => a.folder = folder) = [⟨folder, id, toU32 (s.db.nextUid folder)⟩] := by
            simp
          rw [hsingle, List.pairwise_append]
          refine ⟨h.sorted folder hold, List.pairwise_singleton _ _, ?_⟩
          intro u hu' v hv
          obtain ⟨a, ha, rfl⟩ := List.mem_map.1 hu'
          obtain ⟨hmem, hfolder⟩ := List.mem_filter.1 ha
          have hlt := h.below folder hold a hmem (by simpa using hfolder)
          obtain rfl : v = toU32 (s.db.nextUid folder) := by simpa using hv
          omega
        · have hnone : ([⟨folder, id, toU32 (s.db.nextUid folder)⟩] : List Assignment).filter
              (fun a => a.folder = f) = [] := by
            simp [hf]
          rw [hnone, List.map_nil, List.append_nil]
          exact hmono.sorted f hfit

theorem Increasing.assignEach {s : Tracked} (h : Increasing s) (folder : String)
    (ids : List String) : Increasing (ids.foldl (fun s id => s.assign folder id) s) := by
  induction ids generalizing s with
  | nil => exact h
  | cons id ids ih => exact ih (h.assign folder id)

/-- **Step lemma.** Every call keeps the UIDs increasing. -/
theorem increasing_step (s : Tracked) (c : UidCall) (h : Increasing s) : Increasing (s.step c) := by
  cases c with
  | upsertCachedMessage now id folder v =>
      exact h.advance (advances_upsertCachedMessage s.db now id folder v)
  | assignUidIfMissing folder id => exact h.assign folder id
  | removeUidMapping uid folder => exact h.advance (advances_removeUidMapping s.db uid folder)
  | deleteMessageByUid uid folder => exact h.advance (advances_deleteMessageByUid s.db uid folder)
  | deleteMessageByAsterId id => exact h.advance (advances_deleteMessageByAsterId s.db id)
  | setFolderIfChanged id folder => exact h.advance (advances_setFolderIfChanged s.db id folder)
  | relocateFolderMessages source target =>
      exact (h.advance (advances_relocateRows s.db source target)).assignEach target _
  | trimFoldersToNewest keep => exact h.advance (advances_deleteEach s.db _)

theorem increasing_exec (calls : List UidCall) : Increasing (exec step start calls) :=
  exec_invariant (fun s c h _ => increasing_step s c h) increasing_start (guarded_true _ _ calls)

/-- What `assign_uid_if_missing` promises for a message without a mapping: its UID
is above all UIDs handed out in the folder, which were handed out in increasing
order, it is at most the announced next UID, and no two messages of the folder
share one. -/
structure FreshUid (s : Tracked) (folder id : String) : Prop where
  above : ∀ a ∈ s.assigned, a.folder = folder → a.uid < (s.db.assignUidIfMissing folder id).2
  sorted : ((s.assigned.filter fun a => a.folder = folder).map (·.uid)).Pairwise (· < ·)
  announced : (s.db.assignUidIfMissing folder id).2 ≤ s.db.uidNext folder
  owner : ∀ i j uid, s.db.uidMap.get? (i, folder) = some uid →
    s.db.uidMap.get? (j, folder) = some uid → i = j

/-- The announced next UID is not below the next one. -/
theorem nextUid_le_uidNext {db : Cache} {folder : String} (hs : db.ledger.Sound)
    (hroom : db.nextUid folder < 2 ^ 32) : db.nextUid folder ≤ db.uidNext folder := by
  have hmax := existingMax_lt hs folder
  have hnext := nextUid_eq hs folder
  have hmax' : db.maxUid folder = db.existingMax folder := Nat.mod_eq_of_lt (by omega)
  rw [hnext] at hroom ⊢
  simp only [uidNext, uidCounter, hmax'] at hmax hroom ⊢
  cases htext : db.syncState.get? (uidNextKey folder) with
  | none =>
      simp only [htext, Option.bind_none, Option.getD_none] at hmax hroom ⊢
      omega
  | some text =>
      simp only [htext, Option.bind_some] at hmax hroom ⊢
      have hparse := parseInt_toNat_le_parseUInt (2 ^ 32) text (by omega)
      omega

/-- **UIDs are never reused.** After every run, as long as the next UID of a
folder fits in a `u32`, the UID it gives to a message without a mapping is above
every UID it ever gave. -/
theorem fresh_uid_above_issued (calls : List UidCall) (folder id : String)
    (hnew : (exec step start calls).db.uidMap.get? (id, folder) = none)
    (hroom : (exec step start calls).db.nextUid folder < 2 ^ 32) :
    FreshUid (exec step start calls) folder id := by
  have h := increasing_exec calls
  generalize exec step start calls = s at h hnew hroom
  have hnext := nextUid_eq h.sound folder
  have huid : (s.db.assignUidIfMissing folder id).2 = s.db.nextUid folder := by
    rw [assignUidIfMissing_of_none hnew]
    exact Nat.mod_eq_of_lt hroom
  have hfit : s.db.uidCounter folder ≤ 2 ^ 32 := by omega
  refine ⟨?_, h.sorted folder hfit, ?_, fun i j uid hi hj => h.sound.owner folder i j uid hi hj⟩
  · intro a ha hf
    rw [huid, hnext]
    exact h.below folder hfit a ha hf
  · rw [huid]
    exact nextUid_le_uidNext h.sound hroom

/-- A message that is seen, renumbered and deleted. -/
def seenAndDeleted : List UidCall :=
  [.assignUidIfMissing "inbox" "m", .removeUidMapping 1 "inbox", .assignUidIfMissing "inbox" "m",
    .deleteMessageByAsterId "m"]

theorem fresh_uid_above_issued_deleted :
    FreshUid (exec step start seenAndDeleted) "inbox" "m" :=
  fresh_uid_above_issued seenAndDeleted "inbox" "m" (by decide) (by decide +kernel)

/-- A message is cached and deleted `n` times. -/
def churn : Nat → List UidCall
  | 0 => []
  | n + 1 => churn n ++ [.assignUidIfMissing "inbox" "m", .deleteMessageByAsterId "m"]

theorem exec_churn (n : Nat) :
    (exec step start (churn n)).db.uidMap.get? ("m", "inbox") = none ∧
      (exec step start (churn n)).db.nextUid "inbox" = n + 1 ∧
      (1 ≤ n → ⟨"inbox", "m", 1⟩ ∈ (exec step start (churn n)).assigned) := by
  induction n with
  | zero => exact ⟨rfl, by decide +kernel, fun h => absurd h (by decide)⟩
  | succ n ih =>
      obtain ⟨hmap, hnext, hfirst⟩ := ih
      have hsound := (increasing_exec (churn n)).sound
      have hsound' := (increasing_exec (churn (n + 1))).sound
      have hstep : exec step start (churn (n + 1)) =
          (((exec step start (churn n)).assign "inbox" "m").step (.deleteMessageByAsterId "m")) := by
        rw [churn, exec_append]
        rfl
      rw [hstep] at hsound' ⊢
      generalize exec step start (churn n) = s at *
      refine ⟨?_, ?_, fun _ => ?_⟩
      · simp [step, deleteMessageByAsterId, Table.get?_deleteWhere]
      · rw [nextUid_eq hsound']
        show (s.db.assignUidIfMissing "inbox" "m").1.uidCounter "inbox" = n + 1 + 1
        rw [uidCounter_assign hmap, if_pos rfl, hnext]
      · show _ ∈ (s.assign "inbox" "m").assigned
        simp only [assign, hmap, assignUidIfMissing_of_none hmap, List.mem_append,
          List.mem_singleton, hnext]
        rcases Nat.eq_zero_or_pos n with rfl | hpos
        · exact Or.inr (by decide)
        · exact Or.inl (hfirst hpos)

/-- A folder that has used up the UIDs of a `u32` hands out the UID 0. -/
theorem freshUid_fails_at_limit :
    (exec step start (churn (2 ^ 32 - 1))).db.uidMap.get? ("m", "inbox") = none ∧
      ¬ FreshUid (exec step start (churn (2 ^ 32 - 1))) "inbox" "m" := by
  obtain ⟨hmap, hnext, hfirst⟩ := exec_churn (2 ^ 32 - 1)
  refine ⟨hmap, fun h => ?_⟩
  have habove := h.above _ (hfirst (by omega)) rfl
  rw [assignUidIfMissing_of_none hmap, hnext] at habove
  exact absurd habove (by decide)

end Tracked

end AsterBridge.Db
