import AsterBridge.Db.Uids

/-!
# UIDVALIDITY across repairs

`repair_cache` and `clear_all_user_data` delete the UIDs, their counters and the stored
UIDVALIDITY; the next `uid_validity` takes a new value from the clock. Between two clearings a
UID keeps its message (`Advances.owner_unique`), so a value has one meaning as long as every
value from the clock is new and a client is told the new value before it uses a UID again
(`uid_keeps_its_message`). Neither is checked: the clock counts whole seconds, and an open
session is not told of a clearing (`uid_changes_its_message`).
-/

set_option autoImplicit false

namespace AsterBridge.Imap.UidValidity

open AsterBridge.Lib AsterBridge.Lib.Runs AsterBridge.Lib.Text AsterBridge.Lib.Ledger
open AsterBridge.Db AsterBridge.Db.Cache

/-- The key of the value in `sync_state`. -/
def validityKey : String := "uid_validity"

/-- The stored UIDVALIDITY. -/
def storedValidity (db : Cache) : Option Nat :=
  (db.syncState.get? validityKey).bind (parseUInt (2 ^ 64))

/-- `uid_validity`; `now` is the clock in seconds. -/
def uidValidity (db : Cache) (now : Nat) : Cache × Nat :=
  match storedValidity db with
  | some n => (db, n)
  | none => ({ db with syncState := db.syncState.upsert validityKey (toString now) }, now)

/-- `repair_cache` and `clear_all_user_data`, on these tables. -/
def cleared : Db.Tracked := Db.Tracked.start

/-! ## Runs -/

/-- A value of `uid_validity`, and the number of clearings before it was returned. -/
structure Validity where
  value : Nat
  epoch : Nat
deriving DecidableEq, Repr

/-- The database, and what the clients were told of each folder. -/
structure World where
  cache : Db.Tracked
  epoch : Nat
  told : String → String → Option Validity
  returned : List Validity

/-- A call that writes messages or mappings, a clearing, or a response that tells a client the
UIDVALIDITY of a folder: to SELECT, EXAMINE, STATUS, APPEND or COPY. -/
inductive Action where
  | call (c : UidCall)
  | clear
  | tell (client folder : String) (now : Nat)

/-- One action. -/
def World.step (w : World) : Action → World
  | .call c => { w with cache := w.cache.step c }
  | .clear => { w with cache := cleared, epoch := w.epoch + 1 }
  | .tell client folder now =>
      let (db, value) := uidValidity w.cache.db now
      let validity := ⟨value, w.epoch⟩
      { w with
        cache := { w.cache with db }
        told := fun c f => if c = client ∧ f = folder then some validity else w.told c f
        returned := validity :: w.returned }

/-- A new database. -/
def World.start : World := ⟨Db.Tracked.start, 0, fun _ _ => none, []⟩

/-- A value taken from the clock was not returned before the last clearing. -/
def World.ClockIsNew (w : World) : Action → Prop
  | .tell _ _ now => storedValidity w.cache.db = none →
      ∀ v ∈ w.returned, v.epoch ≠ w.epoch → v.value ≠ now
  | _ => True

instance decidableClockIsNew (w : World) : ∀ a, Decidable (w.ClockIsNew a)
  | .tell _ _ now => inferInstanceAs (Decidable (storedValidity w.cache.db = none →
      ∀ v ∈ w.returned, v.epoch ≠ w.epoch → v.value ≠ now))
  | .call _ => isTrue trivial
  | .clear => isTrue trivial

/-- The UID of a folder names a message. -/
def World.Names (w : World) (folder : String) (uid : Nat) (id : String) : Prop :=
  ∃ n, w.cache.db.uidMap.get? (id, folder) = some n ∧ toU32 n = uid

/-- The client was last told the value, and nothing was cleared since. -/
def World.Tells (w : World) (client folder : String) (value : Nat) : Prop :=
  w.told client folder = some ⟨value, w.epoch⟩

/-- A UID of a folder names one message at both moments, when the client was last told one
value, nothing was cleared since then, and the UIDs of the folder fit in a `u32`. -/
def OneMeaning (s t : World) : Prop :=
  ∀ client folder value uid i j, s.Tells client folder value → t.Tells client folder value →
    t.cache.db.uidCounter folder ≤ 2 ^ 32 → s.Names folder uid i → t.Names folder uid j → i = j

/-- The values returned after a clearing differ from those before it. -/
def NewValues (w : World) : Prop :=
  ∀ u ∈ w.returned, ∀ v ∈ w.returned, u.epoch ≠ v.epoch → u.value ≠ v.value

/-! ## The stored value -/

theorem uidNextKey_ne_validityKey (folder : String) : uidNextKey folder ≠ validityKey := by
  intro h
  have hlist := congrArg (fun s => s.toList[3]?) h
  simp only [uidNextKey, validityKey, String.toList_append] at hlist
  rw [List.getElem?_append_left (by decide)] at hlist
  exact absurd hlist (by decide)

section Calls

variable {w : World}

theorem syncState_assign (s : Db.Tracked) (folder id : String) :
    (s.assign folder id).db.syncState.get? validityKey = s.db.syncState.get? validityKey := by
  cases h : s.db.uidMap.get? (id, folder) with
  | some uid => simp only [Db.Tracked.assign, assignUidIfMissing_of_some h]
  | none =>
      simp only [Db.Tracked.assign, assignUidIfMissing_of_none h, Table.get?_upsert]
      rw [if_neg (Ne.symm (uidNextKey_ne_validityKey folder))]

theorem syncState_assignEach (s : Db.Tracked) (folder : String) (ids : List String) :
    (ids.foldl (fun s id => s.assign folder id) s).db.syncState.get? validityKey =
      s.db.syncState.get? validityKey := by
  induction ids generalizing s with
  | nil => rfl
  | cons id ids ih => rw [List.foldl_cons, ih, syncState_assign]

theorem syncState_deleteEach (db : Cache) (ids : List String) :
    (ids.foldl deleteMessageByAsterId db).syncState = db.syncState := by
  induction ids generalizing db with
  | nil => rfl
  | cons id ids ih =>
      rw [List.foldl_cons, ih]
      rfl

/-- The calls that write messages and mappings leave the stored value alone. -/
theorem storedValidity_step (s : Db.Tracked) (c : UidCall) :
    storedValidity (s.step c).db = storedValidity s.db := by
  have hkey : (s.step c).db.syncState.get? validityKey = s.db.syncState.get? validityKey := by
    cases c with
    | upsertCachedMessage now id folder v =>
        simp only [Db.Tracked.step, upsertCachedMessage]
        split <;> rfl
    | assignUidIfMissing folder id => exact syncState_assign s folder id
    | removeUidMapping uid folder => rfl
    | deleteMessageByUid uid folder =>
        simp only [Db.Tracked.step, deleteMessageByUid]
        split <;> rfl
    | deleteMessageByAsterId id => rfl
    | setFolderIfChanged id folder =>
        simp only [Db.Tracked.step, setFolderIfChanged]
        split
        · rfl
        · split <;> rfl
    | relocateFolderMessages source target => exact syncState_assignEach _ target _
    | trimFoldersToNewest keep =>
        exact congrArg (·.get? validityKey) (syncState_deleteEach s.db _)
  rw [storedValidity, storedValidity, hkey]

/-- The calls issue and revoke UIDs. -/
theorem advances_step (s : Db.Tracked) (c : UidCall) :
    Advances s.db.ledger (s.step c).db.ledger := by
  cases c with
  | upsertCachedMessage now id folder v => exact advances_upsertCachedMessage s.db now id folder v
  | assignUidIfMissing folder id => exact advances_assign s.db folder id
  | removeUidMapping uid folder => exact advances_removeUidMapping s.db uid folder
  | deleteMessageByUid uid folder => exact advances_deleteMessageByUid s.db uid folder
  | deleteMessageByAsterId id => exact advances_deleteMessageByAsterId s.db id
  | setFolderIfChanged id folder => exact advances_setFolderIfChanged s.db id folder
  | relocateFolderMessages source target =>
      rw [Db.Tracked.db_step_relocate]
      exact (advances_relocateRows s.db source target).trans (advances_assignEach _ target _)
  | trimFoldersToNewest keep => exact advances_deleteEach s.db _

/-- `uid_validity` leaves the UIDs and their counters alone. -/
theorem ledger_uidValidity (db : Cache) (now : Nat) : (uidValidity db now).1.ledger = db.ledger := by
  unfold uidValidity
  split
  · rfl
  · have hcounter : ∀ folder, uidCounter
        { db with syncState := db.syncState.upsert validityKey (toString now) } folder =
          uidCounter db folder := by
      intro folder
      rw [uidCounter, uidCounter, Table.get?_upsert, if_neg (uidNextKey_ne_validityKey folder)]
    simp only [ledger]
    congr 1
    exact funext hcounter

/-! ## One meaning -/

/-- The stored value was returned since the last clearing, values of different epochs differ,
and clients were told values that were returned. -/
structure Distinct (w : World) : Prop where
  sound : w.cache.db.ledger.Sound
  past : ∀ v ∈ w.returned, v.epoch ≤ w.epoch
  stored : ∀ n, storedValidity w.cache.db = some n → ⟨n, w.epoch⟩ ∈ w.returned
  distinct : ∀ u ∈ w.returned, ∀ v ∈ w.returned, u.value = v.value → u.epoch = v.epoch
  told : ∀ client folder v, w.told client folder = some v → v ∈ w.returned

theorem distinct_start : Distinct World.start where
  sound := sound_empty
  past _ hv := absurd hv List.not_mem_nil
  stored _ hn := absurd hn (by simp [storedValidity, World.start, Db.Tracked.start, empty])
  distinct _ hu := absurd hu List.not_mem_nil
  told _ _ _ hv := absurd hv (by simp [World.start])

/-- What `uid_validity` returns is the stored value, or the clock when there is none. -/
theorem uidValidity_cases (db : Cache) (now : Nat) :
    storedValidity db = some (uidValidity db now).2 ∧ (uidValidity db now).1 = db ∨
      storedValidity db = none ∧ (uidValidity db now).2 = now ∧
        ∀ n, storedValidity (uidValidity db now).1 = some n → n = now := by
  unfold uidValidity
  cases h : storedValidity db with
  | some n => exact Or.inl ⟨rfl, rfl⟩
  | none =>
      refine Or.inr ⟨rfl, rfl, ?_⟩
      intro n hn
      rw [storedValidity, Table.get?_upsert, if_pos rfl, Option.bind_some, parseUInt_toString] at hn
      split at hn
      · exact (Option.some.inj hn).symm
      · exact absurd hn (by simp)

/-- **Step lemma.** While the clock gives new values, values of different epochs differ. -/
theorem distinct_step (w : World) (a : Action) (h : Distinct w) (ha : w.ClockIsNew a) :
    Distinct (w.step a) := by
  cases a with
  | call c =>
      refine ⟨(advances_step w.cache c).sound h.sound, h.past, ?_, h.distinct, h.told⟩
      intro n hn
      have hn : storedValidity (w.cache.step c).db = some n := hn
      rw [storedValidity_step] at hn
      exact h.stored n hn
  | clear =>
      refine ⟨sound_empty, fun v hv => (h.past v hv).trans (Nat.le_succ _), ?_, h.distinct, h.told⟩
      exact fun n hn => distinct_start.stored n hn |> fun hmem => absurd hmem List.not_mem_nil
  | tell client folder now =>
      have hsound : (uidValidity w.cache.db now).1.ledger.Sound := by
        rw [ledger_uidValidity]
        exact h.sound
      have hnew : ∀ v ∈ w.returned, v.value = (uidValidity w.cache.db now).2 → v.epoch = w.epoch := by
        intro v hv hvalue
        rcases uidValidity_cases w.cache.db now with ⟨hstored, _⟩ | ⟨hnone, hnow, _⟩
        · exact h.distinct v hv _ (h.stored _ hstored) hvalue
        · by_contra hepoch
          exact ha hnone v hv hepoch (hvalue.trans hnow)
      refine ⟨hsound, ?_, ?_, ?_, ?_⟩
      · intro v hv
        rcases List.mem_cons.1 hv with rfl | hv
        · exact le_rfl
        · exact h.past v hv
      · intro n hn
        have hn : storedValidity (uidValidity w.cache.db now).1 = some n := hn
        show (⟨n, w.epoch⟩ : Validity) ∈ ⟨(uidValidity w.cache.db now).2, w.epoch⟩ :: w.returned
        rcases uidValidity_cases w.cache.db now with ⟨_, hsame⟩ | ⟨_, hnow, hstored⟩
        · rw [hsame] at hn
          exact List.mem_cons_of_mem _ (h.stored n hn)
        · rw [hnow, hstored n hn]
          exact List.mem_cons_self
      · intro u hu v hv hvalue
        rcases List.mem_cons.1 hu with rfl | hu
        · rcases List.mem_cons.1 hv with rfl | hv
          · rfl
          · exact (hnew v hv hvalue.symm).symm
        · rcases List.mem_cons.1 hv with rfl | hv
          · exact hnew u hu hvalue
          · exact h.distinct u hu v hv hvalue
      · intro c f v hv
        have hv : (if c = client ∧ f = folder then
            some ⟨(uidValidity w.cache.db now).2, w.epoch⟩ else w.told c f) = some v := hv
        split at hv
        · obtain rfl := Option.some.inj hv
          exact List.mem_cons_self
        · exact List.mem_cons_of_mem _ (h.told c f v hv)

/-- A later state: returned values stay, and without a clearing the UIDs only advance. -/
def Later (s t : World) : Prop :=
  s.epoch ≤ t.epoch ∧ (∀ v ∈ s.returned, v ∈ t.returned) ∧
    (s.epoch = t.epoch → Advances s.cache.db.ledger t.cache.db.ledger)

theorem later_refl (s : World) : Later s s := ⟨le_rfl, fun _ hv => hv, fun _ => Advances.refl _⟩

theorem later_trans (s t u : World) (h : Later s t) (h' : Later t u) : Later s u := by
  refine ⟨h.1.trans h'.1, fun v hv => h'.2.1 v (h.2.1 v hv), fun hepoch => ?_⟩
  have hst : s.epoch = t.epoch := le_antisymm h.1 (hepoch ▸ h'.1)
  exact (h.2.2 hst).trans (h'.2.2 (hst.symm.trans hepoch))

theorem later_step (w : World) (a : Action) : Later w (w.step a) := by
  cases a with
  | call c => exact ⟨le_rfl, fun _ hv => hv, fun _ => advances_step w.cache c⟩
  | clear =>
      refine ⟨Nat.le_succ _, fun _ hv => hv, fun hepoch => ?_⟩
      exact absurd hepoch (Nat.ne_of_lt (Nat.lt_succ_self _))
  | tell client folder now =>
      refine ⟨le_rfl, fun _ hv => List.mem_cons_of_mem _ hv, fun _ => ?_⟩
      show Advances w.cache.db.ledger (uidValidity w.cache.db now).1.ledger
      rw [ledger_uidValidity]
      exact Advances.refl _

end Calls

/-- **A UID keeps its message under one UIDVALIDITY, and a clearing changes the value**, in
every run whose clock gives new values, at every two of its moments. -/
theorem uid_keeps_its_message (before after : List Action)
    (hclock : Guarded World.step World.ClockIsNew World.start (before ++ after)) :
    OneMeaning (exec World.step World.start before)
        (exec World.step World.start (before ++ after)) ∧
      NewValues (exec World.step World.start (before ++ after)) := by
  have hbefore : Distinct (exec World.step World.start before) :=
    exec_invariant distinct_step distinct_start
      ((guarded_append World.step World.ClockIsNew World.start before after).1 hclock).1
  have hafter : Distinct (exec World.step World.start (before ++ after)) :=
    exec_invariant distinct_step distinct_start hclock
  have hlater : Later (exec World.step World.start before)
      (exec World.step World.start (before ++ after)) := by
    rw [exec_append]
    exact exec_relation (I := fun _ => True) later_refl later_trans (fun _ _ _ _ => trivial)
      (fun s a _ _ => later_step s a) trivial (guarded_true World.step _ after)
  generalize exec World.step World.start (before ++ after) = t at hafter hlater ⊢
  generalize exec World.step World.start before = s at hbefore hlater ⊢
  refine ⟨?_, fun u hu v hv hepoch hvalue => hepoch (hafter.distinct u hu v hv hvalue)⟩
  rintro client folder value uid i j hs ht hroom ⟨m, hm, hmu⟩ ⟨n, hn, hnu⟩
  -- one value, so one epoch, in which the ledger has only advanced
  have hepoch : s.epoch = t.epoch :=
    hafter.distinct _ (hlater.2.1 _ (hbefore.told client folder _ hs)) _
      (hafter.told client folder _ ht) rfl
  have hadvances := hlater.2.2 hepoch
  have hmlt : m < t.cache.db.uidCounter folder :=
    (hbefore.sound.below folder i m hm).trans_le (hadvances.next_le hbefore.sound folder)
  have hnlt : n < t.cache.db.uidCounter folder := hafter.sound.below folder j n hn
  have hsame : m = n := by
    have hm32 : toU32 m = m := Nat.mod_eq_of_lt (hmlt.trans_le hroom)
    have hn32 : toU32 n = n := Nat.mod_eq_of_lt (hnlt.trans_le hroom)
    rw [← hm32, ← hn32, hmu, hnu]
  subst hsame
  exact hadvances.owner_unique hbefore.sound hm hn

/-- A client selects the inbox, and a message gets the UID 1. -/
def selected : List Action :=
  [.tell "c" "inbox" 100, .call (.assignUidIfMissing "inbox" "a")]

/-- The cache is cleared and filled again a second later, and the client selects again. -/
def selectedAgain : List Action :=
  [.clear, .call (.assignUidIfMissing "inbox" "b"), .tell "c" "inbox" 101]

theorem uid_keeps_its_message_selectedAgain :
    OneMeaning (exec World.step World.start selected)
        (exec World.step World.start (selected ++ selectedAgain)) ∧
      NewValues (exec World.step World.start (selected ++ selectedAgain)) :=
  uid_keeps_its_message selected selectedAgain (by decide +kernel)

/-- The cache is cleared and filled again under an open session. -/
def openSession : List Action := [.clear, .call (.assignUidIfMissing "inbox" "b")]

/-- The same within the second of the first SELECT, and the client selects again. -/
def sameSecond : List Action :=
  [.clear, .call (.assignUidIfMissing "inbox" "b"), .tell "c" "inbox" 100]

/-- In both runs the client was last told 100 at both moments, and the UID 1 names another
message; in the second run the clearing did not change the value. -/
theorem uid_changes_its_message :
    (exec World.step World.start selected).told "c" "inbox" = some ⟨100, 0⟩ ∧
      (exec World.step World.start selected).Names "inbox" 1 "a" ∧
      ((exec World.step World.start (selected ++ openSession)).told "c" "inbox" = some ⟨100, 0⟩ ∧
        (exec World.step World.start (selected ++ openSession)).Names "inbox" 1 "b") ∧
      (exec World.step World.start (selected ++ sameSecond)).told "c" "inbox" = some ⟨100, 1⟩ ∧
        (exec World.step World.start (selected ++ sameSecond)).Names "inbox" 1 "b" :=
  ⟨by decide +kernel, ⟨1, by decide +kernel, by decide⟩,
    ⟨by decide +kernel, ⟨1, by decide +kernel, by decide⟩⟩, by decide +kernel,
    ⟨1, by decide +kernel, by decide⟩⟩

end AsterBridge.Imap.UidValidity
