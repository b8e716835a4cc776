import AsterBridge.Lib.Table

/-!
# The queue of flag changes for the server

Table `pending_flag_push`: for a message and a flag bit the value that the server
has still to be told, with the number of failed attempts and the time it was
queued. A bit is given by its position, so the column `bit` holds `2 ^ bit`.
-/

set_option autoImplicit false

namespace AsterBridge.Db

open AsterBridge.Lib

/-- A row of `pending_flag_push` for a message and a bit. -/
structure PendingRow where
  value : Bool
  attempts : Int
  queuedAt : Int
  deriving DecidableEq, Repr

instance neZeroBits : NeZero 64 := ⟨by decide⟩

/-- Table `pending_flag_push`, by aster id and bit. -/
abbrev FlagPushQueue := Table (String × Fin 64) PendingRow

namespace FlagPushQueue

/-- `record_pending_flag_pushes`: a row that exists gets the new value and starts
again. -/
def recordPendingFlagPushes (q : FlagPushQueue) (now : Int) (changes : List (String × Bool))
    (bit : Fin 64) : FlagPushQueue :=
  changes.foldl (fun q c => q.upsert (c.1, bit) ⟨c.2, 0, now⟩) q

/-- `clear_pending_flag_pushes`: only rows with this value. -/
def clearPendingFlagPushes (q : FlagPushQueue) (asterIds : List String) (bit : Fin 64)
    (value : Bool) : FlagPushQueue :=
  asterIds.foldl (fun q id => q.deleteWhere fun k r => k = (id, bit) && r.value = value) q

/-- `note_failed_flag_push`: only a row with this value. -/
def noteFailedFlagPush (q : FlagPushQueue) (asterId : String) (bit : Fin 64) (value : Bool) :
    FlagPushQueue :=
  q.updateWhere (fun k r => k = (asterId, bit) && r.value = value)
    fun _ r => { r with attempts := r.attempts + 1 }

/-- `drop_exhausted_flag_pushes`. -/
def dropExhaustedFlagPushes (q : FlagPushQueue) (maxAttempts : Int) : FlagPushQueue :=
  q.deleteWhere fun _ r => maxAttempts ≤ r.attempts

/-- `pending_flag_pushes`: the oldest rows that were queued long enough ago. -/
def pendingFlagPushes (q : FlagPushQueue) (now minAge : Int) (limit : Nat) :
    List (String × Fin 64 × Bool) :=
  (((q.rows.filter fun e => e.2.queuedAt ≤ now - minAge).mergeSort fun a b =>
    a.2.queuedAt ≤ b.2.queuedAt).take limit).map fun e => (e.1.1, e.1.2, e.2.value)

/-- `pending_flag_values` of one message. -/
def pendingFlagValues (q : FlagPushQueue) (asterId : String) : List (Fin 64 × Bool) :=
  (q.rows.filter fun e => e.1.1 = asterId).map fun e => (e.1.2, e.2.value)

/-- The value that is queued for a message and a bit. -/
def pendingValue (q : FlagPushQueue) (asterId : String) (bit : Fin 64) : Option Bool :=
  (q.get? (asterId, bit)).map (·.value)

theorem mem_pendingFlagValues {q : FlagPushQueue} {asterId : String} {bit : Fin 64} {value : Bool} :
    (bit, value) ∈ q.pendingFlagValues asterId ↔ q.pendingValue asterId bit = some value := by
  simp only [pendingFlagValues, pendingValue, List.mem_map, List.mem_filter,
    Option.map_eq_some_iff, Table.get?_eq_some_iff]
  constructor
  · rintro ⟨⟨⟨id, b⟩, r⟩, ⟨hmem, hid⟩, heq⟩
    obtain rfl : id = asterId := by simpa using hid
    obtain ⟨rfl, rfl⟩ := Prod.mk.inj heq
    exact ⟨r, hmem, rfl⟩
  · rintro ⟨r, hmem, rfl⟩
    exact ⟨((asterId, bit), r), ⟨hmem, by simp⟩, rfl⟩

theorem pendingFlagValues_nodup (q : FlagPushQueue) (asterId : String) :
    ((q.pendingFlagValues asterId).map Prod.fst).Nodup := by
  have hkeys : ((q.rows.filter fun e => e.1.1 = asterId).map Prod.fst).Nodup :=
    q.nodup.sublist (List.filter_sublist.map _)
  have hmap : (q.pendingFlagValues asterId).map Prod.fst =
      ((q.rows.filter fun e => e.1.1 = asterId).map Prod.fst).map Prod.snd := by
    simp [pendingFlagValues]
  rw [hmap]
  refine List.Nodup.map_on ?_ hkeys
  rintro ⟨i, b⟩ hi ⟨j, c⟩ hj rfl
  have hfst : ∀ k ∈ (q.rows.filter fun e => e.1.1 = asterId).map Prod.fst, k.1 = asterId := by
    intro k hk
    obtain ⟨e, he, rfl⟩ := List.mem_map.1 hk
    simpa using (List.mem_filter.1 he).2
  rw [show i = asterId from hfst _ hi, show j = asterId from hfst _ hj]

/-! ## What the functions do to the queued values -/

section Values

variable (q : FlagPushQueue) (id : String) (bit : Fin 64)

theorem pendingValue_clear (p : String) (b : Fin 64) (value : Bool) :
    (q.clearPendingFlagPushes [p] b value).pendingValue id bit =
      if (id, bit) = (p, b) ∧ q.pendingValue id bit = some value then none
      else q.pendingValue id bit := by
  rw [clearPendingFlagPushes, List.foldl_cons, List.foldl_nil, pendingValue, pendingValue,
    Table.get?_deleteWhere]
  cases hrow : q.get? (id, bit) with
  | none => simp
  | some r => by_cases hkey : (id, bit) = (p, b) <;> by_cases hval : r.value = value <;>
      simp [hkey, hval]

theorem pendingValue_noteFailed (p : String) (b : Fin 64) (value : Bool) :
    (q.noteFailedFlagPush p b value).pendingValue id bit = q.pendingValue id bit := by
  rw [pendingValue, pendingValue, noteFailedFlagPush, Table.get?_updateWhere, Option.map_map]
  refine congrArg (fun f => (q.get? (id, bit)).map f) (funext fun r => ?_)
  show (if _ then _ else r : PendingRow).value = r.value
  split <;> rfl

theorem pendingValue_dropExhausted (limit : Int) :
    (q.dropExhaustedFlagPushes limit).pendingValue id bit = q.pendingValue id bit ∨
      (q.dropExhaustedFlagPushes limit).pendingValue id bit = none ∧
        (id, bit) ∈ (q.rows.filter fun e => limit ≤ e.2.attempts).map Prod.fst := by
  rw [pendingValue, pendingValue, dropExhaustedFlagPushes, Table.get?_deleteWhere]
  cases hrow : q.get? (id, bit) with
  | none => exact Or.inl rfl
  | some r =>
      by_cases hlimit : limit ≤ r.attempts
      · have hmem := Table.get?_eq_some_iff.1 hrow
        exact Or.inr ⟨by simp [hlimit],
          List.mem_map.2 ⟨_, List.mem_filter.2 ⟨hmem, by simpa using hlimit⟩, rfl⟩⟩
      · exact Or.inl (by simpa using hlimit)

theorem pendingValue_upsert (k : String × Fin 64) (r : PendingRow) :
    FlagPushQueue.pendingValue (q.upsert k r) id bit =
      if (id, bit) = k then some r.value else q.pendingValue id bit := by
  rw [pendingValue, pendingValue, Table.get?_upsert]
  split <;> rfl

/-- Queuing changes does not touch the rows of other messages and bits. -/
theorem pendingValue_record_other (now : Int) (changes : List (String × Bool)) (b : Fin 64)
    (hother : bit = b → ∀ value, (id, value) ∉ changes) :
    (q.recordPendingFlagPushes now changes b).pendingValue id bit = q.pendingValue id bit := by
  induction changes generalizing q with
  | nil => rfl
  | cons c cs ih =>
      have hne : (id, bit) ≠ (c.1, b) := by
        intro h
        obtain ⟨rfl, rfl⟩ := Prod.mk.inj h
        exact hother rfl c.2 List.mem_cons_self
      refine (ih _ fun hb value hmem => hother hb value (List.mem_cons_of_mem c hmem)).trans ?_
      rw [pendingValue_upsert, if_neg hne]

/-- A queued change is the row's value, when all changes of the message agree. -/
theorem pendingValue_record (now : Int) (changes : List (String × Bool)) (value : Bool)
    (hmem : (id, value) ∈ changes) (hagree : ∀ w, (id, w) ∈ changes → w = value) :
    (q.recordPendingFlagPushes now changes bit).pendingValue id bit = some value := by
  induction changes generalizing q with
  | nil => exact absurd hmem List.not_mem_nil
  | cons c cs ih =>
      by_cases hlater : ∃ w, (id, w) ∈ cs
      · obtain ⟨w, hw⟩ := hlater
        obtain rfl := hagree w (List.mem_cons_of_mem c hw)
        exact ih _ hw fun w hw => hagree w (List.mem_cons_of_mem c hw)
      · -- the first change is the only one of the message
        have hc : c = (id, value) :=
          ((List.mem_cons.1 hmem).resolve_right fun h => hlater ⟨value, h⟩).symm
        subst hc
        refine (pendingValue_record_other _ id bit now cs bit
          fun _ w hw => hlater ⟨w, hw⟩).trans ?_
        rw [pendingValue_upsert, if_pos rfl]

end Values

end FlagPushQueue

end AsterBridge.Db
