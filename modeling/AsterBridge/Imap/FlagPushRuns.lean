import AsterBridge.Imap.FlagPushes
import AsterBridge.Sync.UidRuns

/-!
# No flag change is lost

`FlagKept` says it for a message and a bit: once nothing is under way, and unless its
row was given up, the server has the local value or a row holds it.

This fails in two ways. A row says which value is queued but not for which change, so
the answer to an old push drops the row of a newer change to the same value
(`toggledTwice_loses`). And the server may carry out an old request after a new one. Both
need a STORE that writes a bit while a push of it is past its look at the flags;
`Undisturbed` excludes that, and two STOREs of one message at once. `flags_kept` is the
result for every run of such steps. The invariant is `KeyGood`: what is past its look
carries the local value, or will only drop the other one.
-/

set_option autoImplicit false

namespace AsterBridge.Imap

open AsterBridge.Lib AsterBridge.Lib.Runs AsterBridge.Lib.Ledger AsterBridge.Db
  AsterBridge.Db.Cache AsterBridge.Sync

/-- The local value of a bit of a cached message. -/
def localBit (db : Database) (id : String) (bit : Fin 64) : Option Bool :=
  (db.cache.getMessageFlagsById id).map fun flags => flags.getLsbD bit.val

/-- The bits that STORE pushes. -/
def pushedBits : List (Fin 64) := [0, 2]

theorem flagField_isSome {bit : Fin 64} (h : (flagField bit).isSome = true) :
    bit ∈ pushedBits := by
  unfold flagField at h
  split at h
  · rename_i h0
    simp [pushedBits, h0]
  · split at h
    · rename_i h2
      simp [pushedBits, h2]
    · cases h

namespace PushState

/-- The changes that a STORE has written and not queued yet. -/
def unqueued (s : PushState) : List (String × Fin 64 × Bool) :=
  s.stores.flatMap fun
    | .listed _ _ _ _ => []
    | .written changes => changes.flatMap fun c => c.2.map fun e => (e.1, c.1, e.2)

/-- The value that is queued for a bit. -/
def queued (s : PushState) (id : String) (bit : Fin 64) : Option Bool :=
  s.db.flagPushes.pendingValue id bit

/-- The server has this value, if it has the message. -/
def Told (s : PushState) (id : String) (bit : Fin 64) (value : Bool) : Prop :=
  ∀ flags ∈ s.server id, flags bit = value

/-- No push of the bit is under way, and no STORE has it half done. -/
def Settled (s : PushState) (id : String) (bit : Fin 64) : Prop :=
  (∀ p ∈ s.pushes, p.id = id → p.bit = bit → p.phase = .finished) ∧
    ∀ u ∈ s.unqueued, ¬ (u.1 = id ∧ u.2.1 = bit)

instance (s : PushState) (id : String) (bit : Fin 64) : Decidable (s.Settled id bit) :=
  inferInstanceAs (Decidable (_ ∧ _))

/-- **No lost change**, for a message and a bit: once it is settled, and unless its row
was given up, the server has the local value or a row holds it. -/
def FlagKept (s : PushState) (id : String) (bit : Fin 64) : Prop :=
  s.Settled id bit → (id, bit) ∉ s.dropped → ∀ value ∈ localBit s.db id bit,
    s.Told id bit value ∨ s.queued id bit = some value

/-! ## The condition on STORE -/

/-- A push that a STORE of this value would disturb: one between its look at the flags
and the answer, or one that is about to drop the row of this value. -/
def Disturbed (p : Push) (value : Bool) : Prop :=
  match p.phase with
  | .check | .failed | .finished => False
  | .superseded | .send | .sent false => True
  | .sent true | .made => p.value = value

instance (p : Push) (value : Bool) : Decidable (Disturbed p value) :=
  match h : p.phase with
  | .check | .failed | .finished => isFalse (by simp [Disturbed, h])
  | .superseded | .send | .sent false => isTrue (by simp [Disturbed, h])
  | .sent true | .made => decidable_of_iff (p.value = value) (by simp [Disturbed, h])

/-- Nothing under way is disturbed when a STORE writes this value of a bit. -/
def Free (s : PushState) (id : String) (bit : Fin 64) (value : Bool) : Prop :=
  (∀ p ∈ s.pushes, p.id = id → p.bit = bit → ¬ Disturbed p value) ∧
    (∀ r ∈ s.late, ¬ (r.id = id ∧ r.bit = bit)) ∧
    ∀ u ∈ s.unqueued, ¬ (u.1 = id ∧ u.2.1 = bit)

instance (s : PushState) (id : String) (bit : Fin 64) (value : Bool) :
    Decidable (s.Free id bit value) := inferInstanceAs (Decidable (_ ∧ _ ∧ _))

/-- A STORE may write a target: the flags it was listed with are still those of the
cache, and the bits that it changes are free. -/
def MayWrite (s : PushState) (op : Int) (mask : BitVec 32) (t : StoreTarget) (bit : Fin 64) :
    Prop :=
  localBit s.db t.id bit = some (t.oldFlags.getLsbD bit.val) ∧
    (t.oldFlags.getLsbD bit.val ≠ (applyFlags t.oldFlags op mask).getLsbD bit.val →
      s.Free t.id bit ((applyFlags t.oldFlags op mask).getLsbD bit.val))

instance (s : PushState) (op : Int) (mask : BitVec 32) (t : StoreTarget) (bit : Fin 64) :
    Decidable (s.MayWrite op mask t bit) := inferInstanceAs (Decidable (_ ∧ (_ → _)))

/-- The targets of a STORE that is about to write. -/
def toWrite (s : PushState) (i : Nat) : List (Int × BitVec 32 × StoreTarget) :=
  match s.stores[i]? with
  | some (.listed _ op mask targets) => targets.map fun t => (op, mask, t)
  | _ => []

/-- The steps of a run without lost changes. -/
def Undisturbed (s : PushState) : PushEvent → Prop
  | .storeWrite i => ∀ w ∈ s.toWrite i, ∀ bit ∈ pushedBits, s.MayWrite w.1 w.2.1 w.2.2 bit
  | _ => True

instance : (s : PushState) → (e : PushEvent) → Decidable (s.Undisturbed e)
  | _, .storeWrite _ => inferInstanceAs (Decidable (∀ w ∈ _, ∀ bit ∈ _, _))
  | _, .storeList .. | _, .storePush .. | _, .push _ | _, .serverApplies _ | _, .answer .. |
    _, .lateApplies _ | _, .serverForgets _ | _, .dropExhausted | _, .retry _ => isTrue trivial

/-! ## The invariant -/

/-- What holds of a push, where `v` is the local value of its bit. -/
def PushGood (told : Prop) (v : Bool) (p : Push) : Prop :=
  match p.phase with
  | .check | .failed | .finished => True
  | .superseded => p.value = !v
  | .send | .sent false => p.value = v
  | .sent true | .made => p.value = v → told

/-- The invariant for a bit of a cached message with local value `v`. -/
structure KeyGood (s : PushState) (id : String) (bit : Fin 64) (v : Bool) : Prop where
  unqueued : ∀ w, (id, bit, w) ∈ s.unqueued → w = v
  row : ∀ w, s.queued id bit = some w → w = v ∨ ∃ w', (id, bit, w') ∈ s.unqueued
  pushes : ∀ p ∈ s.pushes, p.id = id → p.bit = bit → PushGood (s.Told id bit v) v p
  late : ∀ r ∈ s.late, r.id = id → r.bit = bit → r.value = v
  kept : s.Told id bit v ∨ s.queued id bit = some v ∨ (id, bit) ∈ s.dropped ∨
    ∃ w, (id, bit, w) ∈ s.unqueued

/-- The invariant. -/
structure Good (s : PushState) : Prop where
  uids : UidMapMatches s.db.cache
  fits : ∀ folder, s.db.cache.uidCounter folder ≤ 2 ^ 32
  targets : ∀ folder op mask targets, StoreTask.listed folder op mask targets ∈ s.stores →
    ∀ t ∈ targets, s.db.cache.uidMap.get? (t.id, folder) = some t.uid
  keys : ∀ id bit v, (flagField bit).isSome = true → localBit s.db id bit = some v →
    s.KeyGood id bit v

theorem PushGood.mono {told told' : Prop} {v : Bool} {p : Push} (h : PushGood told v p)
    (htold : told → told') : PushGood told' v p := by
  rcases p with ⟨id, bit, value, retries, mode, attempt, phase⟩
  cases phase with
  | check | failed | finished => trivial
  | superseded | send => exact h
  | made => exact fun hv => htold (h hv)
  | sent applied =>
      cases applied with
      | false => exact h
      | true => exact fun hv => htold (h hv)

theorem mem_unqueued {s : PushState} {id : String} {bit : Fin 64} {w : Bool} :
    (id, bit, w) ∈ s.unqueued ↔ ∃ changes, StoreTask.written changes ∈ s.stores ∧
      ∃ cs, (bit, cs) ∈ changes ∧ (id, w) ∈ cs := by
  simp only [unqueued, List.mem_flatMap]
  constructor
  · rintro ⟨task, htask, hmem⟩
    cases task with
    | listed => exact absurd hmem List.not_mem_nil
    | written changes =>
        obtain ⟨⟨b, cs⟩, hc, he⟩ := List.mem_flatMap.1 hmem
        obtain ⟨⟨i, v⟩, hcs, heq⟩ := List.mem_map.1 he
        simp only [Prod.mk.injEq] at heq
        obtain ⟨rfl, rfl, rfl⟩ := heq
        exact ⟨changes, htask, cs, hc, hcs⟩
  · rintro ⟨changes, htask, cs, hc, hcs⟩
    exact ⟨_, htask, List.mem_flatMap.2 ⟨(bit, cs), hc, List.mem_map.2 ⟨(id, w), hcs, rfl⟩⟩⟩

/-! ## Steps that leave the local flags alone -/

section Frame

variable {s s' : PushState} {id : String} {bit : Fin 64} {v : Bool}

/-- A step that does not write the cache keeps the invariant of a bit, if no row appears,
a row of the local value goes only for a reason, and what is new is good. -/
theorem KeyGood.frame (h : s.KeyGood id bit v)
    (hunqueued : ∀ w, (id, bit, w) ∈ s'.unqueued ↔ (id, bit, w) ∈ s.unqueued)
    (hrow : ∀ w, s'.queued id bit = some w → s.queued id bit = some w)
    (hpushes : ∀ p ∈ s'.pushes, p.id = id → p.bit = bit →
      p ∈ s.pushes ∨ PushGood (s'.Told id bit v) v p)
    (hlate : ∀ r ∈ s'.late, r.id = id → r.bit = bit → r ∈ s.late ∨ r.value = v)
    (htold : s.Told id bit v → s'.Told id bit v)
    (hdropped : (id, bit) ∈ s.dropped → (id, bit) ∈ s'.dropped)
    (hkept : s.queued id bit = some v →
      s'.queued id bit = some v ∨ s'.Told id bit v ∨ (id, bit) ∈ s'.dropped) :
    s'.KeyGood id bit v := by
  constructor
  · intro w hw
    exact h.unqueued w ((hunqueued w).1 hw)
  · intro w hw
    rcases h.row w (hrow w hw) with heq | ⟨w', hw'⟩
    · exact Or.inl heq
    · exact Or.inr ⟨w', (hunqueued w').2 hw'⟩
  · intro p hp hid hbit
    rcases hpushes p hp hid hbit with hold | hnew
    · exact (h.pushes p hold hid hbit).mono htold
    · exact hnew
  · intro r hr hid hbit
    exact (hlate r hr hid hbit).elim (fun hold => h.late r hold hid hbit) fun hv => hv
  · rcases h.kept with hold | hold | hold | ⟨w, hw⟩
    · exact Or.inl (htold hold)
    · rcases hkept hold with hq | ht | hd
      · exact Or.inr (Or.inl hq)
      · exact Or.inl ht
      · exact Or.inr (Or.inr (Or.inl hd))
    · exact Or.inr (Or.inr (Or.inl (hdropped hold)))
    · exact Or.inr (Or.inr (Or.inr ⟨w, (hunqueued w).2 hw⟩))

/-- A step that changes pushes only. -/
theorem KeyGood.framePushes (h : s.KeyGood id bit v) (pushes : List Push)
    (hpushes : ∀ p ∈ pushes, p.id = id → p.bit = bit →
      p ∈ s.pushes ∨ PushGood (s.Told id bit v) v p) :
    ({ s with pushes := pushes } : PushState).KeyGood id bit v :=
  h.frame (fun _ => Iff.rfl) (fun _ hw => hw) hpushes (fun _ hr _ _ => Or.inl hr) (fun ht => ht)
    (fun hd => hd) fun hq => Or.inl hq

/-- A push with a new phase that is good. -/
theorem KeyGood.setPhase (h : s.KeyGood id bit v) (i : Nat) (p : Push) (phase : PushPhase)
    (hgood : p.id = id → p.bit = bit → PushGood (s.Told id bit v) v { p with phase }) :
    (s.setPhase i p phase).KeyGood id bit v := by
  refine h.framePushes _ fun p' hp' hid hbit => ?_
  rcases List.mem_or_eq_of_mem_set hp' with hold | rfl
  · exact Or.inl hold
  · exact Or.inr (hgood hid hbit)

/-- The server carries out a request that is for another bit or has the local value. -/
theorem told_carryOut {j : String} {b : Fin 64} {w : Bool} (hv : j = id → b = bit → w = v)
    (htold : s.Told id bit v) (hserver : s'.server = carryOut s.server j b w) :
    s'.Told id bit v := by
  intro flags hflags
  rw [hserver, carryOut] at hflags
  by_cases hj : id = j
  · subst hj
    rw [if_pos rfl] at hflags
    obtain ⟨old, hold, rfl⟩ := Option.map_eq_some_iff.1 hflags
    show (if bit = b then w else old bit) = v
    by_cases hb : bit = b
    · subst hb
      rw [if_pos rfl, hv rfl rfl]
    · rw [if_neg hb]
      exact htold old hold
  · rw [if_neg hj] at hflags
    exact htold flags hflags

theorem told_of_carryOut (hserver : s'.server = carryOut s.server id bit v) :
    s'.Told id bit v := by
  intro flags hflags
  rw [hserver, carryOut, if_pos rfl] at hflags
  obtain ⟨old, -, rfl⟩ := Option.map_eq_some_iff.1 hflags
  exact if_pos rfl

/-- Dropping a row that does not hold the local value, or that the server was told. -/
theorem KeyGood.clear (h : s.KeyGood id bit v) (p : Push)
    (hp : p.id = id → p.bit = bit → p.value = v → s.Told id bit v) :
    (s.onQueue fun q => q.clearPendingFlagPushes [p.id] p.bit p.value).KeyGood id bit v := by
  have hqueued : (s.onQueue fun q => q.clearPendingFlagPushes [p.id] p.bit p.value).queued id bit =
      if (id, bit) = (p.id, p.bit) ∧ s.queued id bit = some p.value then none
      else s.queued id bit :=
    FlagPushQueue.pendingValue_clear s.db.flagPushes id bit p.id p.bit p.value
  refine h.frame (fun _ => Iff.rfl) ?_ (fun _ hp' _ _ => Or.inl hp') (fun _ hr _ _ => Or.inl hr)
    (fun ht => ht) (fun hd => hd) ?_
  · intro w hw
    rw [hqueued] at hw
    split at hw
    · cases hw
    · exact hw
  · intro hq
    rw [hqueued]
    split
    · rename_i hkey
      obtain ⟨hkey, hval⟩ := hkey
      obtain ⟨hid, hbit⟩ := Prod.mk.inj hkey
      have hv : p.value = v := Option.some.inj (hval.symm.trans hq)
      exact Or.inr (Or.inl (hp hid.symm hbit.symm hv))
    · exact Or.inl hq

end Frame

section Steps

variable {s : PushState} {id : String} {bit : Fin 64} {v : Bool}

/-- A new push starts with its look at the flags. -/
theorem pushGood_start {told : Prop} (hbit : (flagField bit).isSome = true) (value : Bool)
    (retries : Nat) : PushGood told v (Push.start id bit value retries) := by
  simp [PushGood, Push.start, hbit]

/-- The look at the flags decides by the local value. -/
theorem KeyGood.check (h : s.KeyGood id bit v) (hlocal : localBit s.db id bit = some v) (i : Nat)
    (p : Push) :
    (s.setPhase i p (if readStatusStillWanted s.db p.id p.value p.bit then .send
      else .superseded)).KeyGood id bit v := by
  refine h.setPhase i p _ fun hid hbit => ?_
  subst hid hbit
  obtain ⟨flags, hflags, hbit⟩ := Option.map_eq_some_iff.1 hlocal
  have hwanted : readStatusStillWanted s.db p.id p.value p.bit = (v == p.value) := by
    rw [readStatusStillWanted, hflags, ← hbit]
    rfl
  rw [hwanted]
  by_cases hv : v = p.value
  · rw [hv, beq_self_eq_true, if_pos rfl]
    exact rfl
  · have hne : (v == p.value) = false := by simpa using hv
    rw [hne, if_neg Bool.false_ne_true]
    show p.value = !v
    cases hp : p.value <;> cases v <;> simp_all

theorem KeyGood.pushStep (h : s.KeyGood id bit v) (hlocal : localBit s.db id bit = some v)
    {i : Nat} {p : Push} (hp : p ∈ s.pushes) : (s.pushStep i p).KeyGood id bit v := by
  have hgood := h.pushes p hp
  unfold PushState.pushStep
  split
  · exact h.check hlocal i p
  · -- the row of the value that is not wanted
    rename_i hphase
    refine (h.clear p fun hid hbit hv => ?_).setPhase i p .finished fun _ _ => trivial
    have hval := hgood hid hbit
    rw [PushGood, hphase] at hval
    exact absurd (hv.symm.trans hval) (by cases v <;> simp)
  · rename_i hphase
    refine (h.clear p fun hid hbit hv => ?_).setPhase i p .finished fun _ _ => trivial
    have hmade := hgood hid hbit
    rw [PushGood, hphase] at hmade
    exact hmade hv
  · rename_i hphase
    refine h.setPhase i p (.sent false) fun hid hbit => ?_
    have hval := hgood hid hbit
    rw [PushGood, hphase] at hval
    exact hval
  · exact h
  · refine KeyGood.setPhase (s := s.onQueue _) ?_ i p .finished fun _ _ => trivial
    have hqueued : (s.onQueue fun q => q.noteFailedFlagPush p.id p.bit p.value).queued id bit =
        s.queued id bit :=
      FlagPushQueue.pendingValue_noteFailed s.db.flagPushes id bit p.id p.bit p.value
    exact h.frame (fun _ => Iff.rfl) (fun w hw => hqueued ▸ hw) (fun _ hp' _ _ => Or.inl hp')
      (fun _ hr _ _ => Or.inl hr) (fun ht => ht) (fun hd => hd)
      fun hq => Or.inl (hqueued.trans hq)
  · exact h

/-- A push after an answer: it looks again, it has failed, or the change is made. -/
theorem phase_answered (p : Push) (a : Answer) :
    ((p.answered a).phase = .check ∨ (p.answered a).phase = .failed ∨
        (p.answered a).phase = .made ∧ (a = .ok ∨ a = .notFound)) ∧
      (p.answered a).id = p.id ∧ (p.answered a).bit = p.bit ∧ (p.answered a).value = p.value := by
  rcases p with ⟨id, bit, value, retries, mode, attempt, phase⟩
  cases a with
  | ok => simp [Push.answered]
  | notFound => cases mode <;> simp [Push.answered]
  | rateLimited =>
      by_cases hlt : attempt < retries <;> simp [Push.answered, hlt]
  | transient =>
      cases mode with
      | bulk => simp [Push.answered]
      | single => by_cases hlt : attempt < retries <;> simp [Push.answered, hlt]
  | error => cases mode <;> simp [Push.answered]

theorem KeyGood.answerStep (h : s.KeyGood id bit v) {i : Nat} {p : Push} (hp : p ∈ s.pushes)
    (a : Answer) (late : Bool) : (s.answerStep i p a late).KeyGood id bit v := by
  unfold PushState.answerStep
  split
  · rename_i applied hphase
    split
    · exact h
    · rename_i hanswer
      have hgood := h.pushes p hp
      refine h.frame (fun _ => Iff.rfl) (fun _ hw => hw) ?_ ?_ (fun ht => ht) (fun hd => hd)
        fun hq => Or.inl hq
      · intro p' hp' hid hbit
        rcases List.mem_or_eq_of_mem_set hp' with hold | rfl
        · exact Or.inl hold
        · obtain ⟨hcase, hid', hbit', hval⟩ := phase_answered p a
          refine Or.inr ?_
          rcases hcase with hc | hf | ⟨hm, hok⟩
          · rw [PushGood, hc]
            trivial
          · rw [PushGood, hf]
            trivial
          · rw [PushGood, hm]
            intro hv flags hflags
            -- the server has the message, so it has carried the request out
            have hsome : (s.server p.id).isSome = true := by
              rw [← hid', hid, hflags]
              rfl
            have hbefore := hgood (hid'.symm.trans hid) (hbit'.symm.trans hbit)
            cases applied with
            | true =>
                rw [PushGood, hphase] at hbefore
                exact hbefore (hval.symm.trans hv) flags hflags
            | false =>
                exact absurd ⟨hok.imp_left fun ha => ⟨ha, rfl⟩, hsome⟩ hanswer
      · intro r hr hid hbit
        split at hr
        · rename_i hlate
          rcases List.mem_append.1 hr with hold | hnew
          · exact Or.inl hold
          · obtain rfl := List.mem_singleton.1 hnew
            have happlied : applied = false := by
              cases applied <;> simp_all
            have hval := hgood hid hbit
            rw [PushGood, hphase, happlied] at hval
            exact Or.inr hval
        · exact Or.inl hr
  · exact h

/-- The server carries out the request of a push. -/
theorem KeyGood.serverApplies (h : s.KeyGood id bit v) {i : Nat} {p : Push} (hp : p ∈ s.pushes)
    (hphase : p.phase = .sent false) :
    ({ s.setPhase i p (.sent true) with server := carryOut s.server p.id p.bit p.value } :
      PushState).KeyGood id bit v := by
  have hval : p.id = id → p.bit = bit → p.value = v := by
    intro hid hbit
    have hgood := h.pushes p hp hid hbit
    rw [PushGood, hphase] at hgood
    exact hgood
  refine h.frame (fun _ => Iff.rfl) (fun _ hw => hw) ?_ (fun _ hr _ _ => Or.inl hr)
    (fun ht => told_carryOut hval ht rfl) (fun hd => hd) fun hq => Or.inl hq
  intro p' hp' hid hbit
  rcases List.mem_or_eq_of_mem_set hp' with hold | rfl
  · exact Or.inl hold
  · refine Or.inr fun _ => ?_
    have hv := hval hid hbit
    subst hid hbit hv
    exact told_of_carryOut rfl

theorem KeyGood.lateApplies (h : s.KeyGood id bit v) {i : Nat} {r : LateRequest}
    (hr : r ∈ s.late) :
    ({ s with server := carryOut s.server r.id r.bit r.value, late := s.late.eraseIdx i } :
      PushState).KeyGood id bit v :=
  h.frame (fun _ => Iff.rfl) (fun _ hw => hw) (fun _ hp _ _ => Or.inl hp)
    (fun _ hr' _ _ => Or.inl (List.mem_of_mem_eraseIdx hr'))
    (fun ht => told_carryOut (h.late r hr) ht rfl) (fun hd => hd) fun hq => Or.inl hq

theorem KeyGood.serverForgets (h : s.KeyGood id bit v) (j : String) :
    ({ s with server := fun k => if k = j then none else s.server k } : PushState).KeyGood id bit v := by
  refine h.frame (fun _ => Iff.rfl) (fun _ hw => hw) (fun _ hp _ _ => Or.inl hp)
    (fun _ hr _ _ => Or.inl hr) (fun ht flags hflags => ?_) (fun hd => hd) fun hq => Or.inl hq
  by_cases hj : id = j
  · simp [hj] at hflags
  · exact ht flags (by simpa [hj] using hflags)

theorem KeyGood.dropExhausted (h : s.KeyGood id bit v) :
    ({ s.onQueue fun q => q.dropExhaustedFlagPushes PENDING_FLAG_PUSH_MAX_ATTEMPTS with
      dropped := s.dropped ++ s.exhausted } : PushState).KeyGood id bit v := by
  have hcase := FlagPushQueue.pendingValue_dropExhausted s.db.flagPushes id bit
    PENDING_FLAG_PUSH_MAX_ATTEMPTS
  refine h.frame (fun _ => Iff.rfl) ?_ (fun _ hp _ _ => Or.inl hp) (fun _ hr _ _ => Or.inl hr)
    (fun ht => ht) (fun hd => List.mem_append_left _ hd) ?_
  · intro w hw
    rcases hcase with hsame | ⟨hnone, -⟩
    · exact hsame.symm.trans hw
    · exact absurd (hnone.symm.trans hw) (by simp)
  · intro hq
    rcases hcase with hsame | ⟨-, hmem⟩
    · exact Or.inl (hsame.trans hq)
    · exact Or.inr (Or.inr (List.mem_append_right _ hmem))

theorem KeyGood.retry (h : s.KeyGood id bit v) (hbit : (flagField bit).isSome = true)
    (now : Int) : ({ s with pushes := s.pushes ++ s.retried now } : PushState).KeyGood id bit v := by
  refine h.framePushes _ fun p hp _ hb => ?_
  rcases List.mem_append.1 hp with hold | hnew
  · exact Or.inl hold
  · obtain ⟨row, -, rfl⟩ := List.mem_map.1 hnew
    have hb' : row.2.1 = bit := hb
    exact Or.inr (pushGood_start (hb' ▸ hbit) row.2.2 0)

end Steps

/-! ## Queuing the changes of a STORE -/

section StorePush

variable {s : PushState} {id : String} {bit : Fin 64} {v : Bool}

/-- Replacing a STORE by its rest. -/
theorem mem_unqueued_rest (id : String) (bit : Fin 64) {i : Nat} {b : Fin 64} {changes : List (String × Bool)}
    {rest : List (Fin 64 × List (String × Bool))} {s' : PushState}
    (hi : s.stores[i]? = some (.written ((b, changes) :: rest)))
    (hs' : s'.stores = s.stores.set i (.written rest)) :
    (∀ w, (id, bit, w) ∈ s'.unqueued → (id, bit, w) ∈ s.unqueued) ∧
      (∀ w, (id, w) ∈ changes → (id, b, w) ∈ s.unqueued) ∧
      ∀ w, (id, bit, w) ∈ s.unqueued → (id, bit, w) ∈ s'.unqueued ∨ bit = b ∧ (id, w) ∈ changes := by
  have htask := List.mem_of_getElem? hi
  refine ⟨?_, ?_, ?_⟩
  · intro w hw
    obtain ⟨cs', hmem, cs, hcs, hw⟩ := mem_unqueued.1 hw
    rw [hs'] at hmem
    rcases List.mem_or_eq_of_mem_set hmem with hold | heq
    · exact mem_unqueued.2 ⟨cs', hold, cs, hcs, hw⟩
    · cases heq
      exact mem_unqueued.2 ⟨_, htask, cs, List.mem_cons_of_mem _ hcs, hw⟩
  · intro w hw
    exact mem_unqueued.2 ⟨_, htask, changes, List.mem_cons_self, hw⟩
  · intro w hw
    obtain ⟨cs', hmem, cs, hcs, hw⟩ := mem_unqueued.1 hw
    obtain ⟨j, hj⟩ := List.mem_iff_getElem?.1 hmem
    have hlt : i < s.stores.length := (List.getElem?_eq_some_iff.1 hi).1
    by_cases hji : i = j
    · -- the STORE itself: a change of its first bit, or one of the rest
      subst hji
      obtain rfl : (b, changes) :: rest = cs' := by
        simpa using hi.symm.trans hj
      rcases List.mem_cons.1 hcs with heq | hrest
      · obtain ⟨rfl, rfl⟩ := Prod.mk.inj heq
        exact Or.inr ⟨rfl, hw⟩
      · refine Or.inl (mem_unqueued.2 ⟨rest, ?_, cs, hrest, hw⟩)
        rw [hs']
        exact List.mem_of_getElem? (List.getElem?_set_self hlt)
    · refine Or.inl (mem_unqueued.2 ⟨cs', ?_, cs, hcs, hw⟩)
      rw [hs']
      exact List.mem_of_getElem? ((List.getElem?_set_ne hji).trans hj)

theorem KeyGood.storePush (h : s.KeyGood id bit v) (hbit : (flagField bit).isSome = true)
    {i : Nat} {b : Fin 64} {changes : List (String × Bool)}
    {rest : List (Fin 64 × List (String × Bool))}
    (hi : s.stores[i]? = some (.written ((b, changes) :: rest))) (now : Int) :
    ({ s.pushFlagStatus now b changes with stores := s.stores.set i (.written rest) } :
      PushState).KeyGood id bit v := by
  generalize hs' : ({ s.pushFlagStatus now b changes with stores := s.stores.set i (.written rest) } :
      PushState) = s'
  have hqueued : s'.queued id bit =
      (s.db.flagPushes.recordPendingFlagPushes now changes b).pendingValue id bit := by
    rw [← hs']
    rfl
  have htold : s'.Told id bit v ↔ s.Told id bit v := by rw [← hs']; exact Iff.rfl
  obtain ⟨hsub, hown, hsup⟩ := mem_unqueued_rest id bit hi
    (show s'.stores = s.stores.set i (.written rest) by rw [← hs'])
  have hpushes : ∀ p ∈ s'.pushes, p.id = id → p.bit = bit → PushGood (s'.Told id bit v) v p := by
    intro p hp hid hb
    rw [← hs'] at hp
    rcases List.mem_append.1 hp with hold | hnew
    · exact (h.pushes p hold hid hb).mono htold.2
    · obtain ⟨c, -, rfl⟩ := List.mem_map.1 hnew
      have hb' : b = bit := hb
      exact pushGood_start (hb' ▸ hbit) c.2 _
  have hlate : ∀ r ∈ s'.late, r.id = id → r.bit = bit → r.value = v := by
    intro r hr
    rw [← hs'] at hr
    exact h.late r hr
  by_cases hmine : bit = b ∧ ∃ w, (id, w) ∈ changes
  · -- the row is the change
    obtain ⟨rfl, w, hw⟩ := hmine
    have hagree : ∀ w, (id, w) ∈ changes → w = v := fun w hw => h.unqueued w (hown w hw)
    obtain rfl := hagree w hw
    have hrow : s'.queued id bit = some w :=
      hqueued.trans (FlagPushQueue.pendingValue_record s.db.flagPushes id bit now changes w hw hagree)
    refine ⟨fun w' hw' => h.unqueued w' (hsub w' hw'), fun w' hw' => ?_, hpushes, hlate,
      Or.inr (Or.inl hrow)⟩
    exact Or.inl (Option.some.inj (hw'.symm.trans hrow))
  · have hother : bit = b → ∀ w, (id, w) ∉ changes := fun hb w hw => hmine ⟨hb, w, hw⟩
    have hrow : s'.queued id bit = s.queued id bit :=
      hqueued.trans (FlagPushQueue.pendingValue_record_other s.db.flagPushes id bit now changes b
        hother)
    have hstill : ∀ w, (id, bit, w) ∈ s.unqueued → (id, bit, w) ∈ s'.unqueued := fun w hw =>
      (hsup w hw).resolve_right fun hc => hother hc.1 w hc.2
    refine ⟨fun w hw => h.unqueued w (hsub w hw), fun w hw => ?_, hpushes, hlate, ?_⟩
    · rcases h.row w (hrow.symm.trans hw) with heq | ⟨w', hw'⟩
      · exact Or.inl heq
      · exact Or.inr ⟨w', hstill w' hw'⟩
    · rcases h.kept with ht | hq | hd | ⟨w, hw⟩
      · exact Or.inl (htold.2 ht)
      · exact Or.inr (Or.inl (hrow.trans hq))
      · refine Or.inr (Or.inr (Or.inl ?_))
        rw [← hs']
        refine List.mem_filter.2 ⟨hd, ?_⟩
        rw [Bool.not_eq_true', Bool.eq_false_iff]
        intro hdrop
        obtain ⟨hb, hmem⟩ := Bool.and_eq_true_iff.1 hdrop
        obtain ⟨c, hc, rfl⟩ := List.mem_map.1 (List.contains_iff_mem.1 hmem)
        exact hother (of_decide_eq_true hb) c.2 hc
      · exact Or.inr (Or.inr (Or.inr ⟨w, hstill w hw⟩))

end StorePush

/-! ## Writing the flags of a STORE -/

section StoreWrite

/-- What `apply_flags` does to a bit depends on that bit alone. -/
theorem applyFlags_bit {f g : BitVec 32} (op : Int) (mask : BitVec 32) {n : Nat}
    (hbit : f.getLsbD n = g.getLsbD n) :
    (applyFlags f op mask).getLsbD n = (applyFlags g op mask).getLsbD n := by
  unfold applyFlags
  split
  · simp [hbit]
  · split
    · simp [hbit]
    · rfl

theorem uidOwner_of_mapped {c : Cache} (h : UidMapMatches c) {id folder : String} {uid : Nat}
    (hmap : c.uidMap.get? (id, folder) = some uid) : c.uidOwner uid folder = some id := by
  have hmem := Table.get?_eq_some_iff.1 hmap
  cases howner : c.uidOwner uid folder with
  | none =>
      have hnone := List.find?_eq_none.1 (Option.map_eq_none_iff.1 howner) _ hmem
      simp at hnone
  | some j =>
      have hj := uidOwner_eq_some howner
      rw [h.sound.owner folder j id uid hj hmap]

/-- A STORE writes flags and nothing else. -/
theorem writeStore_frame {db : Database} (h : UidMapMatches db.cache) (folder : String) (op : Int)
    (mask : BitVec 32) (targets : List StoreTarget) :
    UidMapMatches (writeStore db folder op mask targets).cache ∧
      (writeStore db folder op mask targets).cache.uidMap = db.cache.uidMap ∧
      (writeStore db folder op mask targets).cache.syncState = db.cache.syncState ∧
      (writeStore db folder op mask targets).flagPushes = db.flagPushes := by
  induction targets generalizing db with
  | nil => exact ⟨h, rfl, rfl, rfl⟩
  | cons t ts ih =>
      have hone : UidMapMatches (db.cache.updateMessageFlags t.uid folder
            ((applyFlags t.oldFlags op mask).setWidth 64)) ∧
          (db.cache.updateMessageFlags t.uid folder
            ((applyFlags t.oldFlags op mask).setWidth 64)).uidMap = db.cache.uidMap ∧
          (db.cache.updateMessageFlags t.uid folder
            ((applyFlags t.oldFlags op mask).setWidth 64)).syncState = db.cache.syncState := by
        unfold Cache.updateMessageFlags
        split
        · exact ⟨h, rfl, rfl⟩
        · exact ⟨h.updateMessage _ _ fun _ => rfl, rfl, rfl⟩
      obtain ⟨huids, hmap, hsync⟩ := hone
      have hnext : UidMapMatches (db.onCache fun c => c.updateMessageFlags t.uid folder
          ((applyFlags t.oldFlags op mask).setWidth 64)).cache := huids
      obtain ⟨huids', hmap', hsync', hpush⟩ := ih hnext
      exact ⟨huids', hmap'.trans hmap, hsync'.trans hsync, hpush⟩

theorem localBit_setFlags (db : Database) (j : String) (flags : BitVec 64) (id : String)
    (bit : Fin 64) :
    localBit (db.onCache fun c => c.setMessageFlagsById j flags) id bit =
      if id = j then (localBit db id bit).map fun _ => flags.getLsbD bit.val
      else localBit db id bit := by
  rw [localBit, localBit, Database.cache_onCache, getMessageFlagsById, setMessageFlagsById,
    updateMessage, Table.get?_updateWhere, getMessageFlagsById]
  by_cases hj : id = j
  · simp [hj, Option.map_map, Function.comp_def]
  · simp [hj, Option.map_map, Function.comp_def]

/-- The local value of a bit after a STORE that gives all targets of the message the same
value. -/
theorem localBit_writeStore {db : Database} (h : UidMapMatches db.cache) {folder : String}
    (op : Int) (mask : BitVec 32) (targets : List StoreTarget)
    (hmap : ∀ t ∈ targets, db.cache.uidMap.get? (t.id, folder) = some t.uid) (id : String)
    (bit : Fin 64) (w : Bool)
    (hw : ∀ t ∈ targets, t.id = id → (applyFlags t.oldFlags op mask).getLsbD bit.val = w) :
    localBit (writeStore db folder op mask targets) id bit =
      if ∃ t ∈ targets, t.id = id then (localBit db id bit).map fun _ => w
      else localBit db id bit := by
  induction targets generalizing db with
  | nil => simp [writeStore]
  | cons t ts ih =>
      have howner := uidOwner_of_mapped h (hmap t List.mem_cons_self)
      have hset : (db.onCache fun c => c.updateMessageFlags t.uid folder
            ((applyFlags t.oldFlags op mask).setWidth 64)) =
          db.onCache fun c => c.setMessageFlagsById t.id
            ((applyFlags t.oldFlags op mask).setWidth 64) := by
        rw [Database.onCache, Database.onCache, Cache.updateMessageFlags, howner]
      rw [writeStore, List.foldl_cons, hset]
      have huids : UidMapMatches (db.onCache fun c => c.setMessageFlagsById t.id
          ((applyFlags t.oldFlags op mask).setWidth 64)).cache := h.updateMessage _ _ fun _ => rfl
      have hrest := ih huids
        (fun t' ht' => hmap t' (List.mem_cons_of_mem t ht'))
        fun t' ht' => hw t' (List.mem_cons_of_mem t ht')
      refine hrest.trans ?_
      rw [localBit_setFlags]
      by_cases hid : id = t.id
      · have hbit : ((applyFlags t.oldFlags op mask).setWidth 64).getLsbD bit.val = w := by
          rw [← hw t List.mem_cons_self hid.symm, BitVec.getLsbD_setWidth]
          simp
        subst hid
        rw [hbit]
        simp [Option.map_map, Function.comp_def]
      · have hne : ¬ t.id = id := fun heq => hid heq.symm
        simp [hid, hne]

theorem mem_changesOf {op : Int} {mask : BitVec 32} {targets : List StoreTarget} {bit : Fin 64}
    {id : String} {w : Bool} :
    (id, w) ∈ changesOf op mask targets bit ↔ ∃ t ∈ targets, t.id = id ∧
      (applyFlags t.oldFlags op mask).getLsbD bit.val = w ∧ t.oldFlags.getLsbD bit.val ≠ w := by
  rw [changesOf, List.mem_filterMap]
  constructor
  · rintro ⟨t, ht, hsome⟩
    dsimp only at hsome
    split at hsome
    · rename_i hne
      obtain ⟨rfl, rfl⟩ := Prod.mk.inj (Option.some.inj hsome)
      exact ⟨t, ht, rfl, rfl, hne⟩
    · cases hsome
  · rintro ⟨t, ht, rfl, rfl, hne⟩
    exact ⟨t, ht, if_pos hne⟩

end StoreWrite

theorem KeyGood.storeWrite {s : PushState} {id : String} {bit : Fin 64} {v v' : Bool}
    (h : s.KeyGood id bit v) (hbit : bit ∈ pushedBits) {i : Nat} {folder : String} {op : Int}
    {mask : BitVec 32} {targets : List StoreTarget} {s' : PushState}
    (hi : s.stores[i]? = some (.listed folder op mask targets))
    (hs' : s' = { s with
      db := writeStore s.db folder op mask targets
      stores := s.stores.set i (.written
        [(0, changesOf op mask targets 0), (2, changesOf op mask targets 2)]) })
    (hpush : (writeStore s.db folder op mask targets).flagPushes = s.db.flagPushes)
    (hmay : ∀ t ∈ targets, s.MayWrite op mask t bit) (hlocal : localBit s.db id bit = some v)
    (hnew : ∀ t ∈ targets, t.id = id → (applyFlags t.oldFlags op mask).getLsbD bit.val = v')
    (hsame : (∀ t ∈ targets, t.id ≠ id) → v' = v) : s'.KeyGood id bit v' := by
  have hlt : i < s.stores.length := (List.getElem?_eq_some_iff.1 hi).1
  have hqueued : s'.queued id bit = s.queued id bit := by
    rw [queued, queued, hs', ← hpush]
  -- the unqueued changes are the old ones and those of the STORE
  have hunqueued : ∀ w, (id, bit, w) ∈ s'.unqueued ↔
      (id, bit, w) ∈ s.unqueued ∨ (id, w) ∈ changesOf op mask targets bit := by
    intro w
    rw [mem_unqueued, mem_unqueued]
    constructor
    · rintro ⟨changes, hmem, cs, hcs, hw⟩
      rw [hs'] at hmem
      rcases List.mem_or_eq_of_mem_set hmem with hold | heq
      · exact Or.inl ⟨changes, hold, cs, hcs, hw⟩
      · cases heq
        simp only [List.mem_cons, Prod.mk.injEq, List.not_mem_nil, or_false] at hcs
        rcases hcs with ⟨rfl, rfl⟩ | ⟨rfl, rfl⟩
        · exact Or.inr hw
        · exact Or.inr hw
    · rintro (⟨changes, hmem, cs, hcs, hw⟩ | hw)
      · refine ⟨changes, ?_, cs, hcs, hw⟩
        obtain ⟨j, hj⟩ := List.mem_iff_getElem?.1 hmem
        have hji : i ≠ j := by
          rintro rfl
          rw [hi] at hj
          cases hj
        rw [hs']
        exact List.mem_of_getElem? ((List.getElem?_set_ne hji).trans hj)
      · refine ⟨_, by rw [hs']; exact List.mem_of_getElem? (List.getElem?_set_self hlt),
          changesOf op mask targets bit, ?_, hw⟩
        simp only [pushedBits, List.mem_cons, List.not_mem_nil, or_false] at hbit
        rcases hbit with rfl | rfl
        · exact List.mem_cons_self
        · exact List.mem_cons_of_mem _ List.mem_cons_self
  by_cases hchanged : ∃ t ∈ targets, t.id = id ∧
      t.oldFlags.getLsbD bit.val ≠ (applyFlags t.oldFlags op mask).getLsbD bit.val
  · -- the STORE changes the bit: nothing under way is disturbed
    obtain ⟨t, ht, rfl, hne⟩ := hchanged
    obtain ⟨-, hfree⟩ := hmay t ht
    obtain ⟨hpushes, hlate, hnone⟩ := hfree hne
    have hval := hnew t ht rfl
    rw [hval] at hne hpushes
    have hmine : (t.id, bit, v') ∈ s'.unqueued :=
      (hunqueued v').2 (Or.inr (mem_changesOf.2 ⟨t, ht, rfl, hval, hne⟩))
    refine ⟨fun w hw => ?_, fun w _ => Or.inr ⟨v', hmine⟩, fun p hp hid hb => ?_, fun r hr hid hb => ?_,
      Or.inr (Or.inr (Or.inr ⟨v', hmine⟩))⟩
    · rcases (hunqueued w).1 hw with hold | hown
      · exact absurd ⟨rfl, rfl⟩ (hnone _ hold)
      · obtain ⟨t', ht', hid', hw', -⟩ := mem_changesOf.1 hown
        exact hw'.symm.trans (hnew t' ht' hid')
    · rw [hs'] at hp
      have hquiet := hpushes p hp hid hb
      rcases p with ⟨pid, pbit, pvalue, retries, mode, attempt, phase⟩
      cases phase with
      | check | failed | finished => trivial
      | superseded | send => exact absurd trivial hquiet
      | made => exact fun hv => absurd hv hquiet
      | sent applied =>
          cases applied with
          | false => exact absurd trivial hquiet
          | true => exact fun hv => absurd hv hquiet
    · rw [hs'] at hr
      exact absurd ⟨hid, hb⟩ (hlate r hr)
  · -- the bit keeps its value
    have hv : v' = v := by
      by_cases htarget : ∃ t ∈ targets, t.id = id
      · obtain ⟨t, ht, rfl⟩ := htarget
        have hold : t.oldFlags.getLsbD bit.val = v :=
          Option.some.inj ((hmay t ht).1.symm.trans hlocal)
        have heq : t.oldFlags.getLsbD bit.val =
            (applyFlags t.oldFlags op mask).getLsbD bit.val := by
          by_contra hne
          exact hchanged ⟨t, ht, rfl, hne⟩
        rw [← hnew t ht rfl, ← heq, hold]
      · exact hsame fun t ht hid => htarget ⟨t, ht, hid⟩
    subst hv
    refine h.frame (fun w => ?_) (fun w hw => hqueued ▸ hw) (fun p hp _ _ => ?_) (fun r hr _ _ => ?_)
      ?_ ?_ fun hq => Or.inl (hqueued.trans hq)
    · rw [hunqueued]
      refine or_iff_left fun hown => ?_
      obtain ⟨t, ht, hid, hw, hne⟩ := mem_changesOf.1 hown
      exact hchanged ⟨t, ht, hid, by rw [hw]; exact hne⟩
    · rw [hs'] at hp
      exact Or.inl hp
    · rw [hs'] at hr
      exact Or.inl hr
    · intro ht flags hflags
      rw [hs'] at hflags
      exact ht flags hflags
    · intro hd
      rw [hs']
      exact hd

/-! ## Runs -/

/-- The targets of a STORE are listed with their UIDs. -/
theorem mem_storeTargets {db : Database} (h : UidMapMatches db.cache) {folder : String}
    (hfit : db.cache.uidCounter folder ≤ 2 ^ 32) (uids : List Nat) :
    ∀ t ∈ storeTargets db folder uids, db.cache.uidMap.get? (t.id, folder) = some t.uid := by
  intro t ht
  obtain ⟨m, hm, rfl⟩ := List.mem_map.1 ht
  exact (movable_listing h folder hfit fun u => uids.contains u).2 m hm

/-- One step keeps the invariant. -/
theorem good_step (s : PushState) (e : PushEvent) (h : Good s) (hok : s.Undisturbed e) :
    Good (s.step e) := by
  -- a step that writes neither the cache nor the STOREs
  have hframe : ∀ s' : PushState, s'.db.cache = s.db.cache → s'.stores = s.stores →
      (∀ id bit v, (flagField bit).isSome = true → localBit s.db id bit = some v →
        s'.KeyGood id bit v) → Good s' := by
    intro s' hcache hstores hkeys
    refine ⟨hcache ▸ h.uids, hcache ▸ h.fits, hcache ▸ hstores ▸ h.targets, ?_⟩
    intro id bit v hbit hlocal
    refine hkeys id bit v hbit ?_
    rw [localBit, ← hcache]
    exact hlocal
  cases e with
  | storeList folder uids op mask =>
      refine ⟨h.uids, h.fits, ?_, fun id bit v hbit hlocal => ?_⟩
      · intro f o m ts hts
        rcases List.mem_append.1 hts with hold | hnew
        · exact h.targets f o m ts hold
        · cases List.mem_singleton.1 hnew
          exact mem_storeTargets h.uids (h.fits folder) uids
      · refine (h.keys id bit v hbit hlocal).frame (fun w => ?_) (fun _ hw => hw)
          (fun _ hp _ _ => Or.inl hp) (fun _ hr _ _ => Or.inl hr) (fun ht => ht) (fun hd => hd)
          fun hq => Or.inl hq
        simp [PushState.unqueued, PushState.step]
  | storeWrite i =>
      simp only [PushState.step]
      split
      · rename_i folder op mask targets hi
        have hmap := h.targets folder op mask targets (List.mem_of_getElem? hi)
        obtain ⟨huids, hmap', hsync, hpush⟩ := writeStore_frame h.uids folder op mask targets
        refine ⟨huids, fun f => ?_, ?_, ?_⟩
        · show (writeStore s.db folder op mask targets).cache.uidCounter f ≤ _
          rw [uidCounter, hsync]
          exact h.fits f
        · intro f o m ts hts t ht
          show (writeStore s.db folder op mask targets).cache.uidMap.get? _ = _
          rw [hmap']
          rcases List.mem_or_eq_of_mem_set hts with hold | heq
          · exact h.targets f o m ts hold t ht
          · cases heq
        · intro id bit v' hbit hlocal'
          have hpushed := flagField_isSome hbit
          have hmay : ∀ t ∈ targets, s.MayWrite op mask t bit := by
            intro t ht
            refine hok (op, mask, t) ?_ bit hpushed
            rw [toWrite, hi]
            exact List.mem_map.2 ⟨t, ht, rfl⟩
          by_cases htarget : ∃ t ∈ targets, t.id = id
          · -- all targets of the message were listed with the local flags
            obtain ⟨t, ht, rfl⟩ := htarget
            have hlocal := (hmay t ht).1
            have hagree : ∀ t' ∈ targets, t'.id = t.id →
                (applyFlags t'.oldFlags op mask).getLsbD bit.val =
                  (applyFlags t.oldFlags op mask).getLsbD bit.val := by
              intro t' ht' hid
              have hlocal'' := (hmay t' ht').1
              rw [hid, hlocal] at hlocal''
              exact applyFlags_bit op mask (Option.some.inj hlocal'').symm
            have hafter := localBit_writeStore h.uids op mask targets hmap t.id bit _ hagree
            rw [if_pos ⟨t, ht, rfl⟩, hlocal] at hafter
            obtain rfl := Option.some.inj (hafter.symm.trans hlocal')
            exact (h.keys t.id bit _ hbit hlocal).storeWrite hpushed hi rfl hpush hmay hlocal hagree
              fun hno => absurd rfl (hno t ht)
          · have hother : ∀ t ∈ targets, t.id ≠ id := fun t ht hid => htarget ⟨t, ht, hid⟩
            have hafter := localBit_writeStore h.uids op mask targets hmap id bit v'
              fun t ht hid => absurd hid (hother t ht)
            rw [if_neg htarget] at hafter
            have hlocal := hafter.symm.trans hlocal'
            exact (h.keys id bit v' hbit hlocal).storeWrite hpushed hi rfl hpush hmay hlocal
              (fun t ht hid => absurd hid (hother t ht)) fun _ => rfl
      · exact h
  | storePush i now =>
      simp only [PushState.step]
      split
      · rename_i bit' changes rest hi
        refine ⟨h.uids, h.fits, ?_, fun id bit v hbit hlocal =>
          (h.keys id bit v hbit hlocal).storePush hbit hi now⟩
        intro f o m ts hts
        rcases List.mem_or_eq_of_mem_set hts with hold | heq
        · exact h.targets f o m ts hold
        · cases heq
      · exact h
  | push i =>
      simp only [PushState.step]
      split
      · rename_i p hp
        have hsame : (s.pushStep i p).db.cache = s.db.cache ∧ (s.pushStep i p).stores = s.stores := by
          unfold PushState.pushStep
          split <;> exact ⟨rfl, rfl⟩
        exact hframe _ hsame.1 hsame.2 fun id bit v hbit hlocal =>
          (h.keys id bit v hbit hlocal).pushStep hlocal (List.mem_of_getElem? hp)
      · exact h
  | serverApplies i =>
      simp only [PushState.step]
      split
      · rename_i p hp
        split
        · rename_i hphase
          exact hframe _ rfl rfl fun id bit v hbit hlocal =>
            (h.keys id bit v hbit hlocal).serverApplies (List.mem_of_getElem? hp) hphase
        · exact h
      · exact h
  | answer i a late =>
      simp only [PushState.step]
      split
      · rename_i p hp
        have hsame : (s.answerStep i p a late).db.cache = s.db.cache ∧
            (s.answerStep i p a late).stores = s.stores := by
          unfold PushState.answerStep
          split
          · split <;> exact ⟨rfl, rfl⟩
          · exact ⟨rfl, rfl⟩
        exact hframe _ hsame.1 hsame.2 fun id bit v hbit hlocal =>
          (h.keys id bit v hbit hlocal).answerStep (List.mem_of_getElem? hp) a late
      · exact h
  | lateApplies i =>
      simp only [PushState.step]
      split
      · rename_i r hr
        exact hframe _ rfl rfl fun id bit v hbit hlocal =>
          (h.keys id bit v hbit hlocal).lateApplies (List.mem_of_getElem? hr)
      · exact h
  | serverForgets id =>
      exact hframe _ rfl rfl fun id' bit v hbit hlocal =>
        (h.keys id' bit v hbit hlocal).serverForgets id
  | dropExhausted =>
      exact hframe _ rfl rfl fun id bit v hbit hlocal => (h.keys id bit v hbit hlocal).dropExhausted
  | retry now =>
      exact hframe _ rfl rfl fun id bit v hbit hlocal => (h.keys id bit v hbit hlocal).retry hbit now

/-- A state in which nothing is under way, every row holds the local value, and every
change is known to the server or queued. -/
structure AtRest (s : PushState) : Prop where
  uids : UidMapMatches s.db.cache
  fits : ∀ folder, s.db.cache.uidCounter folder ≤ 2 ^ 32
  stores : s.stores = []
  pushes : s.pushes = []
  late : s.late = []
  row : ∀ id bit v w, localBit s.db id bit = some v → s.queued id bit = some w → w = v
  kept : ∀ id bit v, localBit s.db id bit = some v →
    s.Told id bit v ∨ s.queued id bit = some v ∨ (id, bit) ∈ s.dropped

theorem AtRest.good {s : PushState} (h : AtRest s) : Good s := by
  refine ⟨h.uids, h.fits, ?_, fun id bit v _ hlocal => ?_⟩
  · intro f o m ts hts
    rw [h.stores] at hts
    exact absurd hts List.not_mem_nil
  · have hnone : ∀ w, (id, bit, w) ∉ s.unqueued := by
      intro w hw
      rw [PushState.unqueued, h.stores] at hw
      exact absurd hw List.not_mem_nil
    refine ⟨fun w hw => absurd hw (hnone w), fun w hw => Or.inl (h.row id bit v w hlocal hw), ?_, ?_, ?_⟩
    · intro p hp
      rw [h.pushes] at hp
      exact absurd hp List.not_mem_nil
    · intro r hr
      rw [h.late] at hr
      exact absurd hr List.not_mem_nil
    · rcases h.kept id bit v hlocal with ht | hq | hd
      · exact Or.inl ht
      · exact Or.inr (Or.inl hq)
      · exact Or.inr (Or.inr (Or.inl hd))

/-- **No flag change is lost** in a run whose STOREs disturb nothing: every bit that is
pushed is kept in every state that the run reaches. -/
theorem flags_kept (start : PushState) (hrest : start.AtRest) (events : List PushEvent)
    (hrun : Guarded step Undisturbed start events) (id : String) (bit : Fin 64)
    (hbit : (flagField bit).isSome = true) : (exec step start events).FlagKept id bit := by
  have hgood : Good (exec step start events) := exec_invariant good_step hrest.good hrun
  intro hsettled hdropped v hlocal
  rcases (hgood.keys id bit v hbit hlocal).kept with ht | hq | hd | ⟨w, hw⟩
  · exact Or.inl ht
  · exact Or.inr hq
  · exact absurd hd hdropped
  · exact absurd ⟨rfl, rfl⟩ (hsettled.2 _ hw)

/-- One unread message is cached in the inbox, and the server agrees. -/
def oneUnread : PushState where
  db := (commitPrepared "2026" Database.empty "inbox" (plainItem "m") (plainMessage (some "b"))).1
  server _ := some fun _ => false
  stores := []
  pushes := []
  late := []
  dropped := []

theorem atRest_oneUnread : oneUnread.AtRest where
  uids := by
    have hempty : UidMapMatches Database.empty.cache := uidMapMatches_empty
    exact hempty.commit "2026" "inbox" (plainItem "m") (plainMessage (some "b"))
      fun f hf => absurd hf (by simp [folderOf, Database.empty, Cache.empty])
  fits folder := (MailStore.uidsFit_of_rows (c := oneUnread.db.cache) (by decide +kernel) folder).le
  stores := rfl
  pushes := rfl
  late := rfl
  row id bit v w _ hw := by
    have hrows : oneUnread.db.flagPushes.rows = [] := by decide +kernel
    rw [PushState.queued, FlagPushQueue.pendingValue] at hw
    obtain ⟨r, hr, -⟩ := Option.map_eq_some_iff.1 hw
    have hmem := Table.get?_eq_some_iff.1 hr
    rw [hrows] at hmem
    exact absurd hmem List.not_mem_nil
  kept id bit v hlocal := by
    obtain ⟨flags, hflags, rfl⟩ := Option.map_eq_some_iff.1 hlocal
    obtain ⟨r, hr, rfl⟩ := Option.map_eq_some_iff.1 hflags
    have hzero : ∀ e ∈ oneUnread.db.cache.messageCache.rows, e.2.flags = 0 := by decide +kernel
    refine Or.inl fun f hf => ?_
    obtain rfl := Option.some.inj hf
    rw [hzero _ (Table.get?_eq_some_iff.1 hr)]
    simp

/-- The message is marked as read, and the push goes through. -/
def markRead : List PushEvent :=
  [.storeList "inbox" [1] 1 1, .storeWrite 0, .storePush 0 0, .push 0, .push 0, .serverApplies 0,
    .answer 0 .ok false, .push 0]

theorem flags_kept_markRead : (exec step oneUnread markRead).FlagKept "m" 0 :=
  flags_kept oneUnread atRest_oneUnread markRead (by decide +kernel) "m" 0 (by decide)

/-- The message is marked as read, as unread and as read again. The answer to the first
push comes after the third STORE, whose own push fails. -/
def toggledTwice : List PushEvent :=
  [.storeList "inbox" [1] 1 1, .storeWrite 0, .storePush 0 0, .push 0, .push 0, .serverApplies 0,
    .storeList "inbox" [1] (-1) 1, .storeWrite 1, .storePush 1 0, .push 1, .push 1,
    .serverApplies 1, .answer 1 .ok false, .push 1,
    .storeList "inbox" [1] 1 1, .storeWrite 2, .storePush 2 0,
    .answer 0 .ok false, .push 0,
    .push 2, .push 2, .answer 2 .error false, .push 2, .push 2, .answer 2 .error false, .push 2]

/-- The message is read in the cache and unread on the server, and no row is left. -/
theorem toggledTwice_loses :
    ¬ ∀ start : PushState, start.AtRest → ∀ events id bit, (flagField bit).isSome = true →
      (exec step start events).FlagKept id bit := by
  intro h
  have hkept := h oneUnread atRest_oneUnread toggledTwice "m" 0 (by decide) (by decide +kernel)
    (by decide +kernel) true (by decide +kernel)
  rcases hkept with ht | hq
  · have hserver : ((exec step oneUnread toggledTwice).server "m").map (· 0) = some false := by
      decide +kernel
    obtain ⟨flags, hflags, hunread⟩ := Option.map_eq_some_iff.1 hserver
    exact absurd ((ht flags hflags).symm.trans hunread) (by decide)
  · exact absurd hq (by decide +kernel)

end PushState

end AsterBridge.Imap
