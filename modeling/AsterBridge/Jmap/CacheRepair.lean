import AsterBridge.Jmap.ChangesPaging

/-!
# The change log across a repair of the cache

`repair_cache` deletes the cached messages, the counters and the change log. The numbering
then starts again at 0, below the states that clients hold. A request with such a state is not
refused: it is answered with the rows above it, and there are none until the counter has passed
the state once more (`repair_hides_changes`).

`informed_iff` says when a client still hears of every message that differs: exactly when each
of them was recorded after the last repair with a state above the client's, or the state is too
old by the rows that the log has.
-/

set_option autoImplicit false

namespace AsterBridge.Jmap.CacheRepair

open AsterBridge.Lib AsterBridge.Lib.Runs AsterBridge.Db AsterBridge.Db.ChangeLog
open AsterBridge.Jmap.ChangesPaging

/-! ## Walks -/

section Walk

variable {db : ChangeLog} {ty : String} {since : Int}

/-- A walk reports logged rows above its first state only. -/
theorem pollChanges_entries (n : Nat) {es : List (String × ChangeOp)} {s : Int}
    (h : pollChanges db ty n since = .upToDate es s) {e : String × ChangeOp} (he : e ∈ es) :
    ∃ r ∈ db.rowsAfter ty since, (r.objectId, r.op) = e := by
  induction n generalizing since es s with
  | zero => exact absurd h (by simp [pollChanges])
  | succ n ih =>
      rw [pollChanges] at h
      cases hold : db.tooOld ty since with
      | true => simp [hold] at h
      | false =>
          have hpage := jmapChangesSince_of_current hold
          have hentries : ∀ e ∈ (db.jmapChangesSince ty since).entries,
              ∃ r ∈ db.rowsAfter ty since, (r.objectId, r.op) = e := by
            intro e he
            rw [hpage] at he
            obtain ⟨r, hr, rfl⟩ := List.mem_map.1 he
            exact ⟨r, List.mem_of_mem_take hr, rfl⟩
          simp only [tooOld_jmapChangesSince, hold, Bool.false_eq_true, if_false] at h
          cases hmore : (db.jmapChangesSince ty since).hasMore with
          | false =>
              rw [hmore, if_neg (by simp), Poll.upToDate.injEq] at h
              exact hentries e (h.1 ▸ he)
          | true =>
              rw [hmore, if_pos rfl] at h
              cases hp : pollChanges db ty n (db.jmapChangesSince ty since).newState with
              | tooOld => simp [hp, Poll.prepend] at h
              | unfinished => simp [hp, Poll.prepend] at h
              | upToDate es' s' =>
                  rw [hp, Poll.prepend, Poll.upToDate.injEq] at h
                  rw [← h.1, List.mem_append] at he
                  rcases he with he | he
                  · exact hentries e he
                  · obtain ⟨r, hr, hre⟩ := ih hp he
                    rw [hpage] at hmore
                    obtain ⟨q, hq, hnew⟩ := newState_of_fullPage hold (of_decide_eq_true hmore)
                    have hgt := (mem_rowsAfter.1 (List.mem_of_getElem? hq)).2.2
                    obtain ⟨hrow, htype, hlt⟩ := mem_rowsAfter.1 hr
                    rw [hnew] at hlt
                    exact ⟨r, mem_rowsAfter.2 ⟨hrow, htype, hgt.trans hlt⟩, hre⟩

/-- A later state is not too old when an earlier one is not. -/
theorem tooOld_mono {later : Int} (hle : since ≤ later) (h : db.tooOld ty since = false) :
    db.tooOld ty later = false := by
  unfold tooOld at h ⊢
  cases ho : db.oldestState ty with
  | none => rfl
  | some o =>
      rw [ho] at h
      have hge : ¬since < o - 1 := of_decide_eq_false h
      exact decide_eq_false (by omega)

/-- A walk is refused as too old on its first page or not at all. -/
theorem pollChanges_tooOld (n : Nat) (h : pollChanges db ty n since = .tooOld) :
    db.tooOld ty since = true := by
  induction n generalizing since with
  | zero => exact absurd h (by simp [pollChanges])
  | succ n ih =>
      cases hold : db.tooOld ty since with
      | true => rfl
      | false =>
          rw [pollChanges] at h
          simp only [tooOld_jmapChangesSince, hold, Bool.false_eq_true, if_false] at h
          cases hmore : (db.jmapChangesSince ty since).hasMore with
          | false => simp [hmore] at h
          | true =>
              rw [hmore, if_pos rfl] at h
              cases hp : pollChanges db ty n (db.jmapChangesSince ty since).newState with
              | upToDate es s => simp [hp, Poll.prepend] at h
              | unfinished => simp [hp, Poll.prepend] at h
              | tooOld =>
                  rw [jmapChangesSince_of_current hold] at hmore
                  obtain ⟨q, hq, hnew⟩ := newState_of_fullPage hold (of_decide_eq_true hmore)
                  have hgt := (mem_rowsAfter.1 (List.mem_of_getElem? hq)).2.2
                  have hlater := ih hp
                  rw [hnew, tooOld_mono hgt.le hold] at hlater
                  exact hlater

end Walk

/-! ## Runs with repairs -/

/-- Folder and flags of a cached message. -/
abbrev Status := String × Nat

/-- The log with the rows recorded since the last repair, and the cached messages. -/
structure World where
  tracked : Tracked
  status : String → Option Status

/-- A recording function, a write to a message, or `repair_cache`. -/
inductive Action where
  | call (c : LogCall)
  | write (id : String) (status : Option Status)
  | repair
deriving DecidableEq, Repr

/-- One action. -/
def World.step (w : World) : Action → World
  | .call c => { w with tracked := w.tracked.step c }
  | .write id status => { w with status := Function.update w.status id status }
  | .repair => ⟨Tracked.start, fun _ => none⟩

/-- A new database. -/
def World.start : World := ⟨Tracked.start, fun _ => none⟩

/-- The calls keep the states of the log whole. -/
def World.KeepsLog (w : World) : Action → Prop
  | .call c => KeepsStates w.tracked c
  | _ => True

instance decidableKeepsLog (w : World) : ∀ a, Decidable (w.KeepsLog a)
  | .call c => inferInstanceAs (Decidable (KeepsStates w.tracked c))
  | .write _ _ => isTrue trivial
  | .repair => isTrue trivial

/-- The client with state `since` is refused, or its pages report every message whose status is
not the one it knows. -/
def Informed (w : World) (ty : String) (since : Int) (known : String → Option Status) : Prop :=
  pollAll w.tracked.log ty since = .tooOld ∨
    ∃ es state, pollAll w.tracked.log ty since = .upToDate es state ∧
      ∀ id, w.status id ≠ known id → id ∈ es.map Prod.fst

/-- The log holds recorded rows, and accounts for all of them. -/
def Kept (w : World) : Prop :=
  Accounted w.tracked ∧ ∀ r ∈ w.tracked.log.rows, r ∈ w.tracked.recorded

theorem kept_start : Kept World.start :=
  ⟨accounted_start, fun _ hr => absurd hr List.not_mem_nil⟩

/-- **Step lemma.** A repair forgets the log and the recorded rows together. -/
theorem kept_step (w : World) (a : Action) (h : Kept w) (ha : w.KeepsLog a) : Kept (w.step a) := by
  cases a with
  | call c =>
      refine ⟨accounted_step w.tracked c h.1 ha, ?_⟩
      intro r hr
      have hr : r ∈ (c.apply w.tracked.log).rows := hr
      rw [rows_apply] at hr
      show r ∈ w.tracked.recorded ++ c.newRows w.tracked.log
      rw [List.mem_append]
      exact ((mem_trimmed w.tracked.log c r).2 (Or.inr hr)).imp_left (h.2 r)
  | write id status => exact h
  | repair => exact kept_start

/-- **When a client hears of every difference**: for every run, every moment of it at which a
state was handed out, and every later moment. -/
theorem informed_iff (before after : List Action) (ty : String)
    (hrun : Guarded World.step World.KeepsLog World.start (before ++ after))
    (hpages : PollUncut (exec World.step World.start (before ++ after)).tracked.log ty
      ((exec World.step World.start (before ++ after)).tracked.log.rows.length + 1)
      ((exec World.step World.start before).tracked.log.jmapStateGet ty)) :
    Informed (exec World.step World.start (before ++ after)) ty
        ((exec World.step World.start before).tracked.log.jmapStateGet ty)
        (exec World.step World.start before).status ↔
      (exec World.step World.start (before ++ after)).tracked.log.tooOld ty
          ((exec World.step World.start before).tracked.log.jmapStateGet ty) = true ∨
        ∀ id, (exec World.step World.start (before ++ after)).status id ≠
            (exec World.step World.start before).status id →
          ∃ r ∈ (exec World.step World.start (before ++ after)).tracked.recorded,
            r.type = ty ∧ r.objectId = id ∧
              (exec World.step World.start before).tracked.log.jmapStateGet ty < r.state := by
  have hkept : Kept (exec World.step World.start (before ++ after)) :=
    exec_invariant kept_step kept_start hrun
  generalize exec World.step World.start (before ++ after) = w at hkept hpages ⊢
  generalize (exec World.step World.start before).tracked.log.jmapStateGet ty = since at hpages ⊢
  obtain ⟨haccounted, hlogged⟩ := hkept
  constructor
  · rintro (hold | ⟨es, state, hpoll, hall⟩)
    · exact Or.inl (pollChanges_tooOld _ hold)
    · refine Or.inr fun id hdiffers => ?_
      obtain ⟨e, he, rfl⟩ := List.mem_map.1 (hall id hdiffers)
      obtain ⟨r, hr, rfl⟩ := pollChanges_entries _ hpoll he
      obtain ⟨hrow, htype, hlt⟩ := mem_rowsAfter.1 hr
      exact ⟨r, hlogged r hrow, htype, rfl, hlt⟩
  · rintro (hold | hall)
    · left
      rw [pollAll, pollChanges]
      simp [hold]
    · cases hpoll : pollAll w.tracked.log ty since with
      | tooOld => exact Or.inl hpoll
      | unfinished => exact absurd hpoll (pollAll_ne_unfinished w.tracked.log ty since)
      | upToDate es state =>
          refine Or.inr ⟨es, state, hpoll, fun id hdiffers => ?_⟩
          obtain ⟨r, hrec, rfl, rfl, hlt⟩ := hall id hdiffers
          rcases haccounted r hrec with hrow | hbelow
          · have hmem := pollChanges_reports w.tracked.log r.type _ since hpages hpoll
              (mem_rowsAfter.2 ⟨hrow, rfl, hlt⟩)
            exact List.mem_map.2 ⟨_, hmem, rfl⟩
          · have hold := tooOld_of_trimmedBelow hbelow hlt
            rw [pollAll, pollChanges] at hpoll
            simp [hold] at hpoll

/-- A message arrives and a client asks. -/
def firstMessage : List Action :=
  [.write "a" (some ("inbox", 0)), .call (.record .created "Email" ["a"])]

/-- The cache is repaired and filled again with another message. -/
def repaired : List Action :=
  [.repair, .write "b" (some ("inbox", 0)), .call (.record .created "Email" ["b"])]

theorem informed_iff_repaired :
    Informed (exec World.step World.start (firstMessage ++ repaired)) "Email"
        ((exec World.step World.start firstMessage).tracked.log.jmapStateGet "Email")
        (exec World.step World.start firstMessage).status ↔
      (exec World.step World.start (firstMessage ++ repaired)).tracked.log.tooOld "Email"
          ((exec World.step World.start firstMessage).tracked.log.jmapStateGet "Email") = true ∨
        ∀ id, (exec World.step World.start (firstMessage ++ repaired)).status id ≠
            (exec World.step World.start firstMessage).status id →
          ∃ r ∈ (exec World.step World.start (firstMessage ++ repaired)).tracked.recorded,
            r.type = "Email" ∧ r.objectId = id ∧
              (exec World.step World.start firstMessage).tracked.log.jmapStateGet "Email" <
                r.state :=
  informed_iff firstMessage repaired "Email" (by decide +kernel) (by decide +kernel)

/-- After the repair the client is told that nothing has changed: the message it knows is gone
and another one is there. -/
theorem repair_hides_changes :
    pollAll (exec World.step World.start (firstMessage ++ repaired)).tracked.log "Email"
        ((exec World.step World.start firstMessage).tracked.log.jmapStateGet "Email") =
        .upToDate [] 1 ∧
      (exec World.step World.start firstMessage).status "a" = some ("inbox", 0) ∧
      (exec World.step World.start (firstMessage ++ repaired)).status "a" = none ∧
      ¬Informed (exec World.step World.start (firstMessage ++ repaired)) "Email"
        ((exec World.step World.start firstMessage).tracked.log.jmapStateGet "Email")
        (exec World.step World.start firstMessage).status := by
  have hpoll : pollAll (exec World.step World.start (firstMessage ++ repaired)).tracked.log "Email"
      ((exec World.step World.start firstMessage).tracked.log.jmapStateGet "Email") =
      .upToDate [] 1 := by decide +kernel
  have hknown : (exec World.step World.start firstMessage).status "a" = some ("inbox", 0) := by
    decide +kernel
  have hgone : (exec World.step World.start (firstMessage ++ repaired)).status "a" = none := by
    decide +kernel
  refine ⟨hpoll, hknown, hgone, ?_⟩
  rintro (hold | ⟨es, state, hes, hall⟩)
  · rw [hpoll] at hold
    exact Poll.noConfusion hold
  · rw [hpoll, Poll.upToDate.injEq] at hes
    have hmem := hall "a" (by rw [hknown, hgone]; simp)
    rw [← hes.1] at hmem
    exact absurd hmem List.not_mem_nil

end AsterBridge.Jmap.CacheRepair
