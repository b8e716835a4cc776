import AsterBridge.Db.ChangeLog

/-!
# Paging through the change log

A client brings itself up to date by calling `jmap_changes_since` with its last
state and repeating the call with the returned state while `has_more` is set
(`pollAll`). The walk ends on every log (`pollAll_ne_unfinished`).

Pages are cut by row count, the cursor is a state, and all rows of one batch
share a state; the cap of the log counts rows as well. So a change is skipped
when a page ends inside a group of rows of one state (`longBatch_skips_change`),
and it is lost without notice when the cap removes rows of a state that is still
logged, or the last row of a type.

`poll_reports_recorded` is the completeness of the walk for every run in which
neither happens: a row once recorded is either still logged or below every
logged state of its type, so its absence is visible as "too old".
-/

set_option autoImplicit false

namespace AsterBridge.Jmap.ChangesPaging

open AsterBridge.Lib AsterBridge.Lib.Runs AsterBridge.Db AsterBridge.Db.ChangeLog

/-! ## The client -/

/-- What a client has at the end of its calls. -/
inductive Poll where
  | tooOld
  | upToDate (entries : List (String × ChangeOp)) (state : Int)
  | unfinished
  deriving DecidableEq, Repr

/-- Put the entries of an earlier page in front. -/
def Poll.prepend (entries : List (String × ChangeOp)) : Poll → Poll
  | .tooOld => .tooOld
  | .upToDate es s => .upToDate (entries ++ es) s
  | .unfinished => .unfinished

/-- At most `n` calls of `jmap_changes_since`, from the state `since`. -/
def pollChanges (db : ChangeLog) (ty : String) : Nat → Int → Poll
  | 0, _ => .unfinished
  | n + 1, since =>
      let page := db.jmapChangesSince ty since
      if page.tooOld then .tooOld
      else if page.hasMore then
        (pollChanges db ty n page.newState).prepend page.entries
      else .upToDate page.entries page.newState

/-- The client's whole walk. -/
def pollAll (db : ChangeLog) (ty : String) (since : Int) : Poll :=
  pollChanges db ty (db.rows.length + 1) since

/-- No page of the walk from `since` ends inside a group of rows of one state:
the last row of a full page has a smaller state than all rows after it, and so on
from that state. -/
def PollUncut (db : ChangeLog) (ty : String) : Nat → Int → Prop
  | 0, _ => True
  | n + 1, since =>
      ∀ q ∈ (db.rowsAfter ty since)[changesPageRows - 1]?,
        (∀ r ∈ (db.rowsAfter ty since).drop changesPageRows, q.state < r.state) ∧
          PollUncut db ty n q.state

instance decidablePollUncut (db : ChangeLog) (ty : String) :
    ∀ (n : Nat) (since : Int), Decidable (PollUncut db ty n since)
  | 0, _ => isTrue trivial
  | n + 1, since =>
      have := decidablePollUncut db ty n
      inferInstanceAs (Decidable (∀ q ∈ (db.rowsAfter ty since)[changesPageRows - 1]?,
        (∀ r ∈ (db.rowsAfter ty since).drop changesPageRows, q.state < r.state) ∧
          PollUncut db ty n q.state))

section Page

variable {db : ChangeLog} {ty : String} {since : Int}

/-- The next cursor of a full page is the state of its last row. -/
theorem newState_of_fullPage (hcur : db.tooOld ty since = false)
    (hmore : changesPageRows < (db.rowsAfter ty since).length) :
    ∃ q, (db.rowsAfter ty since)[changesPageRows - 1]? = some q ∧
      (db.jmapChangesSince ty since).newState = q.state := by
  have hlt : changesPageRows - 1 < (db.rowsAfter ty since).length := by omega
  refine ⟨(db.rowsAfter ty since)[changesPageRows - 1], List.getElem?_eq_getElem hlt, ?_⟩
  have hlast : ((db.rowsAfter ty since).take changesPageRows).getLast? =
      some (db.rowsAfter ty since)[changesPageRows - 1] := by
    rw [List.getLast?_take, List.getElem?_eq_getElem hlt]
    rfl
  rw [jmapChangesSince_of_current hcur, hlast]
  rfl

/-- The cursor moves forward: fewer rows follow the next cursor of a full page. -/
theorem rowsAfter_newState_length_lt (hcur : db.tooOld ty since = false)
    (hmore : changesPageRows < (db.rowsAfter ty since).length) :
    (db.rowsAfter ty (db.jmapChangesSince ty since).newState).length <
      (db.rowsAfter ty since).length := by
  obtain ⟨q, hq, hnew⟩ := newState_of_fullPage hcur hmore
  have hmem : q ∈ db.rowsAfter ty since := List.mem_of_getElem? hq
  have hgt : since < q.state := (mem_rowsAfter.1 hmem).2.2
  have hsub : db.rowsAfter ty q.state = (db.rowsAfter ty since).filter (q.state < ·.state) := by
    rw [rowsAfter, rowsAfter, List.filter_filter]
    refine List.filter_congr fun r _ => ?_
    have hstate : q.state < r.state → since < r.state := hgt.trans
    rw [← Bool.decide_and, decide_eq_decide]
    tauto
  rw [hnew, hsub]
  refine List.length_filter_lt_length_iff_exists.2 ⟨q, hmem, ?_⟩
  simp

end Page

/-- The walk ends: enough calls for the rows after the cursor are enough. -/
theorem pollChanges_ne_unfinished (db : ChangeLog) (ty : String) (n : Nat) (since : Int)
    (h : (db.rowsAfter ty since).length < n) : pollChanges db ty n since ≠ .unfinished := by
  induction n generalizing since with
  | zero => omega
  | succ n ih =>
      rw [pollChanges]
      cases hcur : db.tooOld ty since with
      | true => simp [hcur]
      | false =>
          by_cases hmore : changesPageRows < (db.rowsAfter ty since).length
          · have hlt := rowsAfter_newState_length_lt hcur hmore
            have hrec := ih (db.jmapChangesSince ty since).newState (by omega)
            have hm : (db.jmapChangesSince ty since).hasMore = true := by
              simp [jmapChangesSince_of_current hcur, hmore]
            simp only [tooOld_jmapChangesSince, hcur, hm, if_true, Bool.false_eq_true, if_false]
            cases hp : pollChanges db ty n (db.jmapChangesSince ty since).newState with
            | tooOld => simp [Poll.prepend]
            | upToDate es s => simp [Poll.prepend]
            | unfinished => exact absurd hp hrec
          · simp [jmapChangesSince_of_current hcur, hmore]

/-- **The client's walk ends on every log.** -/
theorem pollAll_ne_unfinished (db : ChangeLog) (ty : String) (since : Int) :
    pollAll db ty since ≠ .unfinished :=
  pollChanges_ne_unfinished db ty _ since
    (Nat.lt_succ_of_le (List.length_filter_le _ _))

/-- A walk whose pages are uncut reports every row after the first cursor. -/
theorem pollChanges_reports (db : ChangeLog) (ty : String) (n : Nat) (since : Int)
    (huncut : PollUncut db ty n since) {es : List (String × ChangeOp)} {s : Int}
    (hpoll : pollChanges db ty n since = .upToDate es s) {r : ChangeRow}
    (hr : r ∈ db.rowsAfter ty since) : (r.objectId, r.op) ∈ es := by
  induction n generalizing since es with
  | zero => simp [pollChanges] at hpoll
  | succ n ih =>
      rw [pollChanges] at hpoll
      cases hcur : db.tooOld ty since with
      | true => simp [hcur] at hpoll
      | false =>
          have hpage := jmapChangesSince_of_current hcur
          by_cases hmore : changesPageRows < (db.rowsAfter ty since).length
          · have hm : (db.jmapChangesSince ty since).hasMore = true := by simp [hpage, hmore]
            simp only [tooOld_jmapChangesSince, hcur, hm, if_true, Bool.false_eq_true,
              if_false] at hpoll
            cases hp : pollChanges db ty n (db.jmapChangesSince ty since).newState with
            | tooOld => simp [hp, Poll.prepend] at hpoll
            | unfinished => simp [hp, Poll.prepend] at hpoll
            | upToDate es' s' =>
                simp only [hp, Poll.prepend, Poll.upToDate.injEq] at hpoll
                obtain ⟨rfl, rfl⟩ := hpoll
                rw [List.mem_append]
                -- the row is on this page, or its state is past the next cursor
                rw [← List.take_append_drop changesPageRows (db.rowsAfter ty since),
                  List.mem_append] at hr
                rcases hr with hr | hr
                · left
                  rw [hpage]
                  exact List.mem_map.2 ⟨r, hr, rfl⟩
                · right
                  obtain ⟨q, hq, hnew⟩ := newState_of_fullPage hcur hmore
                  obtain ⟨hlt, hnext⟩ := huncut q hq
                  have hrow := mem_rowsAfter.1 (List.mem_of_mem_drop hr)
                  rw [hnew] at hp
                  exact ih _ hnext hp (mem_rowsAfter.2 ⟨hrow.1, hrow.2.1, hlt r hr⟩)
          · have hle : (db.rowsAfter ty since).length ≤ changesPageRows := by omega
            rw [hpage] at hpoll
            simp only [hmore, decide_false, Bool.false_eq_true, if_false, Poll.upToDate.injEq,
              List.take_of_length_le hle] at hpoll
            rw [← hpoll.1]
            exact List.mem_map.2 ⟨r, hr, rfl⟩

/-! ## Runs of the recording functions -/

/-- A call of one of the recording functions. -/
inductive LogCall where
  | record (op : ChangeOp) (ty : String) (ids : List String)
  | append (ty : String) (state : Int) (objectId op : String)
  | bump (ty : String)
  deriving DecidableEq, Repr

/-- The function a call runs; `jmap_change_log_append` with an unknown `op` fails
and changes nothing. -/
def LogCall.apply (db : ChangeLog) : LogCall → ChangeLog
  | .record .created ty ids => db.jmapRecordSyncBatch ty ids
  | .record .updated ty ids => db.jmapRecordUpdatedBatch ty ids
  | .record .destroyed ty ids => db.jmapRecordDestroyedBatch ty ids
  | .append ty state objectId op => (db.jmapChangeLogAppend ty state objectId op).getD db
  | .bump ty => db.jmapStateBump ty

/-- The rows a call inserts. -/
def LogCall.newRows (db : ChangeLog) : LogCall → List ChangeRow
  | .record op ty ids => ids.map fun id => ⟨ty, db.jmapStateGet ty + 1, id, op⟩
  | .append ty state objectId op =>
      ((ChangeOp.ofText op).map fun op => ⟨ty, state, objectId, op⟩).toList
  | .bump _ => []

/-- The rows a call's DELETE removes, and the rows it leaves. -/
def LogCall.trimmed (db : ChangeLog) (c : LogCall) : List ChangeRow × List ChangeRow :=
  match c with
  | .record _ _ _ => trim (fun _ => true) (db.rows ++ c.newRows db)
  | .append ty _ _ op =>
      if (ChangeOp.ofText op).isSome then trim (fun r => r.type = ty) (db.rows ++ c.newRows db)
      else ([], db.rows)
  | .bump _ => ([], db.rows)

/-- A log with every row that was ever recorded in it. -/
structure Tracked where
  log : ChangeLog
  recorded : List ChangeRow

/-- One call. -/
def Tracked.step (s : Tracked) (c : LogCall) : Tracked :=
  ⟨c.apply s.log, s.recorded ++ c.newRows s.log⟩

/-- A new database. -/
def Tracked.start : Tracked := ⟨ChangeLog.empty, []⟩

/-- A row that the cap removed without cutting into its state: rows of its type
are logged, all with a greater state. -/
def TrimmedBelow (rows : List ChangeRow) (d : ChangeRow) : Prop :=
  (∃ r ∈ rows, r.type = d.type) ∧ ∀ r ∈ rows, r.type = d.type → d.state < r.state

instance (rows : List ChangeRow) (d : ChangeRow) : Decidable (TrimmedBelow rows d) :=
  inferInstanceAs (Decidable (_ ∧ _))

/-- The cap removes whole states only, and never the last rows of a type; a new
row's state is above every state of its type that the cap has removed. -/
def KeepsStates (s : Tracked) (c : LogCall) : Prop :=
  (∀ d ∈ (c.trimmed s.log).1, TrimmedBelow (c.trimmed s.log).2 d) ∧
    ∀ r ∈ c.newRows s.log, ∀ d ∈ s.recorded, d ∉ s.log.rows → d.type = r.type → d.state < r.state

instance (s : Tracked) (c : LogCall) : Decidable (KeepsStates s c) :=
  inferInstanceAs (Decidable (_ ∧ _))

theorem rows_apply (db : ChangeLog) (c : LogCall) : (c.apply db).rows = (c.trimmed db).2 := by
  cases c with
  | record op ty ids =>
      cases op <;>
        simp [LogCall.apply, LogCall.trimmed, LogCall.newRows, jmapRecordSyncBatch,
          jmapRecordUpdatedBatch, jmapRecordDestroyedBatch, jmapRecordBatch]
  | append ty state objectId op =>
      cases h : ChangeOp.ofText op <;>
        simp [LogCall.apply, LogCall.trimmed, LogCall.newRows, jmapChangeLogAppend, h]
  | bump ty => rfl

/-- What the DELETE of a call finds is the old rows and the new ones. -/
theorem mem_trimmed (db : ChangeLog) (c : LogCall) (r : ChangeRow) :
    r ∈ db.rows ∨ r ∈ c.newRows db ↔ r ∈ (c.trimmed db).1 ∨ r ∈ (c.trimmed db).2 := by
  cases c with
  | record op ty ids => rw [LogCall.trimmed, ← mem_trim, List.mem_append]
  | append ty state objectId op =>
      cases h : ChangeOp.ofText op with
      | none => simp [LogCall.trimmed, LogCall.newRows, h]
      | some o => simp only [LogCall.trimmed, h, Option.isSome_some, if_true, ← mem_trim,
          List.mem_append]
  | bump ty => simp [LogCall.trimmed, LogCall.newRows]

/-- Every recorded row is still logged, or it lies below the log of its type. -/
def Accounted (s : Tracked) : Prop :=
  ∀ r ∈ s.recorded, r ∈ s.log.rows ∨ TrimmedBelow s.log.rows r

theorem accounted_start : Accounted Tracked.start := by
  intro r hr
  exact absurd hr List.not_mem_nil

/-- A row below the log stays below it when a call keeps states. -/
theorem trimmedBelow_step {s : Tracked} {c : LogCall} (hc : KeepsStates s c) {r : ChangeRow}
    (hrec : r ∈ s.recorded) (hr : TrimmedBelow s.log.rows r) :
    TrimmedBelow (c.trimmed s.log).2 r := by
  obtain ⟨⟨q, hq, hqt⟩, hbelow⟩ := hr
  have hgone : r ∉ s.log.rows := fun h => absurd (hbelow r h rfl) (lt_irrefl _)
  have habove : ∀ x ∈ (c.trimmed s.log).2, x.type = r.type → r.state < x.state := by
    intro x hx hxt
    rcases (mem_trimmed s.log c x).2 (Or.inr hx) with hold | hnew
    · exact hbelow x hold hxt
    · exact hc.2 x hnew r hrec hgone hxt.symm
  refine ⟨?_, habove⟩
  rcases (mem_trimmed s.log c q).1 (Or.inl hq) with hcut | hkept
  · obtain ⟨⟨x, hx, hxt⟩, -⟩ := hc.1 q hcut
    exact ⟨x, hx, hxt.trans hqt⟩
  · exact ⟨q, hkept, hqt⟩

/-- **Step lemma.** A call that keeps states keeps every recorded row accounted
for. -/
theorem accounted_step (s : Tracked) (c : LogCall) (hs : Accounted s) (hc : KeepsStates s c) :
    Accounted (s.step c) := by
  intro r hr
  show r ∈ (c.apply s.log).rows ∨ TrimmedBelow (c.apply s.log).rows r
  rw [rows_apply]
  have hfound : (r ∈ s.log.rows ∨ r ∈ c.newRows s.log) ∨
      r ∈ s.recorded ∧ TrimmedBelow s.log.rows r := by
    rcases List.mem_append.1 hr with hrec | hnew
    · rcases hs r hrec with h | h
      · exact Or.inl (Or.inl h)
      · exact Or.inr ⟨hrec, h⟩
    · exact Or.inl (Or.inr hnew)
  rcases hfound with hfound | ⟨hrec, hbelow⟩
  · rcases (mem_trimmed s.log c r).1 hfound with hgone | hkept
    · exact Or.inr (hc.1 r hgone)
    · exact Or.inl hkept
  · exact Or.inr (trimmedBelow_step hc hrec hbelow)

/-- A cursor under a row that lies below the log is too old. -/
theorem tooOld_of_trimmedBelow {db : ChangeLog} {r : ChangeRow} {since : Int}
    (hr : TrimmedBelow db.rows r) (hsince : since < r.state) :
    db.tooOld r.type since = true := by
  obtain ⟨⟨q, hq, hqt⟩, hbelow⟩ := hr
  obtain ⟨o, ho, -⟩ := oldestState_le hq
  rw [hqt] at ho
  obtain ⟨m, hm, hmt, hmo⟩ := exists_of_oldestState ho
  have hlt := hbelow m hm hmt
  have hold : since < o - 1 := by omega
  simp [tooOld, ho, hold]

/-- The cap's condition is exact: a removed row that does not lie below the log of
its type leaves a cursor, the state just before it, that is not too old. -/
theorem not_tooOld_of_not_trimmedBelow {db : ChangeLog} {d : ChangeRow}
    (hd : ¬ TrimmedBelow db.rows d) : db.tooOld d.type (d.state - 1) = false := by
  cases ho : db.oldestState d.type with
  | none => simp [tooOld, ho]
  | some o =>
      obtain ⟨m, hm, hmt, hmo⟩ := exists_of_oldestState ho
      have hle : o ≤ d.state := by
        by_contra hlt
        refine hd ⟨⟨m, hm, hmt⟩, fun r hr hrt => ?_⟩
        obtain ⟨o', ho', hle'⟩ := oldestState_le hr
        rw [hrt, ho] at ho'
        cases ho'
        omega
      have hnot : ¬ d.state - 1 < o - 1 := by omega
      simp [tooOld, ho, hnot]

/-- The walk of a client with state `since` reports every row of its type that
was ever recorded with a greater state, or tells the client that its state is too
old. -/
def Complete (s : Tracked) (ty : String) (since : Int) : Prop :=
  pollAll s.log ty since = .tooOld ∨
    ∃ es state, pollAll s.log ty since = .upToDate es state ∧
      ∀ r ∈ s.recorded, r.type = ty → since < r.state → r.objectId ∈ es.map Prod.fst

/-- `since` was the counter of `ty` at some moment of the run. -/
def WasCounter (calls : List LogCall) (ty : String) (since : Int) : Prop :=
  ∃ pre, pre <+: calls ∧ (exec Tracked.step Tracked.start pre).log.jmapStateGet ty = since

/-- **Completeness of the change log.** After every run whose calls keep states
whole, a walk whose pages keep states whole is complete, from every cursor. -/
theorem poll_reports_recorded (calls : List LogCall) (ty : String) (since : Int)
    (hrun : Guarded Tracked.step KeepsStates Tracked.start calls)
    (hpages : PollUncut (exec Tracked.step Tracked.start calls).log ty
      ((exec Tracked.step Tracked.start calls).log.rows.length + 1) since) :
    Complete (exec Tracked.step Tracked.start calls) ty since := by
  have hacc : Accounted (exec Tracked.step Tracked.start calls) :=
    exec_invariant accounted_step accounted_start hrun
  generalize exec Tracked.step Tracked.start calls = s at hacc hpages ⊢
  cases hpoll : pollAll s.log ty since with
  | tooOld => exact Or.inl hpoll
  | unfinished => exact absurd hpoll (pollAll_ne_unfinished s.log ty since)
  | upToDate es state =>
      refine Or.inr ⟨es, state, hpoll, ?_⟩
      rintro r hr rfl hsince
      rcases hacc r hr with hrow | hbelow
      · have hmem := pollChanges_reports s.log r.type _ since hpages hpoll
          (mem_rowsAfter.2 ⟨hrow, rfl, hsince⟩)
        exact List.mem_map.2 ⟨_, hmem, rfl⟩
      · have hold := tooOld_of_trimmedBelow hbelow hsince
        rw [pollAll, pollChanges] at hpoll
        simp [hold] at hpoll

/-- Two batches of mail and one of mailboxes. -/
def threeBatches : List LogCall :=
  [.record .created "Email" ["a", "b"], .record .created "Mailbox" ["m"],
    .record .updated "Email" ["a"]]

theorem poll_reports_recorded_threeBatches :
    Complete (exec Tracked.step Tracked.start threeBatches) "Email" 1 :=
  poll_reports_recorded threeBatches "Email" 1 (by decide) (by decide)

/-- One batch of 501 messages. -/
def longBatch : List LogCall :=
  [.record .created "Email" (List.replicate 500 "a" ++ ["b"])]

/-- A batch longer than a page: the last message of the batch has the state that
the first page returns, and no later page brings it. -/
theorem longBatch_skips_change :
    WasCounter longBatch "Email" 0 ∧
      ¬ Complete (exec Tracked.step Tracked.start longBatch) "Email" 0 := by
  refine ⟨⟨[], List.nil_prefix, rfl⟩, ?_⟩
  have hpoll : pollAll (exec Tracked.step Tracked.start longBatch).log "Email" 0 =
      .upToDate (List.replicate 500 ("a", .created)) 1 := by decide +kernel
  have hrow : (⟨"Email", 1, "b", .created⟩ : ChangeRow) ∈
      (exec Tracked.step Tracked.start longBatch).recorded := by decide +kernel
  rintro (hold | ⟨es, state, hes, hall⟩)
  · rw [hpoll] at hold
    exact Poll.noConfusion hold
  · rw [hpoll, Poll.upToDate.injEq] at hes
    have hmem := hall _ hrow rfl (by decide)
    rw [← hes.1] at hmem
    obtain ⟨e, he, heq⟩ := List.mem_map.1 hmem
    rw [List.eq_of_mem_replicate he] at heq
    exact absurd heq (by decide)

end AsterBridge.Jmap.ChangesPaging
