import AsterBridge.Db.ChangeLog

/-!
# A client that follows the changes

`Email/changes` and `Mailbox/changes` answer in two reads: the rows of
`jmap_changes_since`, folded by `partition_ops`, and then, on the last page, the counter. A
client keeps the set of ids that exist, adds and removes what each response says, and asks
again from the new state.

`settled_holds` is the client's correctness for every interleaving in which the reads of a
request agree (`Steady`). Each part of the condition is needed: a record between the two reads
is skipped by the new state, and an id that is destroyed and created again in one page is
reported as destroyed (`reads_miss_records`).
-/

set_option autoImplicit false

namespace AsterBridge.Jmap.ChangesClient

open AsterBridge.Lib AsterBridge.Lib.Runs AsterBridge.Db AsterBridge.Db.ChangeLog

/-! ## The response -/

/-- The arms of `partition_ops`: the verdict on an id after one more operation. -/
def mergeOp (current : Option ChangeOp) (op : ChangeOp) : ChangeOp :=
  match current, op with
  | _, .destroyed => .destroyed
  | some .destroyed, _ => .destroyed
  | some .created, .updated => .created
  | _, op => op

/-- `effective` -/
def effective (entries : List (String × ChangeOp)) : Table String ChangeOp :=
  entries.foldl (fun t e => t.upsert e.1 (mergeOp (t.get? e.1) e.2)) Table.empty

/-- The lists of a response. The source reads them from a hash map, in any order. -/
structure Verdicts where
  created : List String
  updated : List String
  destroyed : List String
deriving DecidableEq, Repr

/-- The ids with a verdict. -/
def withVerdict (t : Table String ChangeOp) (op : ChangeOp) : List String :=
  (t.rows.filter fun e => e.2 = op).map Prod.fst

/-- `partition_ops` -/
def partitionOps (entries : List (String × ChangeOp)) : Verdicts where
  created := withVerdict (effective entries) .created
  updated := withVerdict (effective entries) .updated
  destroyed := withVerdict (effective entries) .destroyed

/-- The ids of a response. -/
def Verdicts.ids (v : Verdicts) : List String := v.created ++ v.updated ++ v.destroyed

/-- What a client holds after a response. -/
def Verdicts.apply (v : Verdicts) (held : String → Bool) : String → Bool := fun id =>
  (held id || v.created.contains id || v.updated.contains id) && !v.destroyed.contains id

/-! ## Existence -/

/-- An id exists after an operation on it. -/
def existsAfter (op : ChangeOp) (was : Bool) : Bool :=
  match op with
  | .created => true
  | .updated => was
  | .destroyed => false

/-- The operation is possible for an id. -/
def possible (op : ChangeOp) (was : Bool) : Bool :=
  match op with
  | .created => !was
  | .updated => was
  | .destroyed => was

/-- The ids that exist after the entries. -/
def replay (present : String → Bool) (entries : List (String × ChangeOp)) : String → Bool :=
  entries.foldl (fun p e => Function.update p e.1 (existsAfter e.2 (p e.1))) present

/-- Each entry is possible when it is made. -/
def Possible (present : String → Bool) : List (String × ChangeOp) → Prop
  | [] => True
  | e :: es => possible e.2 (present e.1) = true ∧
      Possible (Function.update present e.1 (existsAfter e.2 (present e.1))) es

instance decidablePossible : ∀ (present : String → Bool) (entries : List (String × ChangeOp)),
    Decidable (Possible present entries)
  | _, [] => isTrue trivial
  | present, e :: es =>
      have := decidablePossible
        (Function.update present e.1 (existsAfter e.2 (present e.1))) es
      inferInstanceAs (Decidable (_ ∧ _))

/-- The last operation on an id. -/
def lastOp (entries : List (String × ChangeOp)) (id : String) : Option ChangeOp :=
  ((entries.filter fun e => e.1 = id).getLast?).map Prod.snd

section Entries

variable {present : String → Bool} {es es' : List (String × ChangeOp)} {id : String}

theorem replay_append (present : String → Bool) (es es' : List (String × ChangeOp)) :
    replay present (es ++ es') = replay (replay present es) es' :=
  List.foldl_append

theorem possible_append : Possible present (es ++ es') ↔
    Possible present es ∧ Possible (replay present es) es' := by
  induction es generalizing present with
  | nil => exact ⟨fun h => ⟨trivial, h⟩, fun h => h.2⟩
  | cons e es ih => rw [List.cons_append, Possible, Possible, ih, and_assoc]; rfl

theorem lastOp_append_singleton (es : List (String × ChangeOp)) (e : String × ChangeOp)
    (id : String) : lastOp (es ++ [e]) id = if e.1 = id then some e.2 else lastOp es id := by
  rw [lastOp, lastOp, List.filter_append]
  by_cases h : e.1 = id
  · rw [if_pos h, List.filter_cons_of_pos (by simpa using h), List.filter_nil,
      List.getLast?_concat]
    rfl
  · rw [if_neg h, List.filter_cons_of_neg (by simpa using h), List.filter_nil, List.append_nil]

/-- After a possible history an id exists unless the last operation destroyed it. -/
theorem replay_eq_lastOp (h : Possible present es) (id : String) :
    replay present es id = ((lastOp es id).map (· != .destroyed)).getD (present id) := by
  induction es using List.reverseRecOn with
  | nil => rfl
  | append_singleton es e ih =>
      obtain ⟨hes, he⟩ := possible_append.1 h
      rw [replay_append, lastOp_append_singleton]
      show Function.update (replay present es) e.1 _ id = _
      by_cases hid : e.1 = id
      · subst hid
        rw [Function.update_self, if_pos rfl]
        have hpossible : possible e.2 (replay present es e.1) = true := he.1
        cases hop : e.2 with
        | created => rfl
        | updated =>
            rw [hop] at hpossible
            exact hpossible
        | destroyed => rfl
      · rw [Function.update_of_ne (Ne.symm hid), if_neg hid, ih hes]

/-- An id has a verdict when it has an operation; the verdict is "destroyed" when one of its
operations is. -/
theorem get?_effective (es : List (String × ChangeOp)) (id : String) :
    ((effective es).get? id = none ↔ lastOp es id = none) ∧
      ((effective es).get? id = some .destroyed ↔ (id, .destroyed) ∈ es) := by
  induction es using List.reverseRecOn with
  | nil => simp [effective, lastOp]
  | append_singleton es e ih =>
      obtain ⟨hnone, hdestroyed⟩ := ih
      have hstep : effective (es ++ [e]) =
          (effective es).upsert e.1 (mergeOp ((effective es).get? e.1) e.2) := List.foldl_append
      rw [hstep, Table.get?_upsert, lastOp_append_singleton, List.mem_append, List.mem_singleton]
      by_cases hid : e.1 = id
      · subst hid
        rw [if_pos rfl, if_pos rfl, Option.some_inj, ← hdestroyed]
        refine ⟨by simp, ?_⟩
        rcases e with ⟨id, op⟩
        rw [Prod.mk.injEq]
        cases hcurrent : (effective es).get? id with
        | none => cases op <;> simp [mergeOp]
        | some current => cases current <;> cases op <;> simp [mergeOp]
      · have hne : (id, ChangeOp.destroyed) ≠ e := fun h => hid (congrArg Prod.fst h).symm
        rw [if_neg (Ne.symm hid), if_neg hid, hnone, hdestroyed]
        simp [hne]

theorem mem_withVerdict {t : Table String ChangeOp} {op : ChangeOp} :
    id ∈ withVerdict t op ↔ t.get? id = some op := by
  rw [Table.get?_eq_some_iff, withVerdict, List.mem_map]
  constructor
  · rintro ⟨⟨i, o⟩, he, rfl⟩
    obtain ⟨he, ho⟩ := List.mem_filter.1 he
    have ho : o = op := by simpa using ho
    exact ho ▸ he
  · intro he
    exact ⟨(id, op), List.mem_filter.2 ⟨he, by simp⟩, rfl⟩

theorem contains_withVerdict (t : Table String ChangeOp) (op : ChangeOp) (id : String) :
    (withVerdict t op).contains id = decide (t.get? id = some op) := by
  rw [List.contains_eq_mem, decide_eq_decide]
  exact mem_withVerdict

theorem mem_of_lastOp {op : ChangeOp} (h : lastOp es id = some op) : (id, op) ∈ es := by
  obtain ⟨e, he, rfl⟩ := Option.map_eq_some_iff.1 h
  obtain ⟨hmem, hid⟩ := List.mem_filter.1 (List.mem_of_getLast? he)
  have hid : e.1 = id := by simpa using hid
  exact hid ▸ hmem

theorem lastOp_ne_none (h : id ∈ es.map Prod.fst) : lastOp es id ≠ none := by
  obtain ⟨e, he, rfl⟩ := List.mem_map.1 h
  have hmem : e ∈ es.filter fun e' => e'.1 = e.1 := List.mem_filter.2 ⟨he, by simp⟩
  intro hnone
  rw [lastOp, Option.map_eq_none_iff, List.getLast?_eq_none_iff] at hnone
  exact absurd (hnone ▸ hmem) List.not_mem_nil

/-- A response names every id with an operation. -/
theorem mem_ids_partitionOps (h : id ∈ es.map Prod.fst) : id ∈ (partitionOps es).ids := by
  have hsome : (effective es).get? id ≠ none := fun hnone =>
    lastOp_ne_none h ((get?_effective es id).1.1 hnone)
  obtain ⟨op, hop⟩ := Option.ne_none_iff_exists'.1 hsome
  rw [Verdicts.ids, List.mem_append, List.mem_append]
  cases op with
  | created => exact Or.inl (Or.inl (mem_withVerdict.2 hop))
  | updated => exact Or.inl (Or.inr (mem_withVerdict.2 hop))
  | destroyed => exact Or.inr (mem_withVerdict.2 hop)

/-- No id that the entries destroy exists after them. -/
def NotRecreated (es : List (String × ChangeOp)) : Prop :=
  ∀ e ∈ es, e.2 = .destroyed → lastOp es e.1 = some .destroyed

/-- **A response says what its entries do**, unless an id was created again after it was
destroyed. -/
theorem apply_partitionOps {held : String → Bool} (h : Possible held es) (hnot : NotRecreated es) :
    (partitionOps es).apply held = replay held es := by
  funext id
  obtain ⟨hnone, hdestroyed⟩ := get?_effective es id
  rw [replay_eq_lastOp h, Verdicts.apply, partitionOps, contains_withVerdict,
    contains_withVerdict, contains_withVerdict]
  cases hlast : lastOp es id with
  | none => simp [hnone.2 hlast]
  | some op =>
      cases hverdict : (effective es).get? id with
      | none =>
          rw [hnone.1 hverdict] at hlast
          exact absurd hlast (by simp)
      | some verdict =>
          -- the verdict and the last operation are "destroyed" together
          have hsame : verdict = .destroyed ↔ op = .destroyed := by
            constructor
            · rintro rfl
              have hop := hnot _ (hdestroyed.1 hverdict) rfl
              rwa [hlast, Option.some_inj] at hop
            · rintro rfl
              rw [hdestroyed.2 (mem_of_lastOp hlast), Option.some_inj] at hverdict
              exact hverdict.symm
          cases verdict with
          | destroyed => simp [hsame.1 rfl]
          | created =>
              have hop : op ≠ .destroyed := fun hop => absurd (hsame.2 hop) (by decide)
              simp [hop]
          | updated =>
              have hop : op ≠ .destroyed := fun hop => absurd (hsame.2 hop) (by decide)
              simp [hop]

end Entries

/-! ## Sessions -/

/-- The database with one client. The log goes with the rows that its cap has removed, and with
the ids that exist. -/
structure Session where
  log : ChangeLog
  removed : List ChangeRow
  present : String → Bool
  /-- The ids that the client holds, and its state. -/
  held : String → Bool
  since : Int
  /-- The rows of a request that waits for its second read. -/
  pending : Option Changes
  /-- A change was recorded after these rows were read. -/
  overtaken : Bool
  /-- The ids with a change since the client began, and the ids in the responses. -/
  touched : List String
  reported : List String
  /-- The last response had no more changes, and no change was recorded between its reads or
  after them. -/
  settled : Bool

/-- A step of the database or of the client. -/
inductive Event where
  | record (op : ChangeOp) (ty : String) (ids : List String)
  | bump (ty : String)
  | begin
  | readRows
  | answer
deriving DecidableEq, Repr

/-- The rows of a batch. -/
def batchRows (log : ChangeLog) (op : ChangeOp) (ty : String) (ids : List String) :
    List ChangeRow :=
  ids.map fun id => ⟨ty, log.jmapStateGet ty + 1, id, op⟩

/-- `jmap_record_batch`; `ty` is the type that the client follows. -/
def Session.record (ty : String) (s : Session) (op : ChangeOp) (ty' : String)
    (ids : List String) : Session :=
  let s' := { s with
    log := s.log.jmapRecordBatch ty' ids op
    removed := s.removed ++ (trim (fun _ => true) (s.log.rows ++ batchRows s.log op ty' ids)).1 }
  if ty' = ty ∧ ids ≠ [] then
    { s' with
      present := replay s.present (ids.map (·, op))
      overtaken := true
      touched := s.touched ++ ids
      settled := false }
  else s'

/-- The second read and the response of `changes`. -/
def Session.answer (ty : String) (s : Session) (page : Changes) : Session :=
  if page.tooOld then { s with pending := none }
  else
    let newState := if page.hasMore then page.newState else s.log.jmapStateGet ty
    let verdicts := partitionOps page.entries
    { s with
      held := verdicts.apply s.held
      since := newState
      pending := none
      reported := s.reported ++ verdicts.ids
      settled := !page.hasMore && !s.overtaken }

/-- One step. -/
def step (ty : String) (s : Session) : Event → Session
  | .record op ty' ids => s.record ty op ty' ids
  | .bump ty' => { s with log := s.log.jmapStateBump ty' }
  | .begin =>
      { s with
        held := s.present
        since := s.log.jmapStateGet ty
        pending := none
        touched := []
        reported := []
        settled := false }
  | .readRows =>
      { s with pending := some (s.log.jmapChangesSince ty s.since), overtaken := false }
  | .answer =>
      match s.pending with
      | some page => s.answer ty page
      | none => s

/-- A new database in which some ids exist. -/
def start (present : String → Bool) : Session where
  log := ChangeLog.empty
  removed := []
  present := present
  held := present
  since := 0
  pending := none
  overtaken := false
  touched := []
  reported := []
  settled := false

/-- The changes of the type are possible when they are recorded. -/
def Consistent (ty : String) (s : Session) : Event → Prop
  | .record op ty' ids => ty' = ty → Possible s.present (ids.map (·, op))
  | _ => True

instance decidableConsistent (ty : String) (s : Session) : ∀ e, Decidable (Consistent ty s e)
  | .record op ty' ids =>
      inferInstanceAs (Decidable (ty' = ty → Possible s.present (ids.map (·, op))))
  | .bump _ => isTrue trivial
  | .begin => isTrue trivial
  | .readRows => isTrue trivial
  | .answer => isTrue trivial

/-- The rows of the page that a request reads. -/
def pageRows (ty : String) (s : Session) : List ChangeRow :=
  (s.log.rowsAfter ty s.since).take changesPageRows

/-- The entries of rows. -/
def entriesOf (rows : List ChangeRow) : List (String × ChangeOp) :=
  rows.map fun r => (r.objectId, r.op)

/-- What makes the two reads of a request agree with the log. A request that is not refused as
too old finds every row above its state, its page does not end inside the rows of one state,
and has no id that was created again after it was destroyed; and nothing is recorded between
the reads of the last page. -/
def Steady (ty : String) (s : Session) : Event → Prop
  | .readRows => s.log.tooOld ty s.since = true ∨
      (∀ d ∈ s.removed, d.type = ty → d.state ≤ s.since) ∧
        (∀ q ∈ pageRows ty s, ∀ r ∈ (s.log.rowsAfter ty s.since).drop changesPageRows,
          q.state < r.state) ∧
        NotRecreated (entriesOf (pageRows ty s))
  | .answer => ∀ page ∈ s.pending, page.tooOld = false → page.hasMore = false →
      s.overtaken = false
  | _ => True

instance decidableNotRecreated (es : List (String × ChangeOp)) : Decidable (NotRecreated es) :=
  decidable_of_iff
    (es.all (fun e => decide (e.2 = .destroyed → lastOp es e.1 = some .destroyed)) = true)
    (List.all_eq_true.trans (forall₂_congr fun _ _ => decide_eq_true_iff))

instance decidableSteady (ty : String) (s : Session) : ∀ e, Decidable (Steady ty s e)
  | .record _ _ _ => isTrue trivial
  | .bump _ => isTrue trivial
  | .begin => isTrue trivial
  | .readRows =>
      inferInstanceAs (Decidable (s.log.tooOld ty s.since = true ∨
        (∀ d ∈ s.removed, d.type = ty → d.state ≤ s.since) ∧
          (∀ q ∈ pageRows ty s, ∀ r ∈ (s.log.rowsAfter ty s.since).drop changesPageRows,
            q.state < r.state) ∧
          NotRecreated (entriesOf (pageRows ty s))))
  | .answer =>
      inferInstanceAs (Decidable (∀ page ∈ s.pending, page.tooOld = false → page.hasMore = false →
        s.overtaken = false))

/-- The rows recorded so far. -/
def Session.recorded (s : Session) : List ChangeRow := s.removed ++ s.log.rows

/-- The rows of the type above a state. -/
def Session.above (ty : String) (s : Session) (since : Int) : List ChangeRow :=
  s.recorded.filter fun r => r.type = ty ∧ since < r.state

/-- A page covers a part of the rows above the client's state, and its new state the rest. -/
structure Covers (ty : String) (s : Session) (page : Changes) (read later : List ChangeRow) :
    Prop where
  above : s.above ty s.since = read ++ later
  entries : page.entries = entriesOf read
  notRecreated : NotRecreated page.entries
  more : page.hasMore = true →
    page.newState ≤ s.log.jmapStateGet ty ∧ s.above ty page.newState = later
  last : page.hasMore = false → s.overtaken = false → later = []

/-- The client lacks exactly the rows above its state. -/
structure Follows (ty : String) (s : Session) : Prop where
  bound : ∀ r ∈ s.recorded, r.type = ty → r.state ≤ s.log.jmapStateGet ty
  sorted : s.recorded.Pairwise fun q r => q.type = ty → r.type = ty → q.state ≤ r.state
  since_le : s.since ≤ s.log.jmapStateGet ty
  possible : Possible s.held (entriesOf (s.above ty s.since))
  replay : replay s.held (entriesOf (s.above ty s.since)) = s.present
  touched : ∀ id ∈ s.touched, id ∈ s.reported ∨ id ∈ (s.above ty s.since).map (·.objectId)
  settled : s.settled = true → s.above ty s.since = []
  page : ∀ page ∈ s.pending, page.tooOld = false → ∃ read later, Covers ty s page read later

section Steps

variable {ty : String} {s t : Session}

theorem mem_above {since : Int} {r : ChangeRow} :
    r ∈ s.above ty since ↔ r ∈ s.recorded ∧ r.type = ty ∧ since < r.state := by
  rw [Session.above, List.mem_filter, decide_eq_true_eq]

theorem follows_start (present : String → Bool) : Follows ty (start present) where
  bound _ hr := absurd hr List.not_mem_nil
  sorted := List.Pairwise.nil
  since_le := le_rfl
  possible := trivial
  replay := rfl
  touched _ hid := absurd hid List.not_mem_nil
  settled _ := rfl
  page _ hpage := absurd hpage (Option.not_mem_none _)

/-- What is recorded keeps the rows above a state below the counter. -/
theorem above_counter (h : Follows ty s) : s.above ty (s.log.jmapStateGet ty) = [] := by
  rw [List.eq_nil_iff_forall_not_mem]
  intro r hr
  obtain ⟨hrec, htype, hlt⟩ := mem_above.1 hr
  exact absurd (h.bound r hrec htype) (not_le.2 hlt)

/-- Steps of other types leave the client where it is. -/
theorem Follows.frame (h : Follows ty s) (habove : ∀ since, t.above ty since = s.above ty since)
    (hcounter : s.log.jmapStateGet ty ≤ t.log.jmapStateGet ty)
    (hsorted : t.recorded.Pairwise fun q r => q.type = ty → r.type = ty → q.state ≤ r.state)
    (hclient : (t.present, t.held, t.since, t.pending, t.overtaken, t.touched, t.reported,
      t.settled) = (s.present, s.held, s.since, s.pending, s.overtaken, s.touched, s.reported,
      s.settled)) : Follows ty t := by
  simp only [Prod.mk.injEq] at hclient
  obtain ⟨hpresent, hheld, hsince, hpending, hovertaken, htouched, hreported, hsettled⟩ := hclient
  refine ⟨?_, hsorted, ?_, ?_, ?_, ?_, ?_, ?_⟩
  · intro r hr htype
    by_contra hlt
    have hmem : r ∈ t.above ty (s.log.jmapStateGet ty) :=
      mem_above.2 ⟨hr, htype, hcounter.trans_lt (not_le.1 hlt)⟩
    rw [habove, above_counter h] at hmem
    exact absurd hmem List.not_mem_nil
  · exact hsince ▸ h.since_le.trans hcounter
  · rw [habove, hsince, hheld]
    exact h.possible
  · rw [habove, hsince, hheld, hpresent]
    exact h.replay
  · rw [habove, hsince, htouched, hreported]
    exact h.touched
  · rw [habove, hsince, hsettled]
    exact h.settled
  · intro page hpage hold
    rw [hpending] at hpage
    obtain ⟨read, later, hc⟩ := h.page page hpage hold
    refine ⟨read, later, ?_, hc.entries, hc.notRecreated, ?_, ?_⟩
    · rw [habove, hsince]
      exact hc.above
    · intro hmore
      rw [habove]
      exact ⟨(hc.more hmore).1.trans hcounter, (hc.more hmore).2⟩
    · rw [hovertaken]
      exact hc.last

/-- A batch adds its rows to what is recorded. -/
theorem recorded_record (ty : String) (s : Session) (op : ChangeOp) (ty' : String)
    (ids : List String) :
    (s.record ty op ty' ids).recorded = s.recorded ++ batchRows s.log op ty' ids ∧
      (s.record ty op ty' ids).log = s.log.jmapRecordBatch ty' ids op := by
  have hlog : (s.record ty op ty' ids).log = s.log.jmapRecordBatch ty' ids op := by
    unfold Session.record
    split <;> rfl
  have hremoved : (s.record ty op ty' ids).removed = s.removed ++
      (trim (fun _ => true) (s.log.rows ++ batchRows s.log op ty' ids)).1 := by
    unfold Session.record
    split <;> rfl
  have hrows : (s.log.jmapRecordBatch ty' ids op).rows =
      (trim (fun _ => true) (s.log.rows ++ batchRows s.log op ty' ids)).2 := by
    rw [jmapRecordBatch, batchRows, jmapStateGet_jmapStateBump, if_pos rfl]
  refine ⟨?_, hlog⟩
  rw [Session.recorded, hlog, hremoved, hrows, List.append_assoc, trim_all_append,
    ← List.append_assoc]
  rfl

/-- New rows come after the rows of their type. -/
theorem sorted_batch (h : Follows ty s) (op : ChangeOp) (ty' : String) (ids : List String) :
    (s.recorded ++ batchRows s.log op ty' ids).Pairwise
      fun q r => q.type = ty → r.type = ty → q.state ≤ r.state := by
  have hnew : ∀ r ∈ batchRows s.log op ty' ids,
      r.type = ty' ∧ r.state = s.log.jmapStateGet ty' + 1 := by
    intro r hr
    obtain ⟨id, -, rfl⟩ := List.mem_map.1 hr
    exact ⟨rfl, rfl⟩
  rw [List.pairwise_append]
  refine ⟨h.sorted, ?_, ?_⟩
  · apply List.pairwise_of_forall_mem_list
    intro q hq r hr _ _
    exact ((hnew q hq).2.trans (hnew r hr).2.symm).le
  · intro q hq r hr hqty hrty
    obtain ⟨htype, hstate⟩ := hnew r hr
    have hbound := h.bound q hq hqty
    rw [hstate, ← htype, hrty]
    omega

/-- The rows of a batch above a state that its counter has passed. -/
theorem above_record {op : ChangeOp} {ty' : String} {ids : List String} {since : Int}
    (hsince : since ≤ s.log.jmapStateGet ty) :
    (s.record ty op ty' ids).above ty since =
      s.above ty since ++ if ty' = ty then batchRows s.log op ty' ids else [] := by
  rw [Session.above, (recorded_record ty s op ty' ids).1, List.filter_append]
  congr 1
  split
  · rename_i htype
    rw [List.filter_eq_self]
    intro r hr
    obtain ⟨id, -, rfl⟩ := List.mem_map.1 hr
    rw [decide_eq_true_eq]
    refine ⟨htype, ?_⟩
    rw [htype]
    exact hsince.trans_lt (lt_add_one _)
  · rename_i htype
    rw [List.filter_eq_nil_iff]
    intro r hr
    obtain ⟨id, -, rfl⟩ := List.mem_map.1 hr
    simp [htype]

theorem entriesOf_append (rows rows' : List ChangeRow) :
    entriesOf (rows ++ rows') = entriesOf rows ++ entriesOf rows' := List.map_append

theorem entriesOf_batchRows (log : ChangeLog) (op : ChangeOp) (ty : String) (ids : List String) :
    entriesOf (batchRows log op ty ids) = ids.map (·, op) := by
  rw [entriesOf, batchRows, List.map_map]
  rfl

/-- A batch of the client's type is still to be reported. -/
theorem follows_record (h : Follows ty s) (op : ChangeOp) (ty' : String) (ids : List String)
    (hok : Consistent ty s (.record op ty' ids)) : Follows ty (s.record ty op ty' ids) := by
  obtain ⟨hrecorded, hlog⟩ := recorded_record ty s op ty' ids
  have hcounter : s.log.jmapStateGet ty ≤ (s.record ty op ty' ids).log.jmapStateGet ty := by
    rw [hlog, jmapStateGet_jmapRecordBatch]
    split
    · rename_i htype
      rw [htype]
      exact (lt_add_one _).le
    · exact le_rfl
  have hsorted := hrecorded ▸ sorted_batch h op ty' ids
  by_cases hown : ty' = ty ∧ ids ≠ []
  · have hrecord : s.record ty op ty' ids =
        { s with
          log := (s.record ty op ty' ids).log
          removed := (s.record ty op ty' ids).removed
          present := replay s.present (ids.map (·, op))
          overtaken := true
          touched := s.touched ++ ids
          settled := false } := by
      rw [Session.record, if_pos hown]
    have hafter : ∀ since, since ≤ s.log.jmapStateGet ty → (s.record ty op ty' ids).above ty since =
        s.above ty since ++ batchRows s.log op ty' ids := by
      intro since hsince
      rw [above_record hsince, if_pos hown.1]
    generalize hs : s.record ty op ty' ids = s' at hrecord hafter hcounter hsorted
    have habove : s'.above ty s'.since = s.above ty s.since ++ batchRows s.log op ty' ids := by
      rw [← hafter s.since h.since_le]
      rw [hrecord]
    have hentries : entriesOf (s'.above ty s'.since) =
        entriesOf (s.above ty s.since) ++ ids.map (·, op) := by
      rw [habove, entriesOf_append, entriesOf_batchRows]
    have hheld : s'.held = s.held := by rw [hrecord]
    refine ⟨?_, hsorted, ?_, ?_, ?_, ?_, ?_, ?_⟩
    · intro r hr htype
      rw [← hs] at hr ⊢
      rw [hrecorded, List.mem_append] at hr
      rw [hlog, jmapStateGet_jmapRecordBatch, if_pos hown.1.symm, hown.1]
      rcases hr with hr | hr
      · exact (h.bound r hr htype).trans (lt_add_one _).le
      · obtain ⟨id, -, rfl⟩ := List.mem_map.1 hr
        rw [hown.1]
    · have hsince : s'.since = s.since := by rw [hrecord]
      exact hsince ▸ h.since_le.trans hcounter
    · rw [hentries, hheld, possible_append, h.replay]
      exact ⟨h.possible, hok hown.1⟩
    · rw [hentries, hheld, replay_append, h.replay]
      rw [hrecord]
    · have htouched : s'.touched = s.touched ++ ids := by rw [hrecord]
      have hreported : s'.reported = s.reported := by rw [hrecord]
      intro id hid
      rw [habove, hreported, List.map_append, List.mem_append]
      rw [htouched, List.mem_append] at hid
      rcases hid with hid | hid
      · exact (h.touched id hid).imp_right Or.inl
      · refine Or.inr (Or.inr (List.mem_map.2 ⟨_, List.mem_map.2 ⟨id, hid, rfl⟩, rfl⟩))
    · intro hsettled
      rw [hrecord] at hsettled
      exact absurd hsettled (by simp)
    · intro page hpage hold
      have hpending : s'.pending = s.pending := by rw [hrecord]
      have hovertaken : s'.overtaken = true := by rw [hrecord]
      obtain ⟨read, later, hc⟩ := h.page page (hpending ▸ hpage) hold
      refine ⟨read, later ++ batchRows s.log op ty' ids, ?_, hc.entries, hc.notRecreated, ?_, ?_⟩
      · rw [habove, hc.above, List.append_assoc]
      · intro hmore
        obtain ⟨hle, hlater⟩ := hc.more hmore
        rw [hafter _ hle, hlater]
        exact ⟨hle.trans hcounter, rfl⟩
      · intro _ hnot
        rw [hovertaken] at hnot
        exact absurd hnot (by simp)
  · have hrecord : s.record ty op ty' ids =
        { s with
          log := (s.record ty op ty' ids).log
          removed := (s.record ty op ty' ids).removed } := by
      rw [Session.record, if_neg hown]
    have hbatch : ∀ since, (s.record ty op ty' ids).above ty since = s.above ty since := by
      intro since
      rw [Session.above, hrecorded, List.filter_append, Session.above]
      have hnone : (batchRows s.log op ty' ids).filter
          (fun r => decide (r.type = ty ∧ since < r.state)) = [] := by
        rw [List.filter_eq_nil_iff]
        intro r hr
        obtain ⟨id, hid, rfl⟩ := List.mem_map.1 hr
        have htype : ty' ≠ ty := fun htype => hown ⟨htype, List.ne_nil_of_mem hid⟩
        simp [htype]
      rw [hnone, List.append_nil]
    refine h.frame hbatch hcounter hsorted ?_
    rw [hrecord]

/-- A request that finds every row above its state reads a part of them. -/
theorem covers_readRows (h : Follows ty s) (hold : s.log.tooOld ty s.since = false)
    (hkept : ∀ d ∈ s.removed, d.type = ty → d.state ≤ s.since)
    (huncut : ∀ q ∈ pageRows ty s, ∀ r ∈ (s.log.rowsAfter ty s.since).drop changesPageRows,
      q.state < r.state)
    (hnot : NotRecreated (entriesOf (pageRows ty s))) :
    Covers ty (step ty s .readRows) (s.log.jmapChangesSince ty s.since) (pageRows ty s)
      ((s.log.rowsAfter ty s.since).drop changesPageRows) := by
  have habove : s.above ty s.since = s.log.rowsAfter ty s.since := by
    have hnone : s.removed.filter (fun r => decide (r.type = ty ∧ s.since < r.state)) = [] := by
      rw [List.filter_eq_nil_iff]
      intro d hd
      rw [decide_eq_true_eq]
      rintro ⟨htype, hlt⟩
      exact absurd (hkept d hd htype) (not_le.2 hlt)
    rw [Session.above, Session.recorded, List.filter_append, hnone, List.nil_append, rowsAfter]
  have hsplit : s.above ty s.since =
      pageRows ty s ++ (s.log.rowsAfter ty s.since).drop changesPageRows := by
    rw [habove, pageRows, List.take_append_drop]
  have hpage := jmapChangesSince_of_current hold
  refine ⟨hsplit, ?_, ?_, ?_, ?_⟩
  · rw [hpage]
    rfl
  · rw [hpage]
    exact hnot
  · -- the rows up to the last one of the page are not above its state, the others are
    intro hmore
    rw [hpage] at hmore
    have hmore : changesPageRows < (s.log.rowsAfter ty s.since).length := of_decide_eq_true hmore
    obtain ⟨q, hq⟩ : ∃ q, (pageRows ty s).getLast? = some q := by
      rw [← Option.isSome_iff_exists, List.getLast?_isSome, pageRows, ne_eq, List.take_eq_nil_iff]
      rintro (hzero | hnil)
      · exact absurd hzero (by decide)
      · rw [hnil] at hmore
        exact absurd hmore (by decide)
    have hnew : (s.log.jmapChangesSince ty s.since).newState = q.state := by
      rw [hpage]
      show (((pageRows ty s).getLast?).map (·.state)).getD s.since = q.state
      rw [hq]
      rfl
    have hqmem := List.mem_of_getLast? hq
    have hqabove : q ∈ s.above ty s.since := hsplit ▸ List.mem_append_left _ hqmem
    obtain ⟨hqrec, hqtype, hqlt⟩ := mem_above.1 hqabove
    rw [hnew]
    refine ⟨h.bound q hqrec hqtype, ?_⟩
    have hlater : s.above ty q.state = (s.above ty s.since).filter (q.state < ·.state) := by
      rw [Session.above, Session.above, List.filter_filter]
      apply List.filter_congr
      intro r _
      rw [← Bool.decide_and, decide_eq_decide]
      constructor
      · exact fun hr => ⟨hr.2, hr.1, hqlt.trans hr.2⟩
      · exact fun hr => ⟨hr.2.1, hr.1⟩
    have hread : (pageRows ty s).filter (q.state < ·.state) = [] := by
      rw [List.filter_eq_nil_iff]
      intro r hr
      have hsorted : (pageRows ty s).Pairwise fun q r => q.type = ty → r.type = ty →
          q.state ≤ r.state := by
        have hfilter := h.sorted.filter fun r => decide (r.type = ty ∧ s.since < r.state)
        rw [← Session.above, hsplit] at hfilter
        exact (List.pairwise_append.1 hfilter).1
      have hle : r.state ≤ q.state := by
        obtain ⟨before, hbefore⟩ := List.getLast?_eq_some_iff.1 hq
        rw [hbefore, List.pairwise_append] at hsorted
        rw [hbefore, List.mem_append, List.mem_singleton] at hr
        rcases hr with hr | rfl
        · have hrmem : r ∈ s.above ty s.since := by
            rw [hsplit, hbefore]
            exact List.mem_append_left _ (List.mem_append_left _ hr)
          exact hsorted.2.2 r hr q (List.mem_singleton_self q) (mem_above.1 hrmem).2.1 hqtype
        · exact le_rfl
      simpa using hle
    show s.above ty q.state = _
    rw [hlater, hsplit, List.filter_append, hread, List.nil_append, List.filter_eq_self]
    intro r hr
    exact decide_eq_true (huncut q hqmem r hr)
  · intro hmore _
    rw [hpage] at hmore
    have hmore : ¬changesPageRows < (s.log.rowsAfter ty s.since).length :=
      of_decide_eq_false hmore
    rw [List.drop_eq_nil_iff]
    exact not_lt.1 hmore

/-- A response moves the rows of its page from the log to the client. -/
theorem follows_answer (h : Follows ty s) {page : Changes} (hpending : s.pending = some page)
    (hok : page.tooOld = false → page.hasMore = false → s.overtaken = false) :
    Follows ty (s.answer ty page) := by
  cases hold : page.tooOld with
  | true =>
      have hanswer : s.answer ty page = { s with pending := none } := by
        rw [Session.answer, if_pos hold]
      rw [hanswer]
      exact ⟨h.bound, h.sorted, h.since_le, h.possible, h.replay, h.touched, h.settled,
        fun _ hpage => absurd hpage (Option.not_mem_none _)⟩
  | false =>
      obtain ⟨read, later, hc⟩ := h.page page hpending hold
      have hanswer : s.answer ty page =
          { s with
            held := (partitionOps page.entries).apply s.held
            since := if page.hasMore then page.newState else s.log.jmapStateGet ty
            pending := none
            reported := s.reported ++ (partitionOps page.entries).ids
            settled := !page.hasMore && !s.overtaken } := by
        rw [Session.answer, if_neg (by simp [hold])]
      have hpossible := h.possible
      have hreplay := h.replay
      rw [hc.above, entriesOf_append, ← hc.entries] at hpossible hreplay
      rw [possible_append] at hpossible
      rw [replay_append] at hreplay
      -- the rest of the rows are those above the new state
      obtain ⟨hle, hlater⟩ : (if page.hasMore then page.newState else s.log.jmapStateGet ty) ≤
          s.log.jmapStateGet ty ∧
          s.above ty (if page.hasMore then page.newState else s.log.jmapStateGet ty) = later := by
        cases hmore : page.hasMore with
        | true => exact hc.more hmore
        | false =>
            rw [if_neg (by simp), above_counter h, hc.last hmore (hok hold hmore)]
            exact ⟨le_rfl, rfl⟩
      rw [hanswer]
      refine ⟨h.bound, h.sorted, hle, ?_, ?_, ?_, ?_, ?_⟩
      · show Possible _ (entriesOf (s.above ty _))
        rw [hlater, apply_partitionOps hpossible.1 hc.notRecreated]
        exact hpossible.2
      · show replay _ (entriesOf (s.above ty _)) = s.present
        rw [hlater, apply_partitionOps hpossible.1 hc.notRecreated]
        exact hreplay
      · intro id hid
        show id ∈ s.reported ++ _ ∨ id ∈ (s.above ty _).map (·.objectId)
        rw [hlater, List.mem_append]
        have hid := h.touched id hid
        rw [hc.above, List.map_append, List.mem_append] at hid
        rcases hid with hid | hid | hid
        · exact Or.inl (Or.inl hid)
        · refine Or.inl (Or.inr (mem_ids_partitionOps ?_))
          rw [hc.entries, entriesOf, List.map_map]
          exact hid
        · exact Or.inr hid
      · intro hsettled
        show s.above ty _ = []
        rw [hlater]
        rw [Bool.and_eq_true, Bool.not_eq_true', Bool.not_eq_true'] at hsettled
        exact hc.last hsettled.1 hsettled.2
      · exact fun _ hpage => absurd hpage (Option.not_mem_none _)

/-- **Step lemma.** A consistent and steady step leaves the client with exactly the rows above
its state to read. -/
theorem follows_step (s : Session) (e : Event) (h : Follows ty s)
    (hok : Consistent ty s e ∧ Steady ty s e) : Follows ty (step ty s e) := by
  cases e with
  | record op ty' ids => exact follows_record h op ty' ids hok.1
  | bump ty' =>
      refine h.frame (fun _ => rfl) ?_ h.sorted rfl
      show s.log.jmapStateGet ty ≤ (s.log.jmapStateBump ty').jmapStateGet ty
      rw [jmapStateGet_jmapStateBump]
      split
      · rename_i htype
        rw [htype]
        exact (lt_add_one _).le
      · exact le_rfl
  | begin =>
      have habove : s.above ty (s.log.jmapStateGet ty) = [] := above_counter h
      refine ⟨h.bound, h.sorted, le_rfl, ?_, ?_, ?_, ?_, ?_⟩
      · show Possible s.present (entriesOf (s.above ty (s.log.jmapStateGet ty)))
        rw [habove]
        trivial
      · show replay s.present (entriesOf (s.above ty (s.log.jmapStateGet ty))) = s.present
        rw [habove]
        rfl
      · exact fun _ hid => absurd hid List.not_mem_nil
      · exact fun _ => habove
      · exact fun _ hpage => absurd hpage (Option.not_mem_none _)
  | readRows =>
      refine ⟨h.bound, h.sorted, h.since_le, h.possible, h.replay, h.touched, h.settled, ?_⟩
      intro page hpage hold
      obtain rfl := Option.mem_some_iff.1 hpage
      rw [tooOld_jmapChangesSince] at hold
      rcases hok.2 with hrefused | ⟨hkept, huncut, hnot⟩
      · rw [hold] at hrefused
        exact absurd hrefused (by simp)
      · exact ⟨_, _, covers_readRows h hold hkept huncut hnot⟩
  | answer =>
      rw [step]
      cases hpending : s.pending with
      | none => exact h
      | some page => exact follows_answer h hpending (hok.2 page hpending)

end Steps

/-- **The client ends up with what exists**, and has heard of every id with a change, after
every run of consistent changes in which the two reads of each request agree. -/
theorem settled_holds (ty : String) (present : String → Bool) (events : List Event)
    (hhistory : Guarded (step ty) (Consistent ty) (start present) events)
    (hsteady : Guarded (step ty) (Steady ty) (start present) events)
    (hsettled : (exec (step ty) (start present) events).settled = true) :
    (exec (step ty) (start present) events).held =
        (exec (step ty) (start present) events).present ∧
      ∀ id ∈ (exec (step ty) (start present) events).touched,
        id ∈ (exec (step ty) (start present) events).reported := by
  have h : Follows ty (exec (step ty) (start present) events) :=
    exec_invariant follows_step (follows_start present) (hhistory.and hsteady)
  generalize exec (step ty) (start present) events = s at h hsettled ⊢
  have habove := h.settled hsettled
  constructor
  · rw [← h.replay, habove]
    rfl
  · intro id hid
    rcases h.touched id hid with hreported | hrow
    · exact hreported
    · rw [habove] at hrow
      exact absurd hrow List.not_mem_nil

/-- Two messages arrive, a client begins, and one of them is read and the other one deleted. -/
def followed : List Event :=
  [.record .created "Email" ["a", "b"], .begin, .record .destroyed "Email" ["a"],
    .record .updated "Email" ["b"], .readRows, .answer]

theorem settled_holds_followed :
    (exec (step "Email") (start fun _ => false) followed).held =
        (exec (step "Email") (start fun _ => false) followed).present ∧
      ∀ id ∈ (exec (step "Email") (start fun _ => false) followed).touched,
        id ∈ (exec (step "Email") (start fun _ => false) followed).reported :=
  settled_holds "Email" (fun _ => false) followed (by decide +kernel) (by decide +kernel)
    (by decide +kernel)

/-- A message arrives between the two reads of a request, which is then repeated. -/
def overtakenRead : List Event :=
  [.readRows, .record .created "Email" ["a"], .answer, .readRows, .answer]

/-- A message is deleted and stored again before the client asks. -/
def recreatedMessage : List Event :=
  [.record .created "Email" ["a"], .begin, .record .destroyed "Email" ["a"],
    .record .created "Email" ["a"], .readRows, .answer]

/-- In both runs the client is told that it is up to date, and lacks the message. -/
theorem reads_miss_records :
    [overtakenRead, recreatedMessage].all (fun events =>
      decide (Guarded (step "Email") (Consistent "Email") (start fun _ => false) events) &&
        (exec (step "Email") (start fun _ => false) events).settled &&
        (exec (step "Email") (start fun _ => false) events).present "a" &&
        !(exec (step "Email") (start fun _ => false) events).held "a") = true := by
  decide +kernel

end AsterBridge.Jmap.ChangesClient
