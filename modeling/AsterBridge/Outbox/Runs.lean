import AsterBridge.Lib.Runs
import AsterBridge.Outbox.Process

/-!
# Runs of the outbox

Over any run, with any results of the sends and any crashes, a row keeps its mail, it is
claimed by at most one `process_one` at a time, and it becomes `sent` only after the server
has carried out a send of it or `process_one` has found a copy in the Sent folder. `Good`
is the invariant; `Rewrites` is what the statements other than `outbox_mark_sent` do to the
table.
-/

set_option autoImplicit false

namespace AsterBridge.Outbox

open AsterBridge.Lib AsterBridge.Lib.Runs AsterBridge.Lib.Unicode AsterBridge.Db

/-! ## What a row keeps -/

/-- Two states of a row with the same message, addresses and time of queueing. -/
def SameMail (a b : OutboxRow) : Prop :=
  a.rawMime = b.rawMime ∧ a.envelopeFrom = b.envelopeFrom ∧ a.envelopeTo = b.envelopeTo ∧
    a.queuedAt = b.queuedAt

theorem SameMail.refl (a : OutboxRow) : SameMail a a := ⟨rfl, rfl, rfl, rfl⟩

theorem SameMail.trans {a b c : OutboxRow} (h : SameMail a b) (h' : SameMail b c) :
    SameMail a c :=
  ⟨h.1.trans h'.1, h.2.1.trans h'.2.1, h.2.2.1.trans h'.2.2.1, h.2.2.2.trans h'.2.2.2⟩

theorem submissionOf_eq {a b : OutboxRow} (h : SameMail a b) :
    submissionOf a = submissionOf b := by
  obtain ⟨hraw, hfrom, hto, -⟩ := h
  rw [submissionOf, submissionOf, hraw, hfrom, hto]

/-- Every row of `o` is still in `o'`, with its mail. -/
def Keeps (o o' : Db.Outbox) : Prop :=
  ∀ id r, o.get id = some r → ∃ r', o'.get id = some r' ∧ SameMail r r'

theorem Keeps.refl (o : Db.Outbox) : Keeps o o := fun _ r h => ⟨r, h, .refl r⟩

theorem Keeps.trans {o o' o'' : Db.Outbox} (h : Keeps o o') (h' : Keeps o' o'') :
    Keeps o o'' := by
  intro id r hr
  obtain ⟨r', hr', hmail⟩ := h id r hr
  obtain ⟨r'', hr'', hmail'⟩ := h' id r' hr'
  exact ⟨r'', hr'', hmail.trans hmail'⟩

/-- The table keeps its rows, and a row that is `sent` was so before. -/
structure Rewrites (o o' : Db.Outbox) : Prop where
  keeps : Keeps o o'
  sent : ∀ id r', o'.get id = some r' → r'.status = .sent →
    ∃ r, o.get id = some r ∧ r.status = .sent ∧ SameMail r r'

theorem Rewrites.refl (o : Db.Outbox) : Rewrites o o :=
  ⟨.refl o, fun _ r h hs => ⟨r, h, hs, .refl r⟩⟩

theorem Keeps.updateRow (o : Db.Outbox) (id : Int) {f : OutboxRow → OutboxRow}
    (hf : ∀ r, SameMail r (f r)) : Keeps o (o.updateRow id f) := by
  intro k r hr
  rw [o.get_updateRow, hr]
  refine ⟨_, rfl, ?_⟩
  split
  · exact hf r
  · exact .refl r

/-- An update of a row that does not set `sent`. -/
theorem Rewrites.updateRow (o : Db.Outbox) (id : Int) {f : OutboxRow → OutboxRow}
    (hf : ∀ r, SameMail r (f r)) (hstatus : ∀ r, (f r).status ≠ .sent) :
    Rewrites o (o.updateRow id f) where
  keeps := Keeps.updateRow o id hf
  sent := by
    intro k r' hr' hs
    rw [o.get_updateRow] at hr'
    obtain ⟨r, hr, rfl⟩ := Option.map_eq_some_iff.1 hr'
    split at hs
    · exact absurd hs (hstatus r)
    · rename_i hk
      exact ⟨r, hr, hs, by rw [if_neg hk]; exact .refl r⟩

theorem Rewrites.resetStaleSending (o : Db.Outbox) (olderThanSecs now : Int) :
    Rewrites o (o.resetStaleSending olderThanSecs now) where
  keeps := by
    intro k r hr
    rw [o.get_resetStaleSending, hr]
    refine ⟨_, rfl, ?_⟩
    dsimp only
    split
    · exact ⟨rfl, rfl, rfl, rfl⟩
    · exact .refl r
  sent := by
    intro k r' hr' hs
    rw [o.get_resetStaleSending] at hr'
    obtain ⟨r, hr, rfl⟩ := Option.map_eq_some_iff.1 hr'
    split at hs
    · exact absurd hs (by simp)
    · rename_i hstale
      exact ⟨r, hr, hs, by rw [if_neg hstale]; exact .refl r⟩

/-- A new row has a new id. -/
theorem Rewrites.insert (o : Db.Outbox) {row : OutboxRow} (hrow : row.status ≠ .sent) :
    Rewrites o (o.insert row).1 where
  keeps := by
    intro k r hr
    have hk : k ≠ o.nextId := by
      rintro rfl
      rw [o.get_nextId] at hr
      exact absurd hr (by simp)
    exact ⟨r, by rw [o.get_insert, if_neg hk, hr], .refl r⟩
  sent := by
    intro k r' hr' hs
    rw [o.get_insert] at hr'
    split at hr'
    · obtain rfl := Option.some.inj hr'
      exact absurd hs hrow
    · exact ⟨r', hr', hs, .refl r'⟩

theorem Rewrites.afterError (o : Db.Outbox) (id : Int) (row : OutboxRow) (e : BridgeError)
    (now : Int) : Rewrites o (System.afterError id row e now o) := by
  unfold System.afterError
  split_ifs
  · exact .updateRow o id (fun r => ⟨rfl, rfl, rfl, rfl⟩) (by simp)
  · exact .updateRow o id (fun r => ⟨rfl, rfl, rfl, rfl⟩) (by simp)
  · exact .updateRow o id (fun r => ⟨rfl, rfl, rfl, rfl⟩) (by simp)

/-- A claim updates one row, that was pending or failed, to `sending`. -/
theorem markSending_pos {o : Db.Outbox} {id now : Int} (h : 0 < (o.markSending id now).2) :
    Rewrites o (o.markSending id now).1 ∧
      ∃ r, (o.markSending id now).1.get id = some r ∧ r.status = .sending := by
  cases hget : (o.get id).filter Outbox.OutboxRow.claimable with
  | none =>
      rw [Outbox.markSending, hget] at h
      exact absurd h (lt_irrefl 0)
  | some r =>
      obtain ⟨hr, -⟩ := Option.filter_eq_some_iff.1 hget
      simp only [Outbox.markSending, hget]
      refine ⟨.updateRow o id (fun r => ⟨rfl, rfl, rfl, rfl⟩) (by simp), ?_⟩
      rw [o.get_updateRow, hr]
      exact ⟨_, rfl, by simp⟩

theorem sentCopyExists_none (T : CaseTables) (x : Readers) (row : OutboxRow) :
    sentCopyExists T x none row = false := by
  unfold sentCopyExists
  cases x.parse row.rawMime with
  | none => rfl
  | some parsed =>
      dsimp only
      split <;> rfl

/-! ## Claims -/

/-- The rows that a `process_one` has claimed and not yet released, latest first. -/
def openClaims (t : List Event) : List Int :=
  t.foldl (fun ids e => match e with
    | .claimed id => id :: ids
    | .released id => ids.erase id
    | _ => ids) []

@[simp] theorem openClaims_append (t : List Event) (e : Event) :
    openClaims (t ++ [e]) = match e with
      | .claimed id => id :: openClaims t
      | .released id => (openClaims t).erase id
      | _ => openClaims t := by
  rw [openClaims, List.foldl_append]
  cases e <;> rfl

/-- The row that the loop has claimed. -/
def Worker.claims : Worker → List Int
  | .claimed id _ _ => [id]
  | .sending id _ _ => [id]
  | _ => []

@[simp] theorem claims_down : Worker.down.claims = [] := rfl

@[simp] theorem claims_running (rest : List (Int × OutboxRow)) :
    (Worker.running rest).claims = [] := rfl

@[simp] theorem claims_claimed (id : Int) (row : OutboxRow) (rest : List (Int × OutboxRow)) :
    (Worker.claimed id row rest).claims = [id] := rfl

/-- The rows that the loop has read. -/
def Worker.snapshots : Worker → List (Int × OutboxRow)
  | .down => []
  | .running rest => rest
  | .claimed id row rest => (id, row) :: rest
  | .sending id row rest => (id, row) :: rest

/-! ## The invariant -/

/-- Why a row may be `sent`: it was so at the start, the server has carried out a send of
it, or a copy of it was found in the Sent folder. -/
def Explained (T : CaseTables) (x : Readers) (o : Db.Outbox) (t : List Event) (id : Int)
    (r : OutboxRow) : Prop :=
  (∃ r₀, o.get id = some r₀ ∧ r₀.status = .sent) ∨
    .carriedOut id (submissionOf r) ∈ t ∨
      ∃ row sent, .copyFound id row sent ∈ t ∧ SameMail row r ∧
        sentCopyExists T x (some sent) row = true

/-- Rows are kept, claims are the loop's, and every `sent` is explained. -/
structure Good (T : CaseTables) (x : Readers) (o : Db.Outbox) (s : System) : Prop where
  initial : Keeps o s.outbox
  inserted : ∀ id r, .inserted id r ∈ s.transcript →
    ∃ r', s.outbox.get id = some r' ∧ SameMail r r'
  snapshots : ∀ e ∈ s.worker.snapshots, ∃ r, s.outbox.get e.1 = some r ∧ SameMail e.2 r
  claims : openClaims s.transcript = s.worker.claims
  claimed : ∀ id ∈ s.worker.claims, ∃ r, s.outbox.get id = some r ∧ r.status = .sending
  sent : ∀ id r, s.outbox.get id = some r → r.status = .sent → Explained T x o s.transcript id r

theorem good_start (T : CaseTables) (x : Readers) (o : Db.Outbox) : Good T x o (.start o) where
  initial := .refl o
  inserted _ _ h := absurd h List.not_mem_nil
  snapshots _ h := absurd h List.not_mem_nil
  claims := rfl
  claimed _ h := absurd h List.not_mem_nil
  sent _ r hr hs := Or.inl ⟨r, hr, hs⟩

variable {T : CaseTables} {x : Readers} {o : Db.Outbox} {s : System}

theorem Explained.mono {t t' : List Event} {id : Int} {r r' : OutboxRow}
    (h : Explained T x o t id r) (ht : t ⊆ t') (hmail : SameMail r r') :
    Explained T x o t' id r' := by
  rcases h with hstart | hcarried | ⟨row, sent, hfound, hrow, hcopy⟩
  · exact Or.inl hstart
  · exact Or.inr (Or.inl (submissionOf_eq hmail ▸ ht hcarried))
  · exact Or.inr (Or.inr ⟨row, sent, ht hfound, hrow.trans hmail, hcopy⟩)

theorem Good.snapshot_of_get {e : Int × OutboxRow} {o' : Db.Outbox} (h : o'.get e.1 = some e.2) :
    ∃ r, o'.get e.1 = some r ∧ SameMail e.2 r :=
  ⟨e.2, h, .refl e.2⟩

/-- A step that rewrites the table, reads no new row other than from it, and adds one event
that is not an insertion. -/
theorem Good.rewrite (h : Good T x o s) {s' : System} (hrewrite : Rewrites s.outbox s'.outbox)
    (hevents : ∀ e ∈ s'.transcript, e ∈ s.transcript ∨ ∀ id r, e ≠ .inserted id r)
    (hmore : s.transcript ⊆ s'.transcript)
    (hsnapshots : ∀ e ∈ s'.worker.snapshots,
      e ∈ s.worker.snapshots ∨ s'.outbox.get e.1 = some e.2)
    (hclaims : openClaims s'.transcript = s'.worker.claims)
    (hclaimed : ∀ id ∈ s'.worker.claims,
      ∃ r, s'.outbox.get id = some r ∧ r.status = .sending) : Good T x o s' where
  initial := h.initial.trans hrewrite.keeps
  inserted id r hr := by
    rcases hevents _ hr with hold | hnew
    · obtain ⟨r', hr', hmail⟩ := h.inserted id r hold
      obtain ⟨r'', hr'', hmail'⟩ := hrewrite.keeps id r' hr'
      exact ⟨r'', hr'', hmail.trans hmail'⟩
    · exact absurd rfl (hnew id r)
  snapshots e he := by
    rcases hsnapshots e he with hold | hnew
    · obtain ⟨r, hr, hmail⟩ := h.snapshots e hold
      obtain ⟨r', hr', hmail'⟩ := hrewrite.keeps e.1 r hr
      exact ⟨r', hr', hmail.trans hmail'⟩
    · exact Good.snapshot_of_get hnew
  claims := hclaims
  claimed := hclaimed
  sent id r' hr' hs := by
    obtain ⟨r, hr, hs, hmail⟩ := hrewrite.sent id r' hr' hs
    exact (h.sent id r hr hs).mono hmore hmail

/-- `outbox_mark_sent` is called with an explanation of the row. -/
theorem Good.markSent (h : Good T x o s) {id : Int} (row : OutboxRow)
    {rest : List (Int × OutboxRow)} (hsnap : ∀ e ∈ (id, row) :: rest, e ∈ s.worker.snapshots)
    (hclaims : s.worker.claims = [id]) (ok : Bool) (now : Int)
    (hwhy : ∀ r, SameMail row r → Explained T x o s.transcript id r) :
    Good T x o (s.release id rest ok fun o => o.markSent id now) := by
  have hkeeps : Keeps s.outbox (if ok then s.outbox.markSent id now else s.outbox) := by
    split
    · exact Keeps.updateRow _ id fun r => ⟨rfl, rfl, rfl, rfl⟩
    · exact .refl _
  refine ⟨h.initial.trans hkeeps, ?_, ?_, ?_, fun _ hid => absurd hid List.not_mem_nil, ?_⟩
  · intro k r hr
    simp only [System.release, List.mem_append, List.mem_singleton, reduceCtorEq, or_false] at hr
    obtain ⟨r', hr', hmail⟩ := h.inserted k r hr
    obtain ⟨r'', hr'', hmail'⟩ := hkeeps k r' hr'
    exact ⟨r'', hr'', hmail.trans hmail'⟩
  · intro e he
    obtain ⟨r, hr, hmail⟩ := h.snapshots e (hsnap e (List.mem_cons_of_mem _ he))
    obtain ⟨r', hr', hmail'⟩ := hkeeps e.1 r hr
    exact ⟨r', hr', hmail.trans hmail'⟩
  · simp [System.release, h.claims, hclaims]
  · intro k r' hr' hs
    have hmore : s.transcript ⊆ (s.release id rest ok fun o => o.markSent id now).transcript :=
      List.subset_append_left _ _
    simp only [System.release] at hr'
    split at hr'
    · rw [Outbox.markSent, s.outbox.get_updateRow] at hr'
      obtain ⟨r, hr, rfl⟩ := Option.map_eq_some_iff.1 hr'
      split at hs
      · rename_i hk
        subst hk
        -- the claimed row: its mail is that of the snapshot
        obtain ⟨r₁, hr₁, hmail⟩ := h.snapshots (k, row) (hsnap _ List.mem_cons_self)
        obtain rfl := Option.some.inj (hr.symm.trans hr₁)
        refine (hwhy r hmail).mono hmore ?_
        rw [if_pos rfl]
        exact ⟨rfl, rfl, rfl, rfl⟩
      · rename_i hk
        rw [if_neg hk]
        exact (h.sent k r hr hs).mono hmore (.refl r)
    · exact (h.sent k r' hr' hs).mono hmore (.refl r')

theorem Good.claim (h : Good T x o s) {id : Int} {row : OutboxRow}
    {rest : List (Int × OutboxRow)}
    (hsnap : ∀ e ∈ (id, row) :: rest, e ∈ s.worker.snapshots ∨ s.outbox.get e.1 = some e.2)
    (hclaims : s.worker.claims = []) (now : Int) (ok : Bool) :
    Good T x o (s.claim id row rest now ok) := by
  unfold System.claim
  split
  · rename_i hcount
    obtain ⟨hrewrite, hrow⟩ := markSending_pos hcount.2
    exact
      { initial := h.initial.trans hrewrite.keeps
        inserted := by
          intro k r hr
          simp only [List.mem_append, List.mem_singleton, reduceCtorEq, or_false] at hr
          obtain ⟨r', hr', hmail⟩ := h.inserted k r hr
          obtain ⟨r'', hr'', hmail'⟩ := hrewrite.keeps k r' hr'
          exact ⟨r'', hr'', hmail.trans hmail'⟩
        snapshots := by
          intro e he
          have hbefore : ∃ r, s.outbox.get e.1 = some r ∧ SameMail e.2 r := by
            rcases hsnap e he with hold | hnew
            · exact h.snapshots e hold
            · exact Good.snapshot_of_get hnew
          obtain ⟨r, hr, hmail⟩ := hbefore
          obtain ⟨r', hr', hmail'⟩ := hrewrite.keeps e.1 r hr
          exact ⟨r', hr', hmail.trans hmail'⟩
        claims := by simp [h.claims, hclaims]
        claimed := by
          intro k hk
          obtain rfl := List.mem_singleton.1 hk
          exact hrow
        sent := by
          intro k r' hr' hs
          obtain ⟨r, hr, hs, hmail⟩ := hrewrite.sent k r' hr' hs
          exact (h.sent k r hr hs).mono (List.subset_append_left _ _) hmail }
  · refine h.rewrite (.refl _) (fun e he => Or.inl he) (fun _ he => he) ?_ ?_ ?_
    · exact fun e he => hsnap e (List.mem_cons_of_mem _ he)
    · rw [h.claims, hclaims]
      rfl
    · exact fun _ hk => absurd hk List.not_mem_nil

/-- The server's part of a send only adds to the transcript. -/
theorem Good.carryOut (h : Good T x o s) (id : Int) (row : OutboxRow) (tookEffect : Bool) :
    Good T x o (s.carryOut id row tookEffect) := by
  unfold System.carryOut
  split
  · refine h.rewrite (.refl _) ?_ (List.subset_append_left _ _) (fun e he => Or.inl he) ?_ h.claimed
    · intro e he
      refine (List.mem_append.1 he).imp_right fun hnew => ?_
      obtain rfl := List.mem_singleton.1 hnew
      exact fun _ _ => by simp
    · simp [h.claims]
  · exact h

@[simp] theorem carryOut_worker (s : System) (id : Int) (row : OutboxRow) (tookEffect : Bool) :
    (s.carryOut id row tookEffect).worker = s.worker := by
  unfold System.carryOut
  split <;> rfl

@[simp] theorem carryOut_outbox (s : System) (id : Int) (row : OutboxRow) (tookEffect : Bool) :
    (s.carryOut id row tookEffect).outbox = s.outbox := by
  unfold System.carryOut
  split <;> rfl

/-- The loop ends in the middle of a `process_one`. -/
theorem Good.crash (h : Good T x o s) {id : Int} (hclaims : s.worker.claims = [id]) :
    Good T x o { s with worker := .down, transcript := s.transcript ++ [.released id] } := by
  refine h.rewrite (.refl _) ?_ (List.subset_append_left _ _)
    (fun e he => absurd he List.not_mem_nil) ?_ (fun _ hk => absurd hk List.not_mem_nil)
  · intro e he
    refine (List.mem_append.1 he).imp_right fun hnew => ?_
    obtain rfl := List.mem_singleton.1 hnew
    exact fun _ _ => by simp
  · simp [h.claims, hclaims]

/-- A send that failed releases the row as failed or pending. -/
theorem Good.releaseError (h : Good T x o s) {id : Int} {row : OutboxRow}
    {rest : List (Int × OutboxRow)} (hsnap : ∀ e ∈ rest, e ∈ s.worker.snapshots)
    (hclaims : s.worker.claims = [id]) (ok : Bool) (e : BridgeError) (now : Int) :
    Good T x o (s.release id rest ok (System.afterError id row e now)) := by
  refine h.rewrite ?_ ?_ (List.subset_append_left _ _) (fun e he => Or.inl (hsnap e he)) ?_
    (fun _ hk => absurd hk List.not_mem_nil)
  · simp only [System.release]
    split
    · exact .afterError _ id row e now
    · exact .refl _
  · intro e he
    refine (List.mem_append.1 he).imp_right fun hnew => ?_
    obtain rfl := List.mem_singleton.1 hnew
    exact fun _ _ => by simp
  · simp [System.release, h.claims, hclaims]

theorem Good.insert (h : Good T x o s) {row : OutboxRow} (hrow : row.status ≠ .sent) :
    Good T x o
      { s with
        outbox := (s.outbox.insert row).1
        transcript := s.transcript ++ [.inserted (s.outbox.insert row).2 row] } := by
  have hrewrite := Rewrites.insert s.outbox hrow
  refine ⟨h.initial.trans hrewrite.keeps, ?_, ?_, ?_, ?_, ?_⟩
  · intro id r hr
    rcases List.mem_append.1 hr with hold | hnew
    · obtain ⟨r', hr', hmail⟩ := h.inserted id r hold
      obtain ⟨r'', hr'', hmail'⟩ := hrewrite.keeps id r' hr'
      exact ⟨r'', hr'', hmail.trans hmail'⟩
    · simp only [List.mem_singleton, Event.inserted.injEq] at hnew
      obtain ⟨rfl, rfl⟩ := hnew
      exact ⟨r, by rw [s.outbox.get_insert]; exact if_pos rfl, .refl r⟩
  · intro e he
    obtain ⟨r, hr, hmail⟩ := h.snapshots e he
    obtain ⟨r', hr', hmail'⟩ := hrewrite.keeps e.1 r hr
    exact ⟨r', hr', hmail.trans hmail'⟩
  · simp [h.claims]
  · intro id hid
    obtain ⟨r, hr, hstatus⟩ := h.claimed id hid
    have hne : id ≠ s.outbox.nextId := by
      rintro rfl
      rw [s.outbox.get_nextId] at hr
      exact absurd hr (by simp)
    exact ⟨r, by rw [s.outbox.get_insert, if_neg hne, hr], hstatus⟩
  · intro id r' hr' hs
    obtain ⟨r, hr, hs, hmail⟩ := hrewrite.sent id r' hr' hs
    exact (h.sent id r hr hs).mono (List.subset_append_left _ _) hmail

/-- **Every step keeps the invariant.** -/
theorem Good.step (h : Good T x o s) (a : Action) : Good T x o (s.step T x a) := by
  -- a loop that is not inside `process_one` may reread the table
  have hreload : ∀ o' rest, Rewrites s.outbox o' → s.worker.claims = [] →
      (∀ e ∈ rest, o'.get e.1 = some e.2) → Good T x o ⟨o', .running rest, s.transcript⟩ := by
    intro o' rest hrewrite hclaims hrest
    refine h.rewrite hrewrite (fun e he => Or.inl he) (fun _ he => he)
      (fun e he => Or.inr (hrest e he)) ?_ (fun _ hk => absurd hk List.not_mem_nil)
    rw [h.claims, hclaims]
    rfl
  have hnone : ∀ o' : Db.Outbox, ∀ e ∈ ([] : List (Int × OutboxRow)), o'.get e.1 = some e.2 :=
    fun _ _ he => absurd he List.not_mem_nil
  cases a with
  | insert rawMime envelopeFrom envelopeTo now =>
      exact h.insert (by simp [Outbox.newRow])
  | run now resetOk =>
      simp only [System.step]
      split
      · rename_i hworker
        refine hreload _ [] ?_ (by rw [hworker]; rfl) (hnone _)
        split
        · exact .resetStaleSending _ _ _
        · exact .refl _
      · exact h
  | tick now resetOk listOk =>
      simp only [System.step]
      split
      · rename_i hworker
        refine hreload _ _ ?_ (by rw [hworker]; rfl) ?_
        · split
          · exact .resetStaleSending _ _ _
          · exact .refl _
        · intro e he
          split at he
          · exact Outbox.mem_listPending _ he
          · exact absurd he List.not_mem_nil
      · exact h
  | next now claimOk =>
      simp only [System.step]
      split
      · rename_i id row rest hworker
        have hclaims : s.worker.claims = [] := by rw [hworker]; rfl
        split
        · refine h.claim (fun e he => Or.inl ?_) hclaims now claimOk
          rwa [hworker]
        · refine h.rewrite (.refl _) (fun e he => Or.inl he) (fun _ he => he) ?_ ?_
            (fun _ hk => absurd hk List.not_mem_nil)
          · intro e he
            rw [hworker]
            exact Or.inl (List.mem_cons_of_mem _ he)
          · rw [h.claims, hclaims]
            rfl
      · exact h
  | trigger id getOk now claimOk =>
      simp only [System.step]
      split
      · rename_i hworker
        split
        · rename_i row hget
          split
          · exact h
          · refine h.claim (fun e he => Or.inr ?_) (by rw [hworker]; rfl) now claimOk
            obtain rfl := List.mem_singleton.1 he
            split at hget
            · exact hget
            · exact absurd hget (by simp)
        · exact h
      · exact h
  | check sent now markOk =>
      simp only [System.step]
      split
      · rename_i id row rest hworker
        have hclaims : s.worker.claims = [id] := by rw [hworker]; rfl
        split
        · rename_i hcopy
          have hfound : Good T x o
              { s with transcript := s.transcript ++ [.copyFound id row (sent.getD [])] } := by
            refine h.rewrite (.refl _) ?_ (List.subset_append_left _ _) (fun e he => Or.inl he)
              (by simp [h.claims]) h.claimed
            intro e he
            refine (List.mem_append.1 he).imp_right fun hnew => ?_
            obtain rfl := List.mem_singleton.1 hnew
            exact fun _ _ => by simp
          refine hfound.markSent row (fun e he => ?_) hclaims markOk now ?_
          · rwa [hworker]
          · intro r hmail
            refine Or.inr (Or.inr ⟨row, sent.getD [], by simp, hmail, ?_⟩)
            cases sent with
            | some sent => exact hcopy
            | none =>
                rw [sentCopyExists_none] at hcopy
                exact absurd hcopy Bool.false_ne_true
        · refine h.rewrite (.refl _) (fun e he => Or.inl he) (fun _ he => he) ?_ ?_ ?_
          · intro e he
            rw [hworker]
            exact Or.inl he
          · rw [h.claims, hclaims]
            rfl
          · intro k hk
            exact h.claimed k (by rw [hclaims]; exact hk)
      · exact h
  | sent result tookEffect now markOk =>
      simp only [System.step]
      split
      · rename_i id row rest hworker
        have hclaims : s.worker.claims = [id] := by rw [hworker]; rfl
        split
        · refine (h.carryOut id row true).markSent row (fun e he => ?_)
            (by rwa [carryOut_worker]) markOk now ?_
          · rw [carryOut_worker, hworker]
            exact he
          · intro r hmail
            refine Or.inr (Or.inl ?_)
            rw [← submissionOf_eq hmail]
            simp [System.carryOut]
        · refine (h.carryOut id row tookEffect).releaseError (fun e he => ?_)
            (by rwa [carryOut_worker]) markOk _ now
          rw [carryOut_worker, hworker]
          exact List.mem_cons_of_mem _ he
      · exact h
  | crash tookEffect =>
      simp only [System.step]
      split
      · rename_i id row rest hworker
        exact h.crash (by rw [hworker]; rfl)
      · rename_i id row rest hworker
        exact (h.carryOut id row tookEffect).crash (by rw [carryOut_worker, hworker]; rfl)
      · rename_i hclaimed hsending
        refine h.rewrite (.refl _) (fun e he => Or.inl he) (fun _ he => he)
          (fun e he => absurd he List.not_mem_nil) ?_ (fun _ hk => absurd hk List.not_mem_nil)
        have hclaims : s.worker.claims = [] := by
          cases hworker : s.worker with
          | down => rfl
          | running rest => rfl
          | claimed id row rest => exact absurd hworker (hclaimed id row rest)
          | sending id row rest => exact absurd hworker (hsending id row rest)
        rw [h.claims, hclaims]
        rfl

theorem good_run (T : CaseTables) (x : Readers) (o : Db.Outbox) (actions : List Action) :
    Good T x o (exec (System.step T x) (.start o) actions) :=
  exec_invariant (fun _ a h _ => h.step a) (good_start T x o) (guarded_true _ _ actions)

/-! ## Copies -/

/-- `m` is a copy of the mail of `row` as far as the outbox can tell: it has the same
Message-ID; or the mail has none, an attempt has failed, and `m` has its subject, is not
older than the row by more than a minute, and names one of its addresses. -/
def IsCopy (T : CaseTables) (x : Readers) (row : OutboxRow) (m : CachedMessage) : Prop :=
  ∃ parsed, x.parse row.rawMime = some parsed ∧
    ((∃ messageId stored, parsed.messageId.map normalizeMessageId = some messageId ∧
        messageId ≠ [] ∧ storedMessageId x m = some stored ∧
          Text.eqIgnoreAsciiCase stored messageId = true) ∨
      (row.attempts ≠ 0 ∧ (parsed.messageId.map normalizeMessageId).filter (· ≠ []) = none ∧
        ∃ subject, subject ≠ [] ∧ parsed.subject.map (fun s => Text.trim s.toList) = some subject ∧
          looksSent T x row subject m = true))

theorem isCopy_of_sentCopyExists {row : OutboxRow} {sent : List CachedMessage}
    (h : sentCopyExists T x (some sent) row = true) : ∃ m ∈ sent, IsCopy T x row m := by
  unfold sentCopyExists at h
  split at h
  · exact absurd h Bool.false_ne_true
  · rename_i parsed hparse
    split at h
    · exact absurd h Bool.false_ne_true
    · rename_i subject hsubject
      obtain ⟨hsubject, hnonempty⟩ := Option.filter_eq_some_iff.1 hsubject
      dsimp only at h
      split at h
      · rename_i messageId hid
        obtain ⟨hid, hne⟩ := Option.filter_eq_some_iff.1 hid
        obtain ⟨m, hm, hany⟩ := List.any_eq_true.1 h
        obtain ⟨stored, hstored, heq⟩ := (Option.any_eq_true _ _).1 hany
        exact ⟨m, hm, parsed, hparse,
          Or.inl ⟨messageId, stored, hid, of_decide_eq_true hne, hstored, heq⟩⟩
      · rename_i hid
        split at h
        · exact absurd h Bool.false_ne_true
        · rename_i hattempts
          obtain ⟨m, hm, hlooks⟩ := List.any_eq_true.1 h
          refine ⟨m, hm, parsed, hparse, Or.inr ⟨?_, hid, subject, of_decide_eq_true hnonempty,
            hsubject, hlooks⟩⟩
          intro hzero
          exact hattempts (by simp [hzero])

/-- **Accepted mail is kept.** Over every run of the outbox, from any table: a row is `sent`
only if it was so at the start, the server has carried out a send of its own mail, or
`process_one` has found a copy of it among the cached sent messages; a row that was there or
was inserted keeps its message and addresses, and is pending, sending or failed while it is
not `sent`; and no row is claimed twice, a claimed one being in the status `sending`. -/
theorem accepted_mail_is_kept (T : CaseTables) (x : Readers) (o : Db.Outbox)
    (actions : List Action) :
    let s := exec (System.step T x) (.start o) actions
    (∀ id r, s.outbox.get id = some r → r.status = .sent →
      (∃ r₀, o.get id = some r₀ ∧ r₀.status = .sent) ∨
        .carriedOut id (submissionOf r) ∈ s.transcript ∨
          ∃ row sent m, .copyFound id row sent ∈ s.transcript ∧ SameMail row r ∧ m ∈ sent ∧
            IsCopy T x row m) ∧
    (∀ id r, o.get id = some r ∨ .inserted id r ∈ s.transcript →
      ∃ r', s.outbox.get id = some r' ∧ SameMail r r' ∧
        (r'.status ≠ .sent → r'.status = .pending ∨ r'.status = .sending ∨ r'.status = .failed)) ∧
    (openClaims s.transcript).Nodup ∧
    ∀ id ∈ openClaims s.transcript, ∃ r, s.outbox.get id = some r ∧ r.status = .sending := by
  have hgood := good_run T x o actions
  generalize exec (System.step T x) (.start o) actions = s at hgood
  refine ⟨?_, ?_, ?_, ?_⟩
  · intro id r hr hs
    rcases hgood.sent id r hr hs with hstart | hcarried | ⟨row, sent, hfound, hmail, hcopy⟩
    · exact Or.inl hstart
    · exact Or.inr (Or.inl hcarried)
    · obtain ⟨m, hm, hcopy⟩ := isCopy_of_sentCopyExists hcopy
      exact Or.inr (Or.inr ⟨row, sent, m, hfound, hmail, hm, hcopy⟩)
  · intro id r hr
    have hkept : ∃ r', s.outbox.get id = some r' ∧ SameMail r r' :=
      hr.elim (hgood.initial id r) (hgood.inserted id r)
    obtain ⟨r', hr', hmail⟩ := hkept
    refine ⟨r', hr', hmail, fun hs => ?_⟩
    cases hstatus : r'.status with
    | pending => exact Or.inl rfl
    | sending => exact Or.inr (Or.inl rfl)
    | sent => exact absurd hstatus hs
    | failed => exact Or.inr (Or.inr rfl)
  · rw [hgood.claims]
    cases s.worker <;> simp [Worker.claims]
  · rw [hgood.claims]
    exact hgood.claimed

/-! ## A row that is `sent` without a send -/

/-- The readers on the mail of `appendedCopy`. -/
def oneMail : Readers where
  parse _ := some ⟨some "hi", some "id@c"⟩
  metaMessageId s := if s = "\x7b\"message_id\":\"<id@c>\"\x7d" then some "<id@c>" else none
  rfc3339 _ := none
  rfc2822 _ := none
  fromFormat _ _ := none

/-- The copy that a client has put into the Sent folder. -/
def clientCopy : CachedMessage where
  asterId := "m"
  row :=
    { folder := "sent", subject := some "hi", sender := none, recipients := none, date := none
      flags := 0, size := 0, bodyCached := true, bodyText := none
      rawHeaders := some "\x7b\"message_id\":\"<id@c>\"\x7d", createdAt := "", threadId := none
      messageId := none }
  imapUid := 1

/-- A row is inserted, the loop starts and claims it, and finds the client's copy. -/
def appendedCopy : List Action :=
  [.insert (Lib.Utf8.encode "Message-ID: <id@c>\r\nSubject: hi\r\n\r\n") "a@b" "d@e" 0, .run 0 true,
    .tick 0 true true, .next 0 true, .check (some [clientCopy]) 0 true]

/-- A row may become `sent` although nothing was sent. -/
theorem sent_without_send :
    ¬ ∀ (T : CaseTables) (x : Readers) (o : Db.Outbox) (actions : List Action) (id : Int)
        (r : OutboxRow),
      (exec (System.step T x) (.start o) actions).outbox.get id = some r → r.status = .sent →
        (∃ r₀, o.get id = some r₀ ∧ r₀.status = .sent) ∨
          .carriedOut id (submissionOf r) ∈
            (exec (System.step T x) (.start o) actions).transcript := by
  intro h
  obtain ⟨r, hr, hs⟩ : ∃ r, (exec (System.step CaseTables.ascii oneMail)
      (.start ⟨Table.empty, 0⟩) appendedCopy).outbox.get 1 = some r ∧ r.status = .sent := by
    refine ⟨⟨Lib.Utf8.encode "Message-ID: <id@c>\r\nSubject: hi\r\n\r\n", "a@b", "d@e", 0, 0,
      some 0, none, .sent⟩, ?_, rfl⟩
    decide +kernel
  rcases h CaseTables.ascii oneMail ⟨Table.empty, 0⟩ appendedCopy 1 r hr hs with hstart | hcarried
  · obtain ⟨r₀, hr₀, -⟩ := hstart
    exact absurd hr₀ (Option.some_ne_none r₀).symm
  · have hnone : ((exec (System.step CaseTables.ascii oneMail)
        (.start ⟨Table.empty, 0⟩) appendedCopy).transcript.all fun e => match e with
          | .carriedOut _ _ => false
          | _ => true) = true := by
      decide +kernel
    exact absurd (List.all_eq_true.1 hnone _ hcarried) Bool.false_ne_true

end AsterBridge.Outbox
