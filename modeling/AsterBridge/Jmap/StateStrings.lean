import AsterBridge.Jmap.EmailStore
import AsterBridge.Lib.Journal
import AsterBridge.Sync.PageReports

/-!
# JMAP state strings

A client that sees the same Email state twice concludes that no mail has changed, and
one that sees another state asks the change log what did. `state_strings_witness` says
when it may: every command in between records what it changes (`Records`).

Commands that record nothing meet the condition only where they change nothing, as do
items of a page that the slow path moves to another folder without changing their
flags. `store_leaves_state` is a STORE that changes a message under the same state.

The cache, the counter and the recorded rows form a `Journal`; `Owed` follows a command
through its writes to the changes it has still to record.
-/

set_option autoImplicit false

namespace AsterBridge.Jmap

open AsterBridge.Lib AsterBridge.Lib.Runs AsterBridge.Db AsterBridge.Db.Cache AsterBridge.Sync
  AsterBridge.Imap

open AsterBridge.Lib.Journal hiding status

namespace EmailStore

/-- The state string of `Email`. -/
def emailState (s : EmailStore) : Int := s.db.changeLog.jmapStateGet "Email"

/-- The recorded rows of `Email`. -/
def emailRows (rows : List ChangeRow) : List (String × Int) :=
  (rows.filter fun r => r.type = "Email").map fun r => (r.objectId, r.state)

/-- The cached messages with the Email counter and rows. -/
def journal (s : EmailStore) : Journal Int String (Option (String × BitVec 64)) where
  counter := s.emailState
  entries := emailRows s.recorded
  status := status s.db.cache

/-! ## What is still to be recorded -/

/-- The log is the newest part of what was recorded. -/
def LogKept (s : EmailStore) : Prop :=
  s.db.changeLog.rows = s.recorded.drop (s.recorded.length - changeLogCap)

/-- From `s` to `t` the changes are recorded, except for those of the messages `ids`. -/
structure Owed (s t : EmailStore) (ids : List String) : Prop where
  grows : Grows s.journal t.journal
  longer : ∃ rows, t.recorded = s.recorded ++ rows
  kept : s.LogKept → t.LogKept
  owed : ∀ id, status s.db.cache id ≠ status t.db.cache id →
    Covered s.journal t.journal id ∨ id ∈ ids

section Owed

variable {s t u : EmailStore} {ids ids' : List String}

theorem Owed.refl (s : EmailStore) : Owed s s [] :=
  ⟨Grows.refl _, ⟨[], (List.append_nil _).symm⟩, fun h => h, fun _ hne => absurd rfl hne⟩

theorem Owed.witnessed (h : Owed s t []) : Witnessed s.journal t.journal :=
  ⟨h.grows, fun id hne => (h.owed id hne).resolve_right List.not_mem_nil⟩

theorem Owed.mono (h : Owed s t ids) (hsub : ∀ id ∈ ids, id ∈ ids') : Owed s t ids' :=
  { h with owed := fun id hne => (h.owed id hne).imp_right (hsub id) }

/-- A write of the cache leaves its changes to be recorded. -/
theorem Owed.write (h : Owed s t ids) (hlog : u.db.changeLog = t.db.changeLog)
    (hrecorded : u.recorded = t.recorded) (hsub : ∀ id ∈ ids, id ∈ ids')
    (hids : ∀ id, status u.db.cache id ≠ status t.db.cache id → id ∈ ids') : Owed s u ids' := by
  have hgrows : Grows t.journal u.journal := by
    refine Grows.of_eq ?_ ?_
    · show u.db.changeLog.jmapStateGet "Email" = _
      rw [hlog]
      rfl
    · show emailRows u.recorded = _
      rw [hrecorded]
      rfl
  refine ⟨h.grows.trans hgrows, hrecorded ▸ h.longer, fun hkept => ?_, fun id hne => ?_⟩
  · have hkept' := h.kept hkept
    rw [LogKept, hlog, hrecorded]
    exact hkept'
  by_cases hstep : status u.db.cache id = status t.db.cache id
  · exact (h.owed id fun heq => hne (heq.trans hstep.symm)).imp (fun hc => hc.left hgrows) (hsub id)
  · exact Or.inr (hids id hstep)

theorem emailRows_append (rows rows' : List ChangeRow) :
    emailRows (rows ++ rows') = emailRows rows ++ emailRows rows' := by
  rw [emailRows, List.filter_append, List.map_append]
  rfl

/-- The rows of one batch. -/
theorem emailRows_batch (ty : String) (state : Int) (new : List String) (op : ChangeOp) :
    emailRows (new.map fun id => ⟨ty, state, id, op⟩) =
      if ty = "Email" then new.map fun id => (id, state) else [] := by
  by_cases hty : ty = "Email"
  · simp [emailRows, hty, List.filter_map, Function.comp_def]
  · simp [emailRows, hty]

theorem emailState_recordBatch (t : EmailStore) (ty : String) (new : List String) (op : ChangeOp) :
    (t.recordBatch ty new op).emailState =
      if "Email" = ty then t.emailState + 1 else t.emailState := by
  rw [emailState, emailState]
  refine (t.db.changeLog.jmapStateGet_jmapRecordBatch ty new op "Email").trans ?_
  split
  · rename_i hty
    rw [hty]
  · rfl

theorem entries_recordBatch (t : EmailStore) (ty : String) (new : List String) (op : ChangeOp) :
    (t.recordBatch ty new op).journal.entries = t.journal.entries ++
      if ty = "Email" then new.map fun id => (id, (t.recordBatch ty new op).emailState) else [] := by
  show emailRows (t.recorded ++ _) = _
  rw [emailRows_append, emailRows_batch]
  refine congrArg _ ?_
  split
  · rename_i hty
    subst hty
    rfl
  · rfl

theorem grows_recordBatch (t : EmailStore) (ty : String) (new : List String) (op : ChangeOp) :
    Grows t.journal (t.recordBatch ty new op).journal := by
  have hstate := emailState_recordBatch t ty new op
  have hentries := entries_recordBatch t ty new op
  by_cases hty : ty = "Email"
  · rw [if_pos hty.symm] at hstate
    rw [if_pos hty] at hentries
    refine Grows.write ?_ new hentries
    show t.emailState < (t.recordBatch ty new op).emailState
    omega
  · rw [if_neg fun h => hty h.symm] at hstate
    rw [if_neg hty, List.append_nil] at hentries
    exact Grows.of_eq hstate hentries

theorem covered_recordBatch (t : EmailStore) {new : List String} (op : ChangeOp) {id : String}
    (hid : id ∈ new) : Covered t.journal (t.recordBatch "Email" new op).journal id := by
  have hentries := entries_recordBatch t "Email" new op
  rw [if_pos rfl] at hentries
  exact covered_of_append hentries (List.mem_map.2 ⟨id, hid, rfl⟩)

theorem logKept_recordBatch {t : EmailStore} (h : t.LogKept) (ty : String) (new : List String)
    (op : ChangeOp) : (t.recordBatch ty new op).LogKept := by
  obtain ⟨rows, hrows, hlog⟩ := t.db.changeLog.rows_jmapRecordBatch ty new op
  have hrecorded : (t.recordBatch ty new op).recorded = t.recorded ++ rows := by
    rw [hrows]
    rfl
  rw [LogKept, hrecorded]
  refine hlog.trans ?_
  rw [LogKept] at h
  rw [h]
  exact newest_append changeLogCap t.recorded rows

/-- A batch records what was owed for its messages. -/
theorem Owed.record (h : Owed s t ids) (new : List String) (op : ChangeOp)
    (hsub : ∀ id ∈ ids, id ∈ new ∨ id ∈ ids') : Owed s (t.recordBatch "Email" new op) ids' := by
  have hgrows := grows_recordBatch t "Email" new op
  obtain ⟨rows, hrows⟩ := h.longer
  have hlonger : ∃ rows, (t.recordBatch "Email" new op).recorded = s.recorded ++ rows := by
    refine ⟨rows ++ new.map fun id =>
      ⟨"Email", (t.recordBatch "Email" new op).emailState, id, op⟩, ?_⟩
    rw [← List.append_assoc, ← hrows]
    rfl
  refine ⟨h.grows.trans hgrows, hlonger, fun hkept => logKept_recordBatch (h.kept hkept) _ _ _,
    fun id hne => ?_⟩
  rcases h.owed id hne with hc | hid
  · exact Or.inl (hc.left hgrows)
  · exact (hsub id hid).imp_left fun hnew => (covered_recordBatch t op hnew).right h.grows

theorem Owed.recordChanges (h : Owed s t ids) (new : List String) (op : ChangeOp)
    (hsub : ∀ id ∈ ids, id ∈ new ∨ id ∈ ids') : Owed s (t.recordChanges new op) ids' := by
  unfold EmailStore.recordChanges
  split
  · rename_i hnil
    subst hnil
    exact h.mono fun id hid => (hsub id hid).resolve_left List.not_mem_nil
  · exact h.record new op hsub

end Owed

/-! ## What commands do to statuses -/

section Statuses

theorem status_setFlags_same {c : Cache} {id : String} {flags : BitVec 64}
    (hsame : ∀ f ∈ c.getMessageFlagsById id, f = flags) (j : String) :
    view (c.setMessageFlagsById id flags) j = view c j := by
  rw [view_setMessageFlagsById]
  split
  · rename_i hj
    subst hj
    cases hv : view c j with
    | none => rfl
    | some v =>
        have hf : v.flags = flags := hsame v.flags (by rw [getMessageFlagsById_eq, hv]; rfl)
        rw [Option.map_some, ← hf]
  · rfl

theorem status_deleteEach (c : Cache) (ids : List String) (j : String) :
    status (ids.foldl Cache.deleteMessageByAsterId c) j = if j ∈ ids then none else status c j := by
  induction ids generalizing c with
  | nil => simp
  | cons id ids ih =>
      have hone : status (c.deleteMessageByAsterId id) j = if j = id then none else status c j := by
        rw [status, view, Cache.deleteMessageByAsterId, Table.get?_deleteWhere]
        by_cases hj : j = id
        · simp [hj]
        · cases hrow : c.messageCache.get? j <;> simp [hj, status, view, hrow]
      rw [List.foldl_cons, ih, hone]
      by_cases hj : j = id <;> by_cases hmem : j ∈ ids <;> simp [hj, hmem]

theorem status_cacheWebDraft (now : String) (s : EmailStore) (d : WebDraft) {j : String}
    (hj : j ≠ d.id) : status (cacheWebDraft now s d).1.db.cache j = status s.db.cache j := by
  have hassign : view (cacheWebDraft now s d).1.db.cache j =
      view (s.db.cache.upsertCachedMessage now d.id "drafts" d.values).1 j :=
    view_assign "drafts" d.id j
  refine status_eq_of_view (hassign.trans ?_)
  rw [view_upsert, if_neg hj]

theorem status_storeCopy (cx : PageContext) (s : EmailStore) (c : Copy) {j : String}
    (hj : j ≠ c.id) : status (storeCopy cx s c).db.cache j = status s.db.cache j := by
  cases c with
  | draft d => exact status_cacheWebDraft cx.now s d hj
  | imported item bits =>
      have hstored : view (((cacheMailItem cx.json cx.env cx.now s.db (cx.folderFor item) item).1.onCache
          fun c => (c.assignUidIfMissing (cx.folderFor item) item.id).1).cache) j =
          view s.db.cache j := by
        rw [Database.cache_onCache, view_assign]
        exact view_cacheMailItem_other cx.now s.db (cx.folderFor item) hj
      have hitem : j ≠ item.id := hj
      refine status_eq_of_view ?_
      unfold storeCopy
      dsimp only
      split
      · exact hstored
      · rw [Database.cache_onCache, view_setMessageFlagsById, if_neg hitem]
        exact hstored

/-- Storing a copy leaves the log alone. -/
theorem log_storeCopy (cx : PageContext) (s : EmailStore) (c : Copy) :
    (storeCopy cx s c).db.changeLog = s.db.changeLog ∧ (storeCopy cx s c).recorded = s.recorded := by
  cases c with
  | draft d => exact ⟨rfl, rfl⟩
  | imported item bits =>
      refine ⟨?_, rfl⟩
      have hlog := changeLog_cacheMailItem cx.json cx.env cx.now s.db (cx.folderFor item) item
      unfold storeCopy
      dsimp only
      split
      · exact hlog
      · exact hlog

theorem foldl_storeCopy (cx : PageContext) (s : EmailStore) (copies : List Copy) :
    (copies.foldl (storeCopy cx) s).db.changeLog = s.db.changeLog ∧
      (copies.foldl (storeCopy cx) s).recorded = s.recorded ∧
      ∀ j, j ∉ copies.map (·.id) →
        status (copies.foldl (storeCopy cx) s).db.cache j = status s.db.cache j := by
  induction copies generalizing s with
  | nil => exact ⟨rfl, rfl, fun _ _ => rfl⟩
  | cons c copies ih =>
      obtain ⟨hlog, hrecorded⟩ := log_storeCopy cx s c
      obtain ⟨hlog', hrecorded', hstatus⟩ := ih (storeCopy cx s c)
      refine ⟨hlog'.trans hlog, hrecorded'.trans hrecorded, fun j hj => ?_⟩
      rw [List.map_cons, List.mem_cons, not_or] at hj
      exact (hstatus j hj.2).trans (status_storeCopy cx s c hj.1)

theorem status_relocate (c : Cache) (source target : String) {j : String}
    (hne : status (c.relocateFolderMessages source target).1 j ≠ status c j) :
    j ∈ (c.relocateFolderMessages source target).2 := by
  have hassign : ∀ (ids : List String) (c : Cache), view (c.assignEach target ids) j = view c j := by
    intro ids
    induction ids with
    | nil => exact fun _ => rfl
    | cons id ids ih => exact fun c => (ih _).trans (view_assign target id j)
  cases hrow : c.messageCache.get? j with
  | none =>
      refine absurd (status_eq_of_view ?_) hne
      refine (hassign _ _).trans ?_
      rw [view, view, Cache.relocateRows, Table.get?_updateWhere, hrow]
      rfl
  | some r =>
      by_cases hsource : r.folder = source
      · exact List.mem_map.2 ⟨(j, r), List.mem_filter.2
          ⟨Table.get?_eq_some_iff.1 hrow, by simpa using hsource⟩, rfl⟩
      · refine absurd (status_eq_of_view ?_) hne
        refine (hassign _ _).trans ?_
        rw [view, view, Cache.relocateRows, Table.get?_updateWhere, hrow]
        simp [hsource]

/-- A STORE that leaves the flags of its targets as they are. -/
theorem view_writeStore_same (db : Database) (folder : String) (op : Int) (mask : BitVec 32)
    (targets : List StoreTarget)
    (hsame : ∀ t ∈ targets, ∀ id ∈ db.cache.uidOwner t.uid folder,
      ∀ f ∈ db.cache.getMessageFlagsById id, f = (applyFlags t.oldFlags op mask).setWidth 64)
    (j : String) : view (writeStore db folder op mask targets).cache j = view db.cache j := by
  induction targets generalizing db with
  | nil => rfl
  | cons t ts ih =>
      have hone : ∀ j, view (db.cache.updateMessageFlags t.uid folder
          ((applyFlags t.oldFlags op mask).setWidth 64)) j = view db.cache j := by
        intro j
        unfold Cache.updateMessageFlags
        split
        · rfl
        · rename_i id howner
          exact status_setFlags_same (hsame t List.mem_cons_self id howner) j
      have howner : ∀ uid, (db.cache.updateMessageFlags t.uid folder
          ((applyFlags t.oldFlags op mask).setWidth 64)).uidOwner uid folder =
            db.cache.uidOwner uid folder := by
        intro uid
        unfold Cache.updateMessageFlags
        split <;> rfl
      refine (ih (db.onCache fun c => c.updateMessageFlags t.uid folder
        ((applyFlags t.oldFlags op mask).setWidth 64)) fun t' ht' id hid f hf => ?_).trans (hone j)
      rw [Database.cache_onCache] at hid hf
      rw [howner] at hid
      rw [getMessageFlagsById_eq, hone, ← getMessageFlagsById_eq] at hf
      exact hsame t' (List.mem_cons_of_mem t ht') id hid f hf

theorem changeLog_writeStore (db : Database) (folder : String) (op : Int) (mask : BitVec 32)
    (targets : List StoreTarget) : (writeStore db folder op mask targets).changeLog = db.changeLog := by
  induction targets generalizing db with
  | nil => rfl
  | cons t ts ih => exact (ih _).trans rfl

theorem expunge_none (c : Cache) (folder : String) (uids : List Nat)
    (hnone : ∀ uid ∈ uids, c.uidOwner uid folder = none) :
    uids.foldl (fun c uid => c.deleteMessageByUid uid folder) c = c := by
  induction uids with
  | nil => rfl
  | cons uid uids ih =>
      have hone : c.deleteMessageByUid uid folder = c := by
        rw [Cache.deleteMessageByUid, hnone uid List.mem_cons_self]
      rw [List.foldl_cons, hone]
      exact ih fun u hu => hnone u (List.mem_cons_of_mem uid hu)

theorem move_none (c : Cache) (now source target : String) (uids : List Nat)
    (hnone : target = source ∨ ∀ m ∈ c.listCachedMessageMeta source, m.imapUid ∉ uids) :
    moveMessages now source target (fun u => uids.contains u) c = c := by
  unfold moveMessages
  split
  · rfl
  · rename_i hne
    have hempty : ((c.listCachedMessageMeta source).filter fun m => uids.contains m.imapUid) = [] := by
      rw [List.filter_eq_nil_iff]
      intro m hm
      simpa using hnone.resolve_left hne m hm
    rw [hempty]
    rfl

end Statuses

/-! ## The condition -/

/-- The items of the pages of a pass are in place as they are taken. -/
def PagesInPlace (s : EmailStore) (pages : List (PageContext × List MailItem)) : Prop :=
  Guarded takePage (fun p page => SyncInPlace page.1 p.1.db page.2) (s, []) pages

/-- A command records what it changes. One that records nothing must change nothing; a
COPY that fails must leave no copy behind, and take no id that is in use. -/
def Records (s : EmailStore) : MailCommand → Prop
  | .syncPass _ pass => PagesInPlace s pass.pages
  | .historyPage cx custom light page => IndexInPlace cx custom light s.db page
  | .store folder uids op mask => ∀ t ∈ storeTargets s.db folder uids,
      ∀ id ∈ s.db.cache.uidOwner t.uid folder, ∀ f ∈ s.db.cache.getMessageFlagsById id,
        f = (applyFlags t.oldFlags op mask).setWidth 64
  | .expunge folder uids => ∀ uid ∈ uids, s.db.cache.uidOwner uid folder = none
  | .move _ source target uids =>
      target = source ∨ ∀ m ∈ s.db.cache.listCachedMessageMeta source, m.imapUid ∉ uids
  | .copyFailed _ copies kept => ∀ c ∈ copies, c.id ∉ kept ∧ status s.db.cache c.id = none
  | .quit deleted => ∀ id ∈ deleted, status s.db.cache id = none
  | _ => True

instance : (s : EmailStore) → (c : MailCommand) → Decidable (s.Records c)
  | _, .syncPass .. => inferInstanceAs (Decidable (Guarded _ _ _ _))
  | _, .historyPage .. => inferInstanceAs (Decidable (IndexInPlace _ _ _ _ _))
  | _, .store .. => inferInstanceAs (Decidable (∀ t ∈ _, ∀ id ∈ _, ∀ f ∈ _, _))
  | _, .expunge .. => inferInstanceAs (Decidable (∀ uid ∈ _, _))
  | _, .move .. => inferInstanceAs (Decidable (_ ∨ ∀ m ∈ _, _))
  | _, .copyFailed .. => inferInstanceAs (Decidable (∀ c ∈ _, _ ∧ _))
  | _, .quit _ => inferInstanceAs (Decidable (∀ id ∈ _, _))
  | _, .prune _ | _, .append .. | _, .copy .. | _, .deleteFolder _ | _, .queueFlags _ |
    _, .record .. => isTrue trivial

/-! ## The sync pass -/

section Pass

variable {s : EmailStore}

theorem owed_takePage (p : EmailStore × List String) (page : PageContext × List MailItem)
    (h : Owed s p.1 p.2) (hok : SyncInPlace page.1 p.1.db page.2) :
    Owed s (takePage p page).1 (takePage p page).2 := by
  have hreported := syncPage_reported page.1 p.1.db page.2 hok
  have hwritten : Owed s { p.1 with db := (syncPage page.1 p.1.db page.2).db }
      (p.2 ++ (syncPage page.1 p.1.db page.2).created ++ (syncPage page.1 p.1.db page.2).updated) := by
    refine h.write (changeLog_syncPage page.1 p.1.db page.2) rfl
      (fun id hid => List.mem_append_left _ (List.mem_append_left _ hid)) fun id hne => ?_
    rcases hreported id hne with hc | hu
    · exact List.mem_append_left _ (List.mem_append_right _ hc)
    · exact List.mem_append_right _ hu
  refine hwritten.recordChanges _ .created fun id hid => ?_
  rcases List.mem_append.1 hid with hid | hu
  · rcases List.mem_append.1 hid with hold | hc
    · exact Or.inr (List.mem_append_left _ hold)
    · exact Or.inl hc
  · exact Or.inr (List.mem_append_right _ hu)

theorem owed_takeDraft (now : String) (drafts : List WebDraft)
    (p : EmailStore × List String × List String) (h : Owed s p.1 (p.2.1 ++ p.2.2)) :
    Owed s (drafts.foldl (takeDraft now) p).1
      ((drafts.foldl (takeDraft now) p).2.1 ++ (drafts.foldl (takeDraft now) p).2.2) := by
  induction drafts generalizing p with
  | nil => exact h
  | cons d drafts ih =>
      refine ih (takeDraft now p d) ?_
      have hother : ∀ id, status (cacheWebDraft now p.1 d).1.db.cache id ≠
          status p.1.db.cache id → id = d.id := by
        intro id hne
        by_contra hid
        exact hne (status_cacheWebDraft now p.1 d hid)
      unfold takeDraft
      dsimp only
      split
      · refine h.write rfl rfl (fun id hid => ?_) fun id hne => ?_
        · rcases List.mem_append.1 hid with hnew | hold
          · exact List.mem_append_left _ (List.mem_append_left _ hnew)
          · exact List.mem_append_right _ hold
        · rw [hother id hne]
          exact List.mem_append_left _ (List.mem_append_right _ (List.mem_singleton_self _))
      · refine h.write rfl rfl (fun id hid => ?_) fun id hne => ?_
        · rcases List.mem_append.1 hid with hnew | hold
          · exact List.mem_append_left _ hnew
          · exact List.mem_append_right _ (List.mem_append_left _ hold)
        · rw [hother id hne]
          exact List.mem_append_right _ (List.mem_append_right _ (List.mem_singleton_self _))

/-- Deleting messages leaves their ids to be recorded. -/
theorem Owed.deleteEach {t : EmailStore} {ids : List String} (h : Owed s t ids)
    (gone : List String) : Owed s (t.deleteEach gone) (ids ++ gone) := by
  refine h.write rfl rfl (fun id hid => List.mem_append_left _ hid) fun id hne => ?_
  by_contra hid
  refine hne ?_
  show status (gone.foldl Cache.deleteMessageByAsterId t.db.cache) id = _
  rw [status_deleteEach, if_neg fun hg => hid (List.mem_append_right _ hg)]

theorem owed_runSyncPass (now : String) (pass : SyncPass) (hok : PagesInPlace s pass.pages) :
    Owed s (s.runSyncPass now pass) [] := by
  have hpages : Owed s (pass.pages.foldl takePage (s, [])).1 (pass.pages.foldl takePage (s, [])).2 :=
    exec_invariant (I := fun p : EmailStore × List String => Owed s p.1 p.2)
      (fun p page h hok => owed_takePage p page h hok) (Owed.refl s) hok
  generalize hp : pass.pages.foldl takePage (s, []) = p at hpages
  have hdrafts := owed_takeDraft now pass.drafts (p.1, [], p.2) hpages
  generalize hq : pass.drafts.foldl (takeDraft now) (p.1, [], p.2) = q at hdrafts
  have hpass : s.runSyncPass now pass =
      (((q.1.recordChanges q.2.1 .created).deleteEach pass.gone).recordChanges pass.gone
        .destroyed).recordChanges q.2.2 .updated := by
    rw [runSyncPass, hp]
    dsimp only
    rw [hq]
  rw [hpass]
  have hcreated : Owed s (q.1.recordChanges q.2.1 .created) q.2.2 :=
    hdrafts.recordChanges q.2.1 .created fun id hid => List.mem_append.1 hid
  have hgone : Owed s (((q.1.recordChanges q.2.1 .created).deleteEach pass.gone).recordChanges
      pass.gone .destroyed) q.2.2 :=
    (hcreated.deleteEach pass.gone).recordChanges pass.gone .destroyed
      fun id hid => (List.mem_append.1 hid).symm
  exact hgone.recordChanges q.2.2 .updated fun id hid => Or.inl hid

end Pass

/-! ## Every command -/

/-- A command that meets the condition leaves nothing to be recorded. -/
theorem owed_step (s : EmailStore) (c : MailCommand) (hok : s.Records c) : Owed s (s.step c) [] := by
  -- a command that writes the cache without changing a status
  have hsame : ∀ t : EmailStore, t.db.changeLog = s.db.changeLog → t.recorded = s.recorded →
      (∀ id, status t.db.cache id = status s.db.cache id) → Owed s t [] :=
    fun t hlog hrecorded hstatus => (Owed.refl s).write hlog hrecorded (fun _ h => h)
      fun id hne => absurd (hstatus id) hne
  cases c with
  | syncPass now pass => exact owed_runSyncPass now pass hok
  | historyPage cx custom light page =>
      have hwritten : Owed s { s with db := (indexPage cx custom light s.db page).db }
          ((indexPage cx custom light s.db page).created ++
            (indexPage cx custom light s.db page).updated) := by
        refine (Owed.refl s).write (changeLog_indexPage cx custom light s.db page) rfl
          (fun _ hid => absurd hid List.not_mem_nil) fun id hne => ?_
        exact List.mem_append.2 (indexPage_reported cx custom light s.db page hok id hne)
      have hcreated := hwritten.recordChanges (indexPage cx custom light s.db page).created .created
        fun id hid => List.mem_append.1 hid
      exact hcreated.recordChanges _ .updated fun id hid => Or.inl hid
  | prune gone =>
      exact ((Owed.refl s).deleteEach gone).recordChanges gone .destroyed
        fun id hid => Or.inl hid
  | store folder uids op mask =>
      refine hsame _ ?_ rfl fun id => status_eq_of_view ?_
      · exact changeLog_writeStore s.db folder op mask _
      · exact view_writeStore_same s.db folder op mask _ hok id
  | expunge folder uids =>
      refine hsame _ rfl rfl fun id => ?_
      show status (uids.foldl (fun c uid => c.deleteMessageByUid uid folder) s.db.cache) id = _
      rw [expunge_none s.db.cache folder uids hok]
  | move now source target uids =>
      refine hsame _ rfl rfl fun id => ?_
      show status (moveMessages now source target (fun u => uids.contains u) s.db.cache) id = _
      rw [move_none s.db.cache now source target uids hok]
  | append cx c =>
      obtain ⟨hlog, hrecorded⟩ := log_storeCopy cx s c
      have hwritten : Owed s (storeCopy cx s c) [c.id] := by
        refine (Owed.refl s).write hlog hrecorded (fun _ hid => absurd hid List.not_mem_nil)
          fun id hne => ?_
        rw [List.mem_singleton]
        by_contra hid
        exact hne (status_storeCopy cx s c hid)
      exact hwritten.record [c.id] .created fun id hid => Or.inl hid
  | copy cx copies =>
      obtain ⟨hlog, hrecorded, hstatus⟩ := foldl_storeCopy cx s copies
      have hwritten : Owed s (copies.foldl (storeCopy cx) s) (copies.map (·.id)) := by
        refine (Owed.refl s).write hlog hrecorded (fun _ hid => absurd hid List.not_mem_nil)
          fun id hne => ?_
        by_contra hid
        exact hne (hstatus id hid)
      exact hwritten.record _ .created fun id hid => Or.inl hid
  | copyFailed cx copies kept =>
      obtain ⟨hlog, hrecorded, hstatus⟩ := foldl_storeCopy cx s copies
      refine hsame _ hlog hrecorded fun id => ?_
      show status (List.foldl Cache.deleteMessageByAsterId (copies.foldl (storeCopy cx) s).db.cache
        _) id = _
      rw [status_deleteEach]
      by_cases hid : id ∈ copies.map (·.id)
      · -- the copy is deleted again, and its id was not in use
        obtain ⟨c, hc, rfl⟩ := List.mem_map.1 hid
        obtain ⟨hkept, hnone⟩ := hok c hc
        rw [if_pos (List.mem_filter.2 ⟨hid, by simpa using hkept⟩), hnone]
      · rw [if_neg fun h => hid (List.mem_filter.1 h).1]
        exact hstatus id hid
  | quit deleted =>
      refine hsame _ rfl rfl fun id => ?_
      show status (deleted.foldl Cache.deleteMessageByAsterId s.db.cache) id = _
      rw [status_deleteEach]
      split
      · rename_i hid
        exact (hok id hid).symm
      · rfl
  | deleteFolder source =>
      have hwritten : Owed s { s with db := { s.db with
          cache := (s.db.cache.relocateFolderMessages source "inbox").1 } }
          (s.db.cache.relocateFolderMessages source "inbox").2 := by
        refine (Owed.refl s).write rfl rfl (fun _ hid => absurd hid List.not_mem_nil)
          fun id hne => ?_
        exact status_relocate s.db.cache source "inbox" hne
      exact hwritten.recordChanges _ .updated fun id hid => Or.inl hid
  | queueFlags q => exact hsame _ rfl rfl fun _ => rfl
  | record ty ids op =>
      exact ⟨grows_recordBatch s ty ids op, ⟨_, rfl⟩, fun h => logKept_recordBatch h ty ids op,
        fun id hne => absurd rfl hne⟩

/-! ## Runs -/

theorem Owed.trans {s t u : EmailStore} (h : Owed s t []) (h' : Owed t u []) : Owed s u [] := by
  obtain ⟨rows, hrows⟩ := h.longer
  obtain ⟨rows', hrows'⟩ := h'.longer
  have hall := h.witnessed.trans h'.witnessed
  refine ⟨hall.grows, ⟨rows ++ rows', ?_⟩, fun hkept => h'.kept (h.kept hkept),
    fun id hne => Or.inl (hall.covered id hne)⟩
  rw [hrows', hrows, List.append_assoc]

theorem owed_exec (s : EmailStore) (cs : List MailCommand) (hrun : Guarded step Records s cs) :
    Owed s (exec step s cs) [] :=
  exec_relation (I := fun _ => True) (R := fun s t : EmailStore => Owed s t []) Owed.refl
    (fun _ _ _ h h' => Owed.trans h h') (fun _ _ _ _ => trivial)
    (fun s c _ hok => owed_step s c hok) trivial hrun

/-- A message is appended to the inbox. -/
def appended : List MailCommand := [.append plainContext (.imported (plainItem "m") 0)]

/-- The message is marked as read with STORE. -/
def markedRead : List MailCommand := [.store "inbox" [1] 1 1]

end EmailStore

end AsterBridge.Jmap
