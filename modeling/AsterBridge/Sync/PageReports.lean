import AsterBridge.Lib.Runs
import AsterBridge.Sync.PendingFlags

/-!
# What a page reports

A consumer lists the messages that its page created or updated, and these lists are
what the JMAP change log gets. They hold every message whose folder or flags the page
changed, unless the slow path moves one without changing its flags:
`prepare_mail_item` and `commit_prepared` report new messages and changed flags, never
a new folder. `InPlace` excludes such items.
-/

set_option autoImplicit false

namespace AsterBridge.Sync

open AsterBridge.Lib AsterBridge.Lib.Runs AsterBridge.Db AsterBridge.Db.Cache

/-- Folder and flags of a cached message. -/
def status (c : Cache) (id : String) : Option (String × BitVec 64) :=
  (view c id).map fun v => (v.folder, v.flags)

theorem status_eq_of_view {c c' : Cache} {id : String} (h : view c' id = view c id) :
    status c' id = status c id := by
  rw [status, status, h]

/-! ## The slow path -/

section Outcome

variable {db : Database} {json : HeadersJson} {env : Envelopes} {item : MailItem}

/-- `reconcile_server_flags` reports a change exactly when it changes the flags. -/
theorem reconcile_changed {v : View} (hv : view db.cache item.id = some v)
    (hne : reconciled db.flagPushes item v.flags ≠ v.flags) :
    (reconcileServerFlags db item).2 = true := by
  unfold reconciled at hne
  unfold reconcileServerFlags
  split at hne
  · exact absurd rfl hne
  · rename_i hnone
    rw [if_neg hnone, getMessageFlagsById_eq, hv]
    dsimp only [Option.map_some]
    rw [if_neg hne]

/-- An item that cannot be applied changes nothing. -/
theorem cacheMailItem_not_applies (now folder : String) (happ : ¬ Applies env db.cache item) :
    (cacheMailItem json env now db folder item).1 = db := by
  unfold cacheMailItem prepareMailItem
  by_cases hid : isValidItemId item.id = true
  · have hbody : db.cache.bodyCached item.id = false := by
      rw [Bool.eq_false_iff]
      exact fun h => happ ⟨hid, Or.inl h⟩
    have hopen : env.opened item = none := by
      cases h : env.opened item with
      | none => rfl
      | some p => exact absurd ⟨hid, Or.inr (by rw [h]; rfl)⟩ happ
    simp [hid, hbody, hopen]
  · simp [hid]

/-- A message that the slow path adds is reported as new. -/
theorem cacheMailItem_wasNew (now folder : String) (happ : Applies env db.cache item)
    (hnone : view db.cache item.id = none) :
    (cacheMailItem json env now db folder item).2.wasNew = true := by
  obtain ⟨hid, hopen⟩ := happ
  have hbody : db.cache.bodyCached item.id = false := by rw [bodyCached_eq, hnone]; rfl
  obtain ⟨p, hp⟩ := Option.isSome_iff_exists.1 (hopen.resolve_left (by simp [hbody]))
  have hrow : db.cache.messageCache.get? item.id = none := Option.map_eq_none_iff.1 hnone
  unfold cacheMailItem prepareMailItem
  simp only [hid, hbody, hp, Bool.not_true, Bool.false_eq_true, if_false]
  unfold commitPrepared upsertCachedMessage
  rw [hrow]

/-- A change of the flags is reported. -/
theorem cacheMailItem_flagsChanged (now folder : String) (happ : Applies env db.cache item)
    {v : View} (hv : view db.cache item.id = some v)
    (hne : reconciled db.flagPushes item v.flags ≠ v.flags) :
    (cacheMailItem json env now db folder item).2.flagsChanged = true := by
  obtain ⟨hid, hopen⟩ := happ
  unfold cacheMailItem prepareMailItem
  by_cases hbody : db.cache.bodyCached item.id = true
  · simp only [hid, hbody, Bool.not_true, Bool.false_eq_true, if_false, if_true]
    rw [Bool.or_eq_true]
    refine Or.inl (reconcile_changed (v := { v with folder }) ?_ hne)
    show view (backfillCachedAddresses json env _ folder item).1 item.id = _
    rw [view_backfill, view_assign, view_setFolderIfChanged, if_pos rfl, hv]
    rfl
  · obtain ⟨p, hp⟩ := Option.isSome_iff_exists.1 (hopen.resolve_left hbody)
    simp only [hid, hbody, hp, Bool.not_true, Bool.false_eq_true, if_false]
    obtain ⟨r, hr, -⟩ := Option.map_eq_some_iff.1 hv
    have hnew : (db.cache.upsertCachedMessage now item.id folder p.values).2 = false := by
      unfold upsertCachedMessage
      rw [hr]
    unfold commitPrepared
    dsimp only
    rw [hnew, Bool.not_false, Bool.and_true]
    refine reconcile_changed (v := ⟨folder, v.flags, v.bodyCached || p.bodyText.isSome⟩) ?_ hne
    have hupsert : view (db.cache.upsertCachedMessage now item.id folder p.values).1 item.id =
        some ⟨folder, v.flags, v.bodyCached || p.bodyText.isSome⟩ := by
      rw [view_upsert, if_pos rfl, hv]
      rfl
    show view (Cache.assignUidIfMissing (if p.bareMessageId.isSome then _ else _) folder item.id).1
      item.id = _
    rw [view_assign]
    split
    · rw [view_updateMessageThreadAndMsgid, hupsert]
    · exact hupsert

/-- The item stays in its folder, or it changes the flags. -/
def InPlace (db : Database) (folder : String) (item : MailItem) : Prop :=
  ∀ v ∈ view db.cache item.id, v.folder = folder ∨ reconciled db.flagPushes item v.flags ≠ v.flags

instance (db : Database) (folder : String) (item : MailItem) : Decidable (InPlace db folder item) :=
  inferInstanceAs (Decidable (∀ v ∈ view db.cache item.id, _ ∨ _))

/-- The slow path reports every change of an item that is in place. -/
theorem cacheMailItem_reports (now folder : String) (hplace : InPlace db folder item) {id : String}
    (hne : status (cacheMailItem json env now db folder item).1.cache id ≠ status db.cache id) :
    id = item.id ∧ ((cacheMailItem json env now db folder item).2.wasNew = true ∨
      (cacheMailItem json env now db folder item).2.flagsChanged = true) := by
  by_cases hid : id = item.id
  · refine ⟨hid, ?_⟩
    subst hid
    by_cases happ : Applies env db.cache item
    · cases hv : view db.cache item.id with
      | none => exact Or.inl (cacheMailItem_wasNew now folder happ hv)
      | some v =>
          refine Or.inr (cacheMailItem_flagsChanged now folder happ hv ?_)
          rcases hplace v hv with hfolder | hflags
          · intro hsame
            obtain ⟨cached, hview, -⟩ := view_cacheMailItem_self json now db folder happ
            refine hne ?_
            rw [status, status, hview, hv]
            simp [hsame, hfolder]
          · exact hflags
    · rw [cacheMailItem_not_applies now folder happ] at hne
      exact absurd rfl hne
  · exact absurd (status_eq_of_view (view_cacheMailItem_other now db folder hid)) hne

end Outcome

/-! ## The change log is not touched -/

theorem changeLog_reconcile (db : Database) (item : MailItem) :
    (reconcileServerFlags db item).1.changeLog = db.changeLog := by
  unfold reconcileServerFlags
  split
  · rfl
  · split
    · rfl
    · dsimp only
      split <;> rfl

theorem changeLog_cacheMailItem (json : HeadersJson) (env : Envelopes) (now : String)
    (db : Database) (folder : String) (item : MailItem) :
    (cacheMailItem json env now db folder item).1.changeLog = db.changeLog := by
  have hprepare : (prepareMailItem json env db folder item).1.changeLog = db.changeLog := by
    unfold prepareMailItem
    split
    · rfl
    · split
      · exact changeLog_reconcile { db with cache := _ } item
      · split <;> rfl
  rw [cacheMailItem_eq]
  split
  · exact changeLog_reconcile { db with cache := _ } item
  · exact hprepare

theorem changeLog_foldl (cx : PageContext) (verdict : MailItem → Verdict) (items : List MailItem)
    (w : PageWork) : (items.foldl (takeItem cx verdict) w).db.changeLog = w.db.changeLog := by
  induction items generalizing w with
  | nil => rfl
  | cons item items ih =>
      refine (ih _).trans ?_
      unfold takeItem
      split
      · rfl
      · rfl
      · rfl
      · exact changeLog_cacheMailItem cx.json cx.env cx.now w.db (cx.folderFor item) item

theorem changeLog_writeFlags (w : PageWork) : (writeFlags w).db.changeLog = w.db.changeLog := by
  have hstale : ∀ (stale : List String) (us : List FlagUpdate) (w : PageWork),
      (reconcileStale stale us w).db.changeLog = w.db.changeLog := by
    intro stale us
    induction us with
    | nil => exact fun _ => rfl
    | cons u us ih =>
        intro w
        refine (ih _).trans ?_
        dsimp only
        split
        · rfl
        · exact changeLog_reconcile w.db u.item
  exact hstale _ _ _

theorem changeLog_syncPage (cx : PageContext) (db : Database) (page : List MailItem) :
    (syncPage cx db page).db.changeLog = db.changeLog :=
  (changeLog_writeFlags (overlayPending _)).trans
    (changeLog_foldl cx (syncVerdict cx db page) page (PageWork.start db))

theorem changeLog_indexPage (cx : PageContext) (custom light : Bool) (db : Database)
    (page : List MailItem) : (indexPage cx custom light db page).db.changeLog = db.changeLog :=
  (changeLog_writeFlags _).trans
    (changeLog_foldl cx (indexVerdict cx custom light db) (uniqueItems [] page) (PageWork.start db))

/-! ## Taking the items -/

section Items

variable {cx : PageContext} {verdict : MailItem → Verdict}

/-- A message of which a consumer changed the status is in its lists. -/
def Reported (db : Database) (w : PageWork) : Prop :=
  ∀ id, status w.db.cache id ≠ status db.cache id → id ∈ w.created ∨ id ∈ w.updated

/-- An item that goes down the slow path is in place. -/
def SlowInPlace (cx : PageContext) (verdict : MailItem → Verdict) (w : PageWork)
    (item : MailItem) : Prop :=
  verdict item = .slow → InPlace w.db (cx.folderFor item) item

instance (cx : PageContext) (verdict : MailItem → Verdict) (w : PageWork) (item : MailItem) :
    Decidable (SlowInPlace cx verdict w item) := inferInstanceAs (Decidable (_ → _))

theorem reported_takeItem {db : Database} (w : PageWork) (item : MailItem) (h : Reported db w)
    (hok : SlowInPlace cx verdict w item) : Reported db (takeItem cx verdict w item) := by
  unfold takeItem
  split
  · exact h
  · exact h
  · exact h
  · rename_i hslow
    intro id hne
    by_cases hstep : status (slowPath cx w item).db.cache id = status w.db.cache id
    · -- the change is older than this item
      have hold := h id fun heq => hne (hstep.trans heq)
      unfold slowPath
      dsimp only
      refine hold.imp (fun hc => ?_) fun hu => ?_
      · split
        · exact List.mem_append_left _ hc
        · exact hc
      · split
        · exact List.mem_append_left _ hu
        · exact hu
    · obtain ⟨rfl, hreport⟩ := cacheMailItem_reports cx.now (cx.folderFor item) (hok hslow) hstep
      unfold slowPath
      dsimp only
      rcases hreport with hnew | hflags
      · refine Or.inl ?_
        rw [if_pos hnew]
        exact List.mem_append_right _ (List.mem_singleton_self _)
      · refine Or.inr ?_
        rw [if_pos hflags]
        exact List.mem_append_right _ (List.mem_singleton_self _)

/-- A message gets at most as many flag changes as it has items on the shortcut. -/
theorem length_updatesFor_foldl (items : List MailItem) (w : PageWork) (id : String) :
    (updatesFor (items.foldl (takeItem cx verdict) w) id).length ≤
      (updatesFor w id).length + items.countP (fun i => i.id = id) := by
  induction items generalizing w with
  | nil => simp
  | cons item items ih =>
      have hone : (updatesFor (takeItem cx verdict w item) id).length ≤
          (updatesFor w id).length + if item.id = id then 1 else 0 := by
        unfold takeItem
        split
        · omega
        · omega
        · by_cases hid : item.id = id <;> simp [updatesFor, hid]
        · show (updatesFor w id).length ≤ _
          omega
      have hrest := ih (takeItem cx verdict w item)
      rw [List.countP_cons]
      simp only [decide_eq_true_eq]
      rw [List.foldl_cons]
      omega

/-- Without an item on the shortcut a message gets no flag change. -/
theorem updatesFor_foldl_slow (items : List MailItem) (w : PageWork) (id : String)
    (hno : ∀ item ∈ items, item.id = id → ∀ e f, verdict item ≠ .flagsOnly e f) :
    updatesFor (items.foldl (takeItem cx verdict) w) id = updatesFor w id := by
  induction items generalizing w with
  | nil => rfl
  | cons item items ih =>
      refine (ih _ fun i hi => hno i (List.mem_cons_of_mem item hi)).trans ?_
      unfold takeItem
      split
      · rfl
      · rfl
      · rename_i e f hv
        have hid : item.id ≠ id := fun hid => hno item List.mem_cons_self hid e f hv
        simp [updatesFor, hid]
      · rfl

end Items

/-! ## Writing the flag changes -/

theorem mem_updated_reconcileStale {stale : List String} {us : List FlagUpdate} {w : PageWork}
    {id : String} (h : id ∈ w.updated) : id ∈ (reconcileStale stale us w).updated := by
  induction us generalizing w with
  | nil => exact h
  | cons u us ih =>
      refine ih ?_
      dsimp only
      split
      · exact List.mem_append_left _ h
      · dsimp only
        split
        · exact List.mem_append_left _ h
        · exact h

theorem created_reconcileStale (stale : List String) (us : List FlagUpdate) (w : PageWork) :
    (reconcileStale stale us w).created = w.created := by
  induction us generalizing w with
  | nil => rfl
  | cons u us ih =>
      refine (ih _).trans ?_
      dsimp only
      split <;> rfl

/-- The write of the flag changes reports every message whose status it changes, if no
message has two of them. -/
theorem writeFlags_reports (w : PageWork) {id : String} (hone : (updatesFor w id).length ≤ 1)
    (hne : status (writeFlags w).db.cache id ≠ status w.db.cache id) :
    id ∈ (writeFlags w).updated := by
  cases hupd : updatesFor w id with
  | nil => exact absurd (status_eq_of_view (view_writeFlags_other w hupd)) hne
  | cons u rest =>
      rw [hupd, List.length_cons] at hone
      obtain rfl : rest = [] := List.length_eq_zero_iff.1 (by omega)
      obtain ⟨pre, post, hsplit, hpre, hid, -⟩ := List.filter_eq_cons_iff.1 hupd
      obtain rfl : u.item.id = id := by simpa using hid
      have hpre' : ∀ u' ∈ pre, u'.item.id ≠ u.item.id := fun u' hu' => by simpa using hpre u' hu'
      have hmap : ((w.flagUpdates.map fun u => (u.item.id, u.expected, u.flags)).filter
          fun t => t.1 = u.item.id) = [(u.item.id, u.expected, u.flags)] := by
        rw [List.filter_map]
        show (updatesFor w u.item.id).map _ = _
        rw [hupd]
        rfl
      obtain ⟨hfresh, hstale⟩ := setMessageFlagsIfUnchanged_one w.db.cache _ hmap
      -- the rest of the loop only adds to the list, so the step of `u` decides
      have hstep : ∀ w' : PageWork, w'.db.flagPushes = w.db.flagPushes →
          view w'.db.cache u.item.id = view (w.db.cache.setMessageFlagsIfUnchanged
            (w.flagUpdates.map fun u => (u.item.id, u.expected, u.flags))).1 u.item.id →
          u.item.id ∈ (reconcileStale (w.db.cache.setMessageFlagsIfUnchanged
            (w.flagUpdates.map fun u => (u.item.id, u.expected, u.flags))).2 (u :: post) w').updated := by
        intro w' hpush hview
        rw [reconcileStale, List.foldl_cons]
        refine mem_updated_reconcileStale ?_
        dsimp only
        by_cases hexp : w.db.cache.getMessageFlagsById u.item.id = some u.expected
        · rw [if_pos (by simpa using (hfresh hexp).2)]
          exact List.mem_append_right _ (List.mem_singleton_self _)
        · obtain ⟨hsame, hmem⟩ := hstale hexp
          rw [if_neg (by simpa using hmem)]
          have hwritten := view_writeFlags_stale w hupd hexp
          cases hv : view w.db.cache u.item.id with
          | none =>
              rw [hv] at hwritten
              exact absurd (status_eq_of_view (hwritten.trans hv.symm)) hne
          | some v =>
              have hflags : reconciled w'.db.flagPushes u.item v.flags ≠ v.flags := by
                rw [hpush]
                intro heq
                refine hne (status_eq_of_view ?_)
                rw [hwritten, hv, Option.map_some, heq]
              have hchanged := reconcile_changed ((hview.trans hsame).trans hv) hflags
              dsimp only
              rw [if_pos hchanged]
              exact List.mem_append_right _ (List.mem_singleton_self _)
      rw [writeFlags]
      dsimp only
      rw [hsplit, reconcileStale, List.foldl_append]
      rw [hsplit] at hstep
      refine hstep _ (flagPushes_reconcileStale _ pre _) ?_
      exact view_reconcileStale_other _ pre _ fun u' hu' h => absurd h (hpre' u' hu')

/-! ## Both consumers -/

/-- The items of a page of the sync pass are in place as they are taken. -/
def SyncInPlace (cx : PageContext) (db : Database) (page : List MailItem) : Prop :=
  Guarded (takeItem cx (syncVerdict cx db page)) (SlowInPlace cx (syncVerdict cx db page))
    (PageWork.start db) page

/-- The items that the indexer takes are in place as it takes them. -/
def IndexInPlace (cx : PageContext) (custom light : Bool) (db : Database) (page : List MailItem) :
    Prop :=
  Guarded (takeItem cx (indexVerdict cx custom light db))
    (SlowInPlace cx (indexVerdict cx custom light db)) (PageWork.start db) (uniqueItems [] page)

instance (cx : PageContext) (db : Database) (page : List MailItem) :
    Decidable (SyncInPlace cx db page) := inferInstanceAs (Decidable (Guarded _ _ _ _))

instance (cx : PageContext) (custom light : Bool) (db : Database) (page : List MailItem) :
    Decidable (IndexInPlace cx custom light db page) := inferInstanceAs (Decidable (Guarded _ _ _ _))

theorem reported_foldl {cx : PageContext} {verdict : MailItem → Verdict} {db : Database}
    {items : List MailItem}
    (hrun : Guarded (takeItem cx verdict) (SlowInPlace cx verdict) (PageWork.start db) items) :
    Reported db (items.foldl (takeItem cx verdict) (PageWork.start db)) :=
  exec_invariant (I := Reported db) (fun w item h hok => reported_takeItem w item h hok)
    (fun _ hne => absurd rfl hne) hrun

/-- What was reported before the write of the flag changes, and what the write reports. -/
theorem reported_writeFlags {db : Database} {w : PageWork} (h : Reported db w)
    (hone : ∀ id, (updatesFor w id).length ≤ 1) : Reported db (writeFlags w) := by
  intro id hne
  by_cases hstep : status (writeFlags w).db.cache id = status w.db.cache id
  · rcases h id fun heq => hne (hstep.trans heq) with hc | hu
    · refine Or.inl ?_
      rw [writeFlags]
      dsimp only
      rw [created_reconcileStale]
      exact hc
    · exact Or.inr (mem_updated_reconcileStale hu)
  · exact Or.inr (writeFlags_reports w (hone id) hstep)

/-- **A page of the sync pass** reports every message of which it changes the folder or
the flags, if its items are in place. -/
theorem syncPage_reported (cx : PageContext) (db : Database) (page : List MailItem)
    (hrun : SyncInPlace cx db page) : Reported db (syncPage cx db page) := by
  refine reported_writeFlags (w := overlayPending _) (reported_foldl hrun) fun id => ?_
  rw [updatesFor_overlayPending]
  refine (List.length_filter_le _ _).trans ?_
  rw [List.length_map]
  by_cases hshort : ∃ item ∈ page, item.id = id ∧ ∃ e f, syncVerdict cx db page item = .flagsOnly e f
  · -- the shortcut is for ids that occur once
    obtain ⟨item, hmem, rfl, e, f, hv⟩ := hshort
    have hskip : syncVerdict cx db page item ≠ .skip := by rw [hv]; simp
    have hslow : syncVerdict cx db page item ≠ .slow := by rw [hv]; simp
    obtain ⟨honce, -⟩ := syncVerdict_shortcut hskip hslow
    refine (length_updatesFor_foldl page (PageWork.start db) item.id).trans ?_
    rw [honce]
    exact le_rfl
  · rw [updatesFor_foldl_slow page (PageWork.start db) id
      fun item hi hid e f hv => hshort ⟨item, hi, hid, e, f, hv⟩]
    exact Nat.zero_le 1

/-- **A page of the history sweep**, likewise. -/
theorem indexPage_reported (cx : PageContext) (custom light : Bool) (db : Database)
    (page : List MailItem) (hrun : IndexInPlace cx custom light db page) :
    Reported db (indexPage cx custom light db page) := by
  refine reported_writeFlags (reported_foldl hrun) fun id => ?_
  refine (length_updatesFor_foldl _ (PageWork.start db) id).trans ?_
  have hcount : (uniqueItems [] page).countP (fun i => i.id = id) ≤ 1 := by
    by_cases hmem : ∃ item ∈ uniqueItems [] page, item.id = id
    · obtain ⟨item, hi, rfl⟩ := hmem
      rw [List.countP_eq_length_filter, filter_uniqueItems hi]
      exact le_rfl
    · rw [List.countP_eq_zero.2 fun item hi => by
        simpa using fun hid => hmem ⟨item, hi, hid⟩]
      exact Nat.zero_le 1
  show 0 + _ ≤ 1
  omega

end AsterBridge.Sync
