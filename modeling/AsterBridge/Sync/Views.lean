import AsterBridge.Sync.UidMap

/-!
# What a listed item does to a row

`View` is the part of a cached row that listings decide: the folder, the flags and
whether the body is cached. Each function of the slow path is described by its effect
on views, up to `cacheMailItem`: an applied item files the message in the folder of
the listing and reconciles its flags, and no other row changes.
-/

set_option autoImplicit false

namespace AsterBridge.Sync

open AsterBridge.Lib AsterBridge.Db AsterBridge.Db.Cache

/-- Folder, flags and body mark of a cached message. -/
structure View where
  folder : String
  flags : BitVec 64
  bodyCached : Bool
  deriving DecidableEq, Repr

/-- The view of a row. -/
def viewOf (r : MessageRow) : View := ⟨r.folder, r.flags, r.bodyCached⟩

/-- The view of a cached message. -/
def view (c : Cache) (id : String) : Option View := (c.messageCache.get? id).map viewOf

/-- The flags that `reconcile_server_flags` leaves: those with the reported and the
queued values, if anything is reported. -/
def reconciled (q : FlagPushQueue) (item : MailItem) (f : BitVec 64) : BitVec 64 :=
  if item.isRead = none ∧ item.isStarred = none then f
  else withPendingFlags (serverFlags f item) (q.pendingFlagValues item.id)

section Views

variable {c : Cache} {json : HeadersJson} {env : Envelopes}

/-- An update of a row, by what it does to the view. -/
theorem view_updateMessage (id : String) {f : MessageRow → MessageRow} {g : View → View}
    (hfg : ∀ r, viewOf (f r) = g (viewOf r)) (j : String) :
    view (c.updateMessage id f) j = if j = id then (view c id).map g else view c j := by
  by_cases hj : j = id
  · subst hj
    simp [view, updateMessage, Table.get?_updateWhere, Option.map_map, Function.comp_def, hfg]
  · cases h : c.messageCache.get? j <;>
      simp [view, updateMessage, Table.get?_updateWhere, hj, h]

theorem view_updateMessage_same (id : String) {f : MessageRow → MessageRow}
    (hf : ∀ r, viewOf (f r) = viewOf r) (j : String) :
    view (c.updateMessage id f) j = view c j := by
  rw [view_updateMessage (g := fun v => v) id hf]
  by_cases hj : j = id
  · subst hj
    simp
  · rw [if_neg hj]

theorem view_setMessageFlagsById (id : String) (flags : BitVec 64) (j : String) :
    view (c.setMessageFlagsById id flags) j =
      if j = id then (view c id).map fun v => { v with flags } else view c j :=
  view_updateMessage id (fun _ => rfl) j

theorem getMessageFlagsById_eq (id : String) :
    c.getMessageFlagsById id = (view c id).map (·.flags) := by
  rw [view, Option.map_map]
  rfl

theorem bodyCached_eq (id : String) :
    c.bodyCached id = ((view c id).map (·.bodyCached)).getD false := by
  rw [view, Option.map_map]
  rfl

theorem view_upsert (now id folder : String) (v : MessageValues) (j : String) :
    view (c.upsertCachedMessage now id folder v).1 j =
      if j = id then
        some ⟨folder, ((view c id).map (·.flags)).getD 0,
          ((view c id).map (·.bodyCached)).getD false || v.bodyText.isSome⟩
      else view c j := by
  unfold upsertCachedMessage
  cases h : c.messageCache.get? id with
  | none =>
      by_cases hj : j = id
      · subst hj
        simp [view, Table.get?_insertIgnore, h, viewOf]
      · simp [view, Table.get?_insertIgnore, hj]
  | some r =>
      let g : View → View := fun w => ⟨folder, w.flags, w.bodyCached || v.bodyText.isSome⟩
      have hview : view c id = some (viewOf r) := by rw [view, h]; rfl
      show view (c.updateMessage id _) j = _
      rw [view_updateMessage (g := g) id (fun r => by simp [g, viewOf]), hview]
      rfl

theorem view_updateMessageThreadAndMsgid (id : String) (threadId messageId : Option String)
    (j : String) : view (c.updateMessageThreadAndMsgid id threadId messageId) j = view c j := by
  rw [updateMessageThreadAndMsgid]
  refine view_updateMessage_same id (fun r => ?_) j
  rfl

theorem view_assign (folder id j : String) :
    view (c.assignUidIfMissing folder id).1 j = view c j := by
  unfold assignUidIfMissing
  split <;> rfl

theorem view_setFolderIfChanged (id folder j : String) :
    view (c.setFolderIfChanged id folder) j =
      if j = id then (view c id).map fun v => { v with folder } else view c j := by
  unfold setFolderIfChanged
  cases h : c.messageCache.get? id with
  | none =>
      by_cases hj : j = id
      · subst hj
        simp [view, h]
      · simp [hj]
  | some r =>
      dsimp only
      by_cases hf : r.folder = folder
      · rw [if_pos hf]
        by_cases hj : j = id
        · subst hj
          simp [view, h, viewOf, hf]
        · simp [hj]
      · rw [if_neg hf]
        exact view_updateMessage id (fun _ => rfl) j

theorem view_backfill (folder : String) (item : MailItem) (j : String) :
    view (backfillCachedAddresses json env c folder item).1 j = view c j := by
  have hraw : ∀ raw, view (c.setCachedRawHeaders item.id raw) j = view c j := by
    intro raw
    rw [setCachedRawHeaders]
    refine view_updateMessage_same item.id (fun r => ?_) j
    rfl
  unfold backfillCachedAddresses
  split
  · rfl
  · split
    · rfl
    · split
      · rfl
      · dsimp only
        split
        · exact hraw _
        · unfold renumberIn
          dsimp only
          split
          · rw [view_assign]
            exact hraw _
          · rw [view_assign]
            exact hraw _

theorem view_reconcile (db : Database) (item : MailItem) (j : String) :
    view (reconcileServerFlags db item).1.cache j =
      if j = item.id then
        (view db.cache item.id).map fun v =>
          { v with flags := reconciled db.flagPushes item v.flags }
      else view db.cache j := by
  unfold reconcileServerFlags reconciled
  by_cases hnone : item.isRead = none ∧ item.isStarred = none
  · simp only [if_pos hnone]
    by_cases hj : j = item.id
    · subst hj
      simp
    · simp [hj]
  · simp only [if_neg hnone]
    rw [getMessageFlagsById_eq]
    cases hv : view db.cache item.id with
    | none =>
        by_cases hj : j = item.id
        · subst hj
          simp [hv]
        · simp [hj]
    | some v =>
        dsimp only [Option.map_some]
        by_cases heq : withPendingFlags (serverFlags v.flags item)
            (db.flagPushes.pendingFlagValues item.id) = v.flags
        · rw [if_pos heq]
          by_cases hj : j = item.id
          · subst hj
            simp [hv, heq]
          · simp [hj]
        · rw [if_neg heq]
          show view (db.cache.setMessageFlagsById item.id _) j = _
          rw [view_setMessageFlagsById, hv]
          rfl

theorem flagPushes_reconcile (db : Database) (item : MailItem) :
    (reconcileServerFlags db item).1.flagPushes = db.flagPushes := by
  unfold reconcileServerFlags
  split
  · rfl
  · split
    · rfl
    · dsimp only
      split <;> rfl

/-- The slow path of an item applies it: its id is valid, and its body is cached or
its envelope opens. -/
def Applies (env : Envelopes) (c : Cache) (item : MailItem) : Prop :=
  isValidItemId item.id = true ∧ (c.bodyCached item.id = true ∨ (env.opened item).isSome = true)

/-- Filing and reconciling a message whose body is cached. -/
theorem view_prepare_cached {db : Database} {folder : String} {item : MailItem}
    (hid : isValidItemId item.id = true) (hbody : db.cache.bodyCached item.id = true)
    (j : String) :
    view (prepareMailItem json env db folder item).1.cache j =
      if j = item.id then
        some ⟨folder, reconciled db.flagPushes item (((view db.cache item.id).map (·.flags)).getD 0),
          true⟩
      else view db.cache j := by
  obtain ⟨v, hv, hcached⟩ : ∃ v, view db.cache item.id = some v ∧ v.bodyCached = true := by
    rw [bodyCached_eq] at hbody
    cases hv : view db.cache item.id with
    | none => simp [hv] at hbody
    | some v => exact ⟨v, rfl, by simpa [hv] using hbody⟩
  unfold prepareMailItem
  simp only [hid, hbody, Bool.not_true, Bool.false_eq_true, if_false, if_true]
  rw [view_reconcile]
  simp only [view_backfill, view_assign, view_setFolderIfChanged, if_true, hv, Option.map_some,
    Option.getD_some, hcached]
  by_cases hj : j = item.id <;> simp [hj]

/-- Storing an opened message. -/
theorem view_commit (now : String) (db : Database) (folder : String) (item : MailItem)
    (p : PreparedMessage) (j : String) :
    view (commitPrepared now db folder item p).1.cache j =
      if j = item.id then
        some ⟨folder, reconciled db.flagPushes item (((view db.cache item.id).map (·.flags)).getD 0),
          ((view db.cache item.id).map (·.bodyCached)).getD false || p.bodyText.isSome⟩
      else view db.cache j := by
  have hmsgid : ∀ c : Cache, view (if p.bareMessageId.isSome then
      c.updateMessageThreadAndMsgid item.id none p.bareMessageId else c) = view c := by
    intro c
    funext i
    split
    · exact view_updateMessageThreadAndMsgid item.id none p.bareMessageId i
    · rfl
  unfold commitPrepared
  dsimp only
  rw [view_reconcile]
  simp only [view_assign, hmsgid, view_upsert, if_true, Option.map_some]
  by_cases hj : j = item.id
  · simp [hj, PreparedMessage.values]
  · simp [hj]

theorem flagPushes_cacheMailItem (now : String) (db : Database) (folder : String)
    (item : MailItem) :
    (cacheMailItem json env now db folder item).1.flagPushes = db.flagPushes := by
  have hprep : (prepareMailItem json env db folder item).1.flagPushes = db.flagPushes := by
    unfold prepareMailItem
    split
    · rfl
    · split
      · exact flagPushes_reconcile { db with cache := _ } item
      · split <;> rfl
  rw [cacheMailItem_eq]
  split
  · exact flagPushes_reconcile { db with cache := _ } item
  · exact hprep

/-- The rows of other messages are not touched. -/
theorem view_cacheMailItem_other (now : String) (db : Database) (folder : String)
    {item : MailItem} {j : String} (hj : j ≠ item.id) :
    view (cacheMailItem json env now db folder item).1.cache j = view db.cache j := by
  rw [cacheMailItem_eq]
  split
  · rw [view_commit, if_neg hj]
  · by_cases hid : isValidItemId item.id = true
    · by_cases hbody : db.cache.bodyCached item.id = true
      · rw [view_prepare_cached hid hbody, if_neg hj]
      · unfold prepareMailItem
        simp only [hid, hbody, Bool.not_true, Bool.false_eq_true, if_false]
        split <;> rfl
    · simp [prepareMailItem, hid]

/-- An applied item files the message in its folder and reconciles its flags; a
cached body stays cached. -/
theorem view_cacheMailItem_self (json : HeadersJson) (now : String) (db : Database) (folder : String)
    {item : MailItem} (happ : Applies env db.cache item) :
    ∃ cached, view (cacheMailItem json env now db folder item).1.cache item.id =
        some ⟨folder,
          reconciled db.flagPushes item (((view db.cache item.id).map (·.flags)).getD 0), cached⟩ ∧
      (db.cache.bodyCached item.id = true → cached = true) := by
  obtain ⟨hid, hopen⟩ := happ
  rw [cacheMailItem_eq]
  by_cases hbody : db.cache.bodyCached item.id = true
  · have hnone : opens env db.cache item = none := by simp [opens, hbody]
    refine ⟨true, ?_, fun _ => rfl⟩
    rw [hnone]
    dsimp only
    rw [view_prepare_cached hid hbody, if_pos rfl]
  · obtain ⟨p, hp⟩ := Option.isSome_iff_exists.1 (hopen.resolve_left hbody)
    have hsome : opens env db.cache item = some p := by simp [opens, hid, hbody, hp]
    refine ⟨((view db.cache item.id).map (·.bodyCached)).getD false || p.bodyText.isSome, ?_,
      fun h => absurd h hbody⟩
    rw [hsome]
    dsimp only
    rw [view_commit, if_pos rfl]

end Views

end AsterBridge.Sync
