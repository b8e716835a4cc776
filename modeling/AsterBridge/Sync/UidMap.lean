import AsterBridge.Db.Uids
import AsterBridge.Imap.SequenceNumbers
import AsterBridge.Sync.MailItem

/-!
# The UID map and the cache

`message_cache` and `uid_map` both hold the folder of a message, and a dozen
operations update them separately. `UidMapMatches` says that they agree: a message
has a mapping for the folder it is in and for no other. Each operation keeps it,
under one condition (`StaysInPlace`): a message that is cached without its body is
not stored again under another folder, because `commit_prepared` changes the folder
of the row and leaves the old mapping (`commit_elsewhere_breaks`).

`uid_map_matches` is the result for every run, with what IMAP clients rely on: UIDs
of a listing are distinct and positive, a message that comes back to a folder gets a
UID above all earlier ones, and the list of a connection stays ascending.
-/

set_option autoImplicit false

namespace AsterBridge.Sync

open AsterBridge.Lib AsterBridge.Lib.Runs AsterBridge.Lib.Ledger AsterBridge.Db
  AsterBridge.Db.Cache AsterBridge.Imap

/-- The folder of a cached message. -/
def folderOf (c : Cache) (id : String) : Option String :=
  (c.messageCache.get? id).map (·.folder)

/-- Whether a message has a mapping for a folder. -/
def Mapped (c : Cache) (id folder : String) : Prop :=
  ∃ uid, c.uidMap.get? (id, folder) = some uid

/-- A message has a mapping for its own folder and for no other. -/
structure UidMapMatches (c : Cache) : Prop where
  sound : c.ledger.Sound
  mapped : ∀ id folder, Mapped c id folder ↔ folderOf c id = some folder

theorem uidMapMatches_empty : UidMapMatches Cache.empty := by
  refine ⟨sound_empty, fun id folder => ?_⟩
  simp [Mapped, folderOf, Cache.empty]

/-! ## What the functions of the cache do to folders and mappings -/

section Primitives

variable {c : Cache}

theorem folderOf_updateMessage (f : MessageRow → MessageRow) (id j : String) :
    folderOf (c.updateMessage id f) j =
      if j = id then (c.messageCache.get? id).map fun r => (f r).folder else folderOf c j := by
  by_cases hj : j = id
  · subst hj
    simp [folderOf, updateMessage, Table.get?_updateWhere, Option.map_map, Function.comp_def]
  · cases h : c.messageCache.get? j <;>
      simp [folderOf, updateMessage, Table.get?_updateWhere, hj, h]

/-- An update that keeps the folder of the row. -/
theorem folderOf_updateMessage_same (f : MessageRow → MessageRow)
    (hf : ∀ r, (f r).folder = r.folder) (id j : String) :
    folderOf (c.updateMessage id f) j = folderOf c j := by
  rw [folderOf_updateMessage]
  by_cases hj : j = id
  · subst hj
    simp only [if_true, hf]
    rfl
  · rw [if_neg hj]

theorem folderOf_setMessageFlagsById (id : String) (flags : BitVec 64) (j : String) :
    folderOf (c.setMessageFlagsById id flags) j = folderOf c j :=
  folderOf_updateMessage_same (fun r => { r with flags }) (fun _ => rfl) id j

theorem folderOf_upsert (now id folder : String) (v : MessageValues) (j : String) :
    folderOf (c.upsertCachedMessage now id folder v).1 j =
      if j = id then some folder else folderOf c j := by
  unfold upsertCachedMessage
  cases h : c.messageCache.get? id with
  | none =>
      by_cases hj : j = id
      · subst hj
        simp [folderOf, Table.get?_insertIgnore, h]
      · simp [folderOf, Table.get?_insertIgnore, hj]
  | some r =>
      show folderOf (c.updateMessage id _) j = _
      rw [folderOf_updateMessage]
      simp [h]

theorem uidMap_upsert (now id folder : String) (v : MessageValues) :
    (c.upsertCachedMessage now id folder v).1.uidMap = c.uidMap := by
  unfold upsertCachedMessage
  split <;> rfl

theorem folderOf_assign (folder id j : String) :
    folderOf (c.assignUidIfMissing folder id).1 j = folderOf c j := by
  unfold assignUidIfMissing
  split <;> rfl

theorem mapped_assign (folder id j f : String) :
    Mapped (c.assignUidIfMissing folder id).1 j f ↔ Mapped c j f ∨ j = id ∧ f = folder := by
  simp only [Mapped, get?_uidMap_assign]
  by_cases hk : (j, f) = (id, folder)
  · obtain ⟨rfl, rfl⟩ := Prod.mk.inj hk
    simp
  · have hne : ¬ (j = id ∧ f = folder) := fun h => hk (Prod.ext h.1 h.2)
    simp [hk, hne]

theorem mapped_deleteWhere (p : String × String → Nat → Bool) (t : Table (String × String) Nat)
    (k : String × String) (u : Nat) :
    (t.deleteWhere p).get? k = some u ↔ t.get? k = some u ∧ p k u = false := by
  rw [Table.get?_deleteWhere, Option.filter_eq_some_iff, Bool.not_eq_true']

/-- Removing the UID of a message removes that mapping only: no other message of
the folder has the UID. -/
theorem mapped_removeUidMapping (hs : c.ledger.Sound) {id folder : String} {uid : Nat}
    (huid : c.uidMap.get? (id, folder) = some uid) (j f : String) :
    Mapped (c.removeUidMapping uid folder) j f ↔ Mapped c j f ∧ ¬ (j = id ∧ f = folder) := by
  simp only [Mapped, removeUidMapping, mapped_deleteWhere, Bool.and_eq_false_iff,
    decide_eq_false_iff_not]
  constructor
  · rintro ⟨u, hu, hne⟩
    refine ⟨⟨u, hu⟩, ?_⟩
    rintro ⟨rfl, rfl⟩
    rw [huid] at hu
    rcases hne with hne | hne
    · exact hne (Option.some.inj hu).symm
    · exact hne rfl
  · rintro ⟨⟨u, hu⟩, hne⟩
    refine ⟨u, hu, ?_⟩
    by_cases hf : f = folder
    · left
      rintro rfl
      subst hf
      exact hne ⟨hs.owner f j id u hu huid, rfl⟩
    · exact Or.inr hf

/-- A change of the cache that leaves folders and UIDs alone. -/
theorem UidMapMatches.of_same {c' : Cache} (h : UidMapMatches c)
    (hfolder : ∀ j, folderOf c' j = folderOf c j) (huid : c'.uidMap = c.uidMap)
    (hsync : c'.syncState = c.syncState) : UidMapMatches c' := by
  refine ⟨(advances_of_eq huid hsync).sound h.sound, fun id folder => ?_⟩
  rw [hfolder, ← h.mapped id folder, Mapped, Mapped, huid]

theorem UidMapMatches.updateMessage (h : UidMapMatches c) (id : String)
    (f : MessageRow → MessageRow) (hf : ∀ r, (f r).folder = r.folder) :
    UidMapMatches (c.updateMessage id f) :=
  h.of_same (folderOf_updateMessage_same f hf id) rfl rfl

end Primitives

/-! ## Step lemmas -/

section Steps

variable {c : Cache}

/-- A message that is new or stays in its folder has its row written, and then gets
a UID there. -/
theorem UidMapMatches.store (h : UidMapMatches c) {c' : Cache} {id folder : String}
    (hplace : ∀ f ∈ folderOf c id, f = folder)
    (hfolder : ∀ j, folderOf c' j = if j = id then some folder else folderOf c j)
    (huid : c'.uidMap = c.uidMap) (hsync : c'.syncState = c.syncState) :
    UidMapMatches (c'.assignUidIfMissing folder id).1 := by
  refine ⟨?_, fun j g => ?_⟩
  · exact ((advances_of_eq huid hsync).trans (advances_assign c' folder id)).sound h.sound
  · have hmap : Mapped c' j g ↔ Mapped c j g := by rw [Mapped, Mapped, huid]
    rw [mapped_assign, folderOf_assign, hfolder, hmap, h.mapped]
    by_cases hj : j = id
    · subst hj
      rw [if_pos rfl]
      constructor
      · rintro (hg | ⟨-, rfl⟩)
        · exact congrArg some (hplace g hg).symm
        · rfl
      · intro hg
        exact Or.inr ⟨rfl, (Option.some.inj hg).symm⟩
    · simp [hj]

/-- Filing a cached message in a folder: `set_folder_if_changed`, then
`assign_uid_if_missing`. -/
theorem UidMapMatches.file (h : UidMapMatches c) {id f : String} (folder : String)
    (hrow : folderOf c id = some f) :
    UidMapMatches ((c.setFolderIfChanged id folder).assignUidIfMissing folder id).1 ∧
      folderOf ((c.setFolderIfChanged id folder).assignUidIfMissing folder id).1 id =
        some folder := by
  obtain ⟨r, hr, rfl⟩ := Option.map_eq_some_iff.1 hrow
  -- folders and mappings once the row is in its new folder
  have hset : ∀ j g, folderOf (c.setFolderIfChanged id folder) j =
        (if j = id then some folder else folderOf c j) ∧
      (Mapped (c.setFolderIfChanged id folder) j g ↔
        Mapped c j g ∧ (j = id → g = folder)) := by
    intro j g
    by_cases hf : r.folder = folder
    · have heq : c.setFolderIfChanged id folder = c := by
        simp [setFolderIfChanged, hr, hf]
      rw [heq]
      constructor
      · by_cases hj : j = id
        · rw [if_pos hj, hj, hrow, hf]
        · rw [if_neg hj]
      · refine ⟨fun hm => ⟨hm, fun hj => ?_⟩, fun hm => hm.1⟩
        rw [h.mapped, hj, hrow, hf] at hm
        exact (Option.some.inj hm).symm
    · have heq : c.setFolderIfChanged id folder =
          { c.updateMessage id fun r => { r with folder } with
            uidMap := c.uidMap.deleteWhere fun k _ => k.1 = id && k.2 ≠ folder } := by
        simp only [setFolderIfChanged, hr, hf, if_false]
      rw [heq]
      constructor
      · show folderOf (c.updateMessage id fun r => { r with folder }) j = _
        rw [folderOf_updateMessage, hr]
        rfl
      · simp only [Mapped, mapped_deleteWhere, Bool.and_eq_false_iff, decide_eq_false_iff_not,
          not_not]
        constructor
        · rintro ⟨u, hu, hne⟩
          exact ⟨⟨u, hu⟩, fun hj => hne.resolve_left (not_not.2 hj)⟩
        · rintro ⟨⟨u, hu⟩, himp⟩
          exact ⟨u, hu, or_iff_not_imp_left.2 fun hj => himp (not_not.1 hj)⟩
  refine ⟨⟨?_, fun j g => ?_⟩, ?_⟩
  · exact ((advances_setFolderIfChanged c id folder).trans (advances_assign _ folder id)).sound
      h.sound
  · rw [mapped_assign, folderOf_assign, (hset j g).1, (hset j g).2, h.mapped]
    by_cases hj : j = id
    · subst hj
      rw [if_pos rfl]
      constructor
      · rintro (⟨-, hg⟩ | ⟨-, rfl⟩)
        · rw [hg rfl]
        · rfl
      · intro hg
        exact Or.inr ⟨rfl, (Option.some.inj hg).symm⟩
    · simp [hj]
  · rw [folderOf_assign, (hset id folder).1, if_pos rfl]

/-- Renumbering a message in its own folder. -/
theorem UidMapMatches.renumberIn (h : UidMapMatches c) {id folder : String} {uid : Nat}
    (hrow : folderOf c id = some folder) (huid : c.uidMap.get? (id, folder) = some uid)
    (hfit : uid < 2 ^ 32) : UidMapMatches (renumberIn c folder id (toU32 uid)) := by
  have hpos : 0 < uid := h.sound.pos folder id uid huid
  have hwhole : toU32 uid = uid := Nat.mod_eq_of_lt hfit
  rw [Sync.renumberIn, hwhole, if_pos hpos]
  refine ⟨?_, fun j g => ?_⟩
  · exact ((advances_removeUidMapping c uid folder).trans (advances_assign _ folder id)).sound
      h.sound
  · rw [mapped_assign, folderOf_assign, mapped_removeUidMapping h.sound huid, h.mapped]
    show _ ↔ folderOf c j = some g
    by_cases hj : j = id ∧ g = folder
    · obtain ⟨rfl, rfl⟩ := hj
      simp [hrow]
    · simp [hj]

theorem mapped_deleteMessageByAsterId (id j f : String) :
    Mapped (c.deleteMessageByAsterId id) j f ↔ Mapped c j f ∧ j ≠ id := by
  simp [Mapped, deleteMessageByAsterId, mapped_deleteWhere]

theorem folderOf_delete (c' : Cache) (id j : String)
    (h : c'.messageCache = c.messageCache.deleteWhere fun k _ => k = id) :
    folderOf c' j = if j = id then none else folderOf c j := by
  rw [folderOf, h, Table.get?_deleteWhere]
  by_cases hj : j = id
  · cases hr : c.messageCache.get? j <;> simp [hj]
  · cases hr : c.messageCache.get? j <;> simp [hj, folderOf, hr]

theorem UidMapMatches.deleteMessageByAsterId (h : UidMapMatches c) (id : String) :
    UidMapMatches (c.deleteMessageByAsterId id) := by
  refine ⟨(advances_deleteMessageByAsterId c id).sound h.sound, fun j f => ?_⟩
  rw [mapped_deleteMessageByAsterId, folderOf_delete _ id j rfl, h.mapped]
  by_cases hj : j = id <;> simp [hj]

theorem UidMapMatches.deleteEach (h : UidMapMatches c) (ids : List String) :
    UidMapMatches (ids.foldl Cache.deleteMessageByAsterId c) := by
  induction ids generalizing c with
  | nil => exact h
  | cons id ids ih => exact ih (h.deleteMessageByAsterId id)

/-- The message that a UID belongs to. -/
theorem uidOwner_eq_some {uid : Nat} {folder id : String} (hid : c.uidOwner uid folder = some id) :
    c.uidMap.get? (id, folder) = some uid := by
  obtain ⟨⟨⟨i, f⟩, u⟩, hfind, rfl⟩ := Option.map_eq_some_iff.1 hid
  have hmem := List.mem_of_find?_eq_some hfind
  have hprop := List.find?_some hfind
  simp only [decide_eq_true_eq] at hprop
  obtain ⟨rfl, rfl⟩ := hprop
  exact Table.get?_eq_some_iff.2 hmem

theorem UidMapMatches.deleteMessageByUid (h : UidMapMatches c) (uid : Nat) (folder : String) :
    UidMapMatches (c.deleteMessageByUid uid folder) := by
  have hadv := advances_deleteMessageByUid c uid folder
  cases hid : c.uidOwner uid folder with
  | none =>
      rw [Cache.deleteMessageByUid, hid]
      exact h
  | some id =>
      -- the only mapping of the message is the one for its folder
      have hrow : folderOf c id = some folder := (h.mapped id folder).1 ⟨uid, uidOwner_eq_some hid⟩
      refine ⟨hadv.sound h.sound, fun j f => ?_⟩
      rw [Cache.deleteMessageByUid, hid, folderOf_delete _ id j rfl]
      simp only [Mapped, mapped_deleteWhere, Bool.and_eq_false_iff, decide_eq_false_iff_not]
      rw [exists_and_right]
      show Mapped c j f ∧ _ ↔ _
      rw [h.mapped]
      by_cases hj : j = id
      · subst hj
        rw [if_pos rfl, hrow]
        constructor
        · rintro ⟨hf, hne⟩
          rcases hne with hne | hne
          · exact absurd rfl hne
          · exact absurd (Option.some.inj hf).symm hne
        · intro hf
          cases hf
      · simp [hj]

theorem folderOf_relocateRows (source target j : String) :
    folderOf (c.relocateRows source target) j =
      if folderOf c j = some source then some target else folderOf c j := by
  rw [folderOf, folderOf, relocateRows, Table.get?_updateWhere]
  cases h : c.messageCache.get? j with
  | none => simp
  | some r => by_cases hr : r.folder = source <;> simp [hr]

theorem mem_folderIds {folder id : String} :
    id ∈ c.folderIds folder ↔ folderOf c id = some folder := by
  simp only [folderIds, folderOf, List.mem_map, List.mem_filter, Option.map_eq_some_iff,
    Table.get?_eq_some_iff]
  constructor
  · rintro ⟨⟨k, r⟩, ⟨hmem, hf⟩, rfl⟩
    exact ⟨r, hmem, by simpa using hf⟩
  · rintro ⟨r, hmem, hf⟩
    exact ⟨(id, r), ⟨hmem, by simpa using hf⟩, rfl⟩

theorem assignEach_spec (folder : String) (ids : List String) (j f : String) :
    folderOf (c.assignEach folder ids) j = folderOf c j ∧
      (Mapped (c.assignEach folder ids) j f ↔ Mapped c j f ∨ j ∈ ids ∧ f = folder) := by
  induction ids generalizing c with
  | nil => simp [assignEach]
  | cons id ids ih =>
      obtain ⟨hfolder, hmap⟩ := ih (c := (c.assignUidIfMissing folder id).1)
      refine ⟨hfolder.trans (folderOf_assign folder id j), hmap.trans ?_⟩
      rw [mapped_assign, List.mem_cons]
      tauto

theorem UidMapMatches.relocateFolderMessages (h : UidMapMatches c) (source target : String) :
    UidMapMatches (c.relocateFolderMessages source target).1 := by
  refine ⟨?_, fun j f => ?_⟩
  · exact ((advances_relocateRows c source target).trans (advances_assignEach _ target _)).sound
      h.sound
  · obtain ⟨hfolder, hmap⟩ := assignEach_spec (c := c.relocateRows source target) target
      (c.folderIds source) j f
    have hrows : Mapped (c.relocateRows source target) j f ↔ Mapped c j f ∧ f ≠ source := by
      simp [Mapped, relocateRows, mapped_deleteWhere]
    rw [Cache.relocateFolderMessages, hfolder, hmap, folderOf_relocateRows, hrows, h.mapped,
      mem_folderIds]
    by_cases hj : folderOf c j = some source
    · -- a moved message lost its mapping and got the new one
      rw [if_pos hj, hj]
      constructor
      · rintro (⟨hf, hne⟩ | ⟨-, rfl⟩)
        · exact absurd (Option.some.inj hf).symm hne
        · rfl
      · intro hf
        exact Or.inr ⟨rfl, (Option.some.inj hf).symm⟩
    · rw [if_neg hj]
      constructor
      · rintro (⟨hf, -⟩ | ⟨hf, -⟩)
        · exact hf
        · exact absurd hf hj
      · intro hf
        refine Or.inl ⟨hf, ?_⟩
        rintro rfl
        exact hj hf

theorem UidMapMatches.recache (h : UidMapMatches c) (json : HeadersJson) :
    UidMapMatches (c.recacheMessagesWithoutMessageId json) := by
  refine h.of_same (fun j => ?_) rfl rfl
  rw [folderOf, folderOf, recacheMessagesWithoutMessageId, Table.get?_updateWhere,
    Option.map_map]
  refine congrArg (fun f => (c.messageCache.get? j).map f) (funext fun r => ?_)
  show (if _ then _ else r : MessageRow).folder = r.folder
  split <;> rfl

end Steps

/-! ## The operations of the bridge -/

section Operations

variable {c : Cache} {json : HeadersJson} {env : Envelopes}

/-- Reconciling flags touches flags only. -/
theorem reconcile_same (db : Database) (item : MailItem) (j : String) :
    folderOf (reconcileServerFlags db item).1.cache j = folderOf db.cache j ∧
      (reconcileServerFlags db item).1.cache.uidMap = db.cache.uidMap ∧
      (reconcileServerFlags db item).1.cache.syncState = db.cache.syncState := by
  unfold reconcileServerFlags
  split
  · exact ⟨rfl, rfl, rfl⟩
  · split
    · exact ⟨rfl, rfl, rfl⟩
    · dsimp only
      split
      · exact ⟨rfl, rfl, rfl⟩
      · refine ⟨?_, rfl, rfl⟩
        exact folderOf_setMessageFlagsById item.id _ j

theorem advances_reconcile (db : Database) (item : MailItem) :
    Advances db.cache.ledger (reconcileServerFlags db item).1.cache.ledger := by
  obtain ⟨-, huid, hsync⟩ := reconcile_same db item ""
  exact advances_of_eq huid hsync

theorem UidMapMatches.reconcile (db : Database) (h : UidMapMatches db.cache) (item : MailItem) :
    UidMapMatches (reconcileServerFlags db item).1.cache :=
  h.of_same (fun j => (reconcile_same db item j).1) (reconcile_same db item "").2.1
    (reconcile_same db item "").2.2

theorem advances_renumberIn (c : Cache) (folder id : String) (uid : Nat) :
    Advances c.ledger (renumberIn c folder id uid).ledger := by
  unfold renumberIn
  dsimp only
  split
  · exact (advances_removeUidMapping c uid folder).trans (advances_assign _ folder id)
  · exact advances_assign c folder id

/-- The row of a cached message, with its folder and its UID there. -/
theorem getCachedMessage_eq_some {id : String} {m : CachedMessage}
    (hm : c.getCachedMessage id = some m) :
    c.messageCache.get? id = some m.row ∧
      m.imapUid = toU32 ((c.uidMap.get? (id, m.row.folder)).getD 0) := by
  obtain ⟨r, hr, rfl⟩ := Option.map_eq_some_iff.1 hm
  exact ⟨hr, rfl⟩

theorem folderOf_of_row {id : String} {r : MessageRow} (hr : c.messageCache.get? id = some r) :
    folderOf c id = some r.folder := by
  rw [folderOf, hr]
  rfl

/-- The repairs keep the match, as long as UIDs fit in a `u32`. -/
theorem UidMapMatches.renumber (h : UidMapMatches c) (id : String)
    (hfit : ∀ f, c.uidCounter f ≤ 2 ^ 32) : UidMapMatches (renumber c id) := by
  unfold Sync.renumber
  split
  · exact h
  · rename_i m hm
    obtain ⟨hr, hu⟩ := getCachedMessage_eq_some hm
    obtain ⟨uid, huid⟩ := (h.mapped id m.row.folder).2 (folderOf_of_row hr)
    have hlt := h.sound.below m.row.folder id uid huid
    rw [hu, huid, Option.getD_some]
    exact h.renumberIn (folderOf_of_row hr) huid (hlt.trans_le (hfit _))

theorem advances_renumber (c : Cache) (id : String) :
    Advances c.ledger (renumber c id).ledger := by
  unfold renumber
  split
  · exact Advances.refl _
  · exact advances_renumberIn c _ id _

/-- Adding the addresses of a message that is filed in `folder`. -/
theorem UidMapMatches.backfill (h : UidMapMatches c) {folder : String} {item : MailItem}
    (hrow : folderOf c item.id = some folder) (hfit : c.uidCounter folder ≤ 2 ^ 32) :
    UidMapMatches (backfillCachedAddresses json env c folder item).1 := by
  unfold backfillCachedAddresses
  split
  · exact h
  · rename_i m hm
    split
    · exact h
    · split
      · exact h
      · rename_i raw isEmpty henv
        have hraw : UidMapMatches (c.setCachedRawHeaders item.id raw) :=
          h.updateMessage item.id (fun r => { r with rawHeaders := some raw }) fun _ => rfl
        dsimp only
        split
        · exact hraw
        · obtain ⟨hr, hu⟩ := getCachedMessage_eq_some hm
          have hf : m.row.folder = folder := by
            rw [folderOf_of_row hr] at hrow
            exact Option.some.inj hrow
          obtain ⟨uid, huid⟩ := (h.mapped item.id folder).2 hrow
          have hlt := h.sound.below folder item.id uid huid
          rw [hu, hf, huid, Option.getD_some]
          refine hraw.renumberIn ?_ huid (hlt.trans_le hfit)
          rw [setCachedRawHeaders, folderOf_updateMessage_same
            (fun r => { r with rawHeaders := some raw }) (fun _ => rfl)]
          exact hrow

theorem advances_backfill (c : Cache) (folder : String) (item : MailItem) :
    Advances c.ledger (backfillCachedAddresses json env c folder item).1.ledger := by
  unfold backfillCachedAddresses
  split
  · exact Advances.refl _
  · split
    · exact Advances.refl _
    · split
      · exact Advances.refl _
      · rename_i raw isEmpty henv
        have hraw : Advances c.ledger (c.setCachedRawHeaders item.id raw).ledger :=
          advances_of_eq rfl rfl
        dsimp only
        split
        · exact hraw
        · exact hraw.trans (advances_renumberIn _ folder item.id _)

/-- `prepare_mail_item` keeps the match for every item and folder. -/
theorem UidMapMatches.prepare {db : Database} (h : UidMapMatches db.cache) (folder : String)
    (item : MailItem) (hfit : ∀ f, db.cache.uidCounter f < 2 ^ 32) :
    UidMapMatches (prepareMailItem json env db folder item).1.cache := by
  unfold prepareMailItem
  split
  · exact h
  · split
    · rename_i hbody
      obtain ⟨r, hr⟩ : ∃ r, db.cache.messageCache.get? item.id = some r := by
        cases hr : db.cache.messageCache.get? item.id with
        | none => simp [bodyCached, hr] at hbody
        | some r => exact ⟨r, rfl⟩
      obtain ⟨hfile, hrow⟩ := h.file folder (folderOf_of_row hr)
      -- filing issues at most one UID, so the counter still fits
      have hcounter : ((db.cache.setFolderIfChanged item.id folder).assignUidIfMissing folder
          item.id).1.uidCounter folder ≤ 2 ^ 32 := by
        have hset : (db.cache.setFolderIfChanged item.id folder).uidCounter folder =
            db.cache.uidCounter folder := by
          unfold setFolderIfChanged
          split
          · rfl
          · split <;> rfl
        have hsound := (advances_setFolderIfChanged db.cache item.id folder).sound h.sound
        have hlt := hfit folder
        cases hmap : (db.cache.setFolderIfChanged item.id folder).uidMap.get?
            (item.id, folder) with
        | some uid =>
            rw [assignUidIfMissing_of_some hmap, hset]
            omega
        | none =>
            rw [uidCounter_assign hmap, if_pos rfl, nextUid_eq hsound, hset]
            omega
      have hback : UidMapMatches (backfillCachedAddresses json env _ folder item).1 :=
        hfile.backfill hrow hcounter
      exact UidMapMatches.reconcile { db with cache := _ } hback item
    · split <;> exact h

theorem advances_prepare (db : Database) (folder : String) (item : MailItem) :
    Advances db.cache.ledger (prepareMailItem json env db folder item).1.cache.ledger := by
  unfold prepareMailItem
  split
  · exact Advances.refl _
  · split
    · have h₁ := (advances_setFolderIfChanged db.cache item.id folder).trans
        (advances_assign _ folder item.id)
      have h₂ : Advances _ (backfillCachedAddresses json env _ folder item).1.ledger :=
        h₁.trans (advances_backfill _ folder item)
      exact h₂.trans (advances_reconcile { db with cache := _ } item)
    · split <;> exact Advances.refl _

/-- The row that `commit_prepared` writes before it asks for a UID. -/
theorem commit_row (now : String) (db : Database) (folder : String) (item : MailItem)
    (p : PreparedMessage) :
    ∃ c' : Cache, (commitPrepared now db folder item p).1 =
        (reconcileServerFlags
          { db with cache := (c'.assignUidIfMissing folder item.id).1 } item).1 ∧
      (∀ j, folderOf c' j = if j = item.id then some folder else folderOf db.cache j) ∧
      c'.uidMap = db.cache.uidMap ∧ c'.syncState = db.cache.syncState := by
  have hsync : (db.cache.upsertCachedMessage now item.id folder p.values).1.syncState =
      db.cache.syncState := by
    unfold upsertCachedMessage
    split <;> rfl
  refine ⟨if p.bareMessageId.isSome then
      (db.cache.upsertCachedMessage now item.id folder p.values).1.updateMessageThreadAndMsgid
        item.id none p.bareMessageId
    else (db.cache.upsertCachedMessage now item.id folder p.values).1, rfl, ?_, ?_, ?_⟩
  · intro j
    rw [← folderOf_upsert now item.id folder p.values j]
    split
    · exact folderOf_updateMessage_same
        (fun r => { r with
          threadId := none.or r.threadId, messageId := p.bareMessageId.or r.messageId })
        (fun _ => rfl) item.id j
    · rfl
  · rw [← uidMap_upsert (c := db.cache) now item.id folder p.values]
    split <;> rfl
  · rw [← hsync]
    split <;> rfl

/-- `commit_prepared` keeps the match for a message that is new or stays in its
folder. -/
theorem UidMapMatches.commit {db : Database} (h : UidMapMatches db.cache) (now folder : String)
    (item : MailItem) (p : PreparedMessage)
    (hplace : ∀ f ∈ folderOf db.cache item.id, f = folder) :
    UidMapMatches (commitPrepared now db folder item p).1.cache := by
  obtain ⟨c', heq, hfolder, huid, hsync⟩ := commit_row now db folder item p
  rw [heq]
  exact UidMapMatches.reconcile { db with cache := _ }
    (h.store hplace hfolder huid hsync) item

theorem advances_commit (now : String) (db : Database) (folder : String) (item : MailItem)
    (p : PreparedMessage) :
    Advances db.cache.ledger (commitPrepared now db folder item p).1.cache.ledger := by
  obtain ⟨c', heq, -, huid, hsync⟩ := commit_row now db folder item p
  rw [heq]
  exact ((advances_of_eq huid hsync).trans (advances_assign c' folder item.id)).trans
    (advances_reconcile { db with cache := _ } item)

/-- **The defect.** `commit_prepared` of a message that is cached in another folder
leaves the mapping for that folder behind. -/
theorem commit_elsewhere_breaks {db : Database} (h : UidMapMatches db.cache)
    (now folder : String) (item : MailItem) (p : PreparedMessage) {f : String}
    (hrow : folderOf db.cache item.id = some f) (hne : f ≠ folder) :
    ¬ UidMapMatches (commitPrepared now db folder item p).1.cache := by
  obtain ⟨c', heq, hfolder, huid, -⟩ := commit_row now db folder item p
  intro h'
  have hold : Mapped db.cache item.id f := (h.mapped item.id f).2 hrow
  have hleft : Mapped (commitPrepared now db folder item p).1.cache item.id f := by
    rw [heq, Mapped, (reconcile_same { db with cache := _ } item "").2.1]
    refine (mapped_assign folder item.id item.id f).2 (Or.inl ?_)
    rw [Mapped, huid]
    exact hold
  rw [h'.mapped, heq, (reconcile_same { db with cache := _ } item item.id).1,
    folderOf_assign, hfolder, if_pos rfl] at hleft
  exact hne (Option.some.inj hleft).symm

/-- The message that `cache_mail_item` stores, when the body of the item is not
cached and its envelope opens. -/
def opens (env : Envelopes) (c : Cache) (item : MailItem) : Option PreparedMessage :=
  if isValidItemId item.id && !c.bodyCached item.id then env.opened item else none

theorem cacheMailItem_eq (now : String) (db : Database) (folder : String) (item : MailItem) :
    (cacheMailItem json env now db folder item).1 =
      match opens env db.cache item with
      | some p => (commitPrepared now db folder item p).1
      | none => (prepareMailItem json env db folder item).1 := by
  unfold cacheMailItem opens
  by_cases hid : isValidItemId item.id
  · by_cases hbody : db.cache.bodyCached item.id
    · simp [prepareMailItem, hid, hbody]
    · cases hopen : env.opened item <;> simp [prepareMailItem, hid, hbody, hopen]
  · simp [prepareMailItem, hid]

theorem advances_cacheMailItem (now : String) (db : Database) (folder : String)
    (item : MailItem) :
    Advances db.cache.ledger (cacheMailItem json env now db folder item).1.cache.ledger := by
  rw [cacheMailItem_eq]
  split
  · exact advances_commit now db folder item _
  · exact advances_prepare db folder item

/-- A move of `Email/set` keeps the match. -/
theorem UidMapMatches.emailSetMove (h : UidMapMatches c) (id target : String) :
    UidMapMatches (emailSetMove c id target) := by
  unfold Sync.emailSetMove
  split
  · exact h
  · rename_i r hr
    split
    · exact h
    · exact (h.file target (folderOf_of_row hr)).1

theorem advances_emailSetMove (c : Cache) (id target : String) :
    Advances c.ledger (emailSetMove c id target).ledger := by
  unfold emailSetMove
  split
  · exact Advances.refl _
  · split
    · exact Advances.refl _
    · exact (advances_setFolderIfChanged c id target).trans (advances_assign _ target id)

/-! ### Listings and the MOVE batch -/

theorem mem_folderRows {folder : String} {e : Option Nat × String × MessageRow} :
    e ∈ c.folderRows folder ↔ c.messageCache.get? e.2.1 = some e.2.2 ∧ e.2.2.folder = folder ∧
      e.1 = c.uidMap.get? (e.2.1, folder) := by
  rw [folderRows, (List.mergeSort_perm _ _).mem_iff]
  simp only [List.mem_map, List.mem_filter, decide_eq_true_eq, Table.get?_eq_some_iff]
  constructor
  · rintro ⟨row, ⟨hmem, hf⟩, rfl⟩
    exact ⟨hmem, hf, rfl⟩
  · rintro ⟨hmem, hf, hu⟩
    exact ⟨e.2, ⟨hmem, hf⟩, by rw [← hu]⟩

theorem folderRows_ids_nodup (c : Cache) (folder : String) :
    ((c.folderRows folder).map fun e => e.2.1).Nodup := by
  have hperm := (List.mergeSort_perm ((c.messageCache.rows.filter fun e => e.2.folder = folder).map
    fun e => (c.uidMap.get? (e.1, folder), e)) fun a b => uidLe a.1 b.1).map fun e => e.2.1
  rw [folderRows, hperm.nodup_iff, List.map_map]
  exact c.messageCache.nodup.sublist (List.filter_sublist.map _)

theorem uidLe_trans {a b d : Option Nat} (hab : uidLe a b = true) (hbd : uidLe b d = true) :
    uidLe a d = true := by
  cases a with
  | none => rfl
  | some a =>
      cases b with
      | none => cases hab
      | some b =>
          cases d with
          | none => cases hbd
          | some d =>
              simp only [uidLe, decide_eq_true_eq] at hab hbd ⊢
              omega

theorem uidLe_total (a b : Option Nat) : (uidLe a b || uidLe b a) = true := by
  cases a with
  | none => rfl
  | some a =>
      cases b with
      | none => rfl
      | some b =>
          simp only [uidLe, Bool.or_eq_true, decide_eq_true_eq]
          omega

/-- The UIDs of a listing are positive and strictly ascending. -/
theorem listing_uids (h : UidMapMatches c) (folder : String)
    (hfit : c.uidCounter folder ≤ 2 ^ 32) :
    ((c.listCachedMessageMeta folder).map (·.imapUid)).Pairwise (· < ·) ∧
      ∀ u, u ∈ (c.listCachedMessageMeta folder).map (·.imapUid) ↔
        ∃ id, c.uidMap.get? (id, folder) = some u := by
  -- every row of the folder has a UID, and it fits
  have hrow : ∀ e ∈ c.folderRows folder, ∃ u, e.1 = some u ∧ u < 2 ^ 32 ∧
      c.uidMap.get? (e.2.1, folder) = some u := by
    intro e he
    obtain ⟨hr, hf, hu⟩ := mem_folderRows.1 he
    obtain ⟨u, hmap⟩ := (h.mapped e.2.1 folder).2 (by rw [folderOf_of_row hr, hf])
    have hlt := h.sound.below folder e.2.1 u hmap
    exact ⟨u, hu.trans hmap, hlt.trans_le hfit, hmap⟩
  rw [listCachedMessageMeta, List.map_map]
  constructor
  · have hsorted : (c.folderRows folder).Pairwise fun a b => uidLe a.1 b.1 = true := by
      refine List.pairwise_mergeSort ?_ ?_ _
      · intro a b d hab hbd
        exact uidLe_trans hab hbd
      · intro a b
        exact uidLe_total a.1 b.1
    have hids : (c.folderRows folder).Pairwise fun a b => a.2.1 ≠ b.2.1 :=
      List.pairwise_map.1 (folderRows_ids_nodup c folder)
    rw [List.pairwise_map]
    refine (hsorted.and hids).imp_of_mem ?_
    rintro a b ha hb ⟨hle, hne⟩
    obtain ⟨u, hu, hlt, hmap⟩ := hrow a ha
    obtain ⟨v, hv, hlt', hmap'⟩ := hrow b hb
    have hle' : u ≤ v := by simpa [uidLe, hu, hv] using hle
    have huv : u ≠ v := by
      rintro rfl
      exact hne (h.sound.owner folder _ _ u hmap hmap')
    show toU32 (a.1.getD 0) < toU32 (b.1.getD 0)
    rw [hu, hv, Option.getD_some, Option.getD_some, toU32, toU32, Nat.mod_eq_of_lt hlt,
      Nat.mod_eq_of_lt hlt']
    omega
  · intro u
    rw [List.mem_map]
    constructor
    · rintro ⟨e, he, rfl⟩
      obtain ⟨v, hv, hlt, hmap⟩ := hrow e he
      refine ⟨e.2.1, ?_⟩
      show _ = some (toU32 (e.1.getD 0))
      rw [hv, Option.getD_some, toU32, Nat.mod_eq_of_lt hlt, hmap]
    · rintro ⟨id, hmap⟩
      obtain ⟨r, hr, hf⟩ := Option.map_eq_some_iff.1 ((h.mapped id folder).1 ⟨u, hmap⟩)
      have hlt := h.sound.below folder id u hmap
      have hlt' : u < 2 ^ 32 := hlt.trans_le hfit
      refine ⟨(some u, id, r), mem_folderRows.2 ⟨hr, hf, hmap.symm⟩, ?_⟩
      show toU32 ((some u).getD 0) = u
      rw [Option.getD_some, toU32, Nat.mod_eq_of_lt hlt']

/-- What the MOVE batch still has to move: messages of the source folder, each with
its UID there. -/
def Movable (c : Cache) (source : String) (ms : List CachedMessage) : Prop :=
  (ms.map (·.asterId)).Nodup ∧
    ∀ m ∈ ms, c.uidMap.get? (m.asterId, source) = some m.imapUid

theorem movable_listing (h : UidMapMatches c) (source : String)
    (hfit : c.uidCounter source ≤ 2 ^ 32) (hit : Nat → Bool) :
    Movable c source ((c.listCachedMessageMeta source).filter fun m => hit m.imapUid) := by
  constructor
  · have hids : ((c.listCachedMessageMeta source).map (·.asterId)).Nodup := by
      rw [listCachedMessageMeta, List.map_map]
      exact folderRows_ids_nodup c source
    exact hids.sublist (List.filter_sublist.map _)
  · intro m hm
    obtain ⟨e, he, rfl⟩ := List.mem_map.1 (List.mem_of_mem_filter hm)
    obtain ⟨hr, hf, hu⟩ := mem_folderRows.1 he
    obtain ⟨u, hmap⟩ := (h.mapped e.2.1 source).2 (by rw [folderOf_of_row hr, hf])
    have hlt : u < 2 ^ 32 := (h.sound.below source e.2.1 u hmap).trans_le hfit
    show c.uidMap.get? (e.2.1, source) = some (toU32 (e.1.getD 0))
    rw [hu, hmap, Option.getD_some, toU32, Nat.mod_eq_of_lt hlt]

theorem advances_moveMessage (now source target : String) (c : Cache) (m : CachedMessage) :
    Advances c.ledger (moveMessage now source target c m).ledger :=
  ((advances_upsertCachedMessage c now m.asterId target _).trans
    (advances_removeUidMapping _ m.imapUid source)).trans (advances_assign _ target m.asterId)

/-- One message of the batch. -/
theorem UidMapMatches.moveMessage (h : UidMapMatches c) (now : String) {source target : String}
    (hne : target ≠ source) {m : CachedMessage} {ms : List CachedMessage}
    (hm : Movable c source (m :: ms)) :
    UidMapMatches (moveMessage now source target c m) ∧
      Movable (Sync.moveMessage now source target c m) source ms := by
  obtain ⟨hids, huids⟩ := hm
  rw [List.map_cons, List.nodup_cons] at hids
  have huid := huids m List.mem_cons_self
  -- the row changes its folder, the mapping for the source goes, one for the target comes
  set c₁ := (c.upsertCachedMessage now m.asterId target
    { subject := m.row.subject, sender := m.row.sender, recipients := m.row.recipients
      date := m.row.date, size := m.row.size, bodyText := m.row.bodyText
      rawHeaders := m.row.rawHeaders }).1 with hc₁
  have hmap₁ : c₁.uidMap = c.uidMap := uidMap_upsert _ _ _ _
  have hsound₁ : c₁.ledger.Sound := (advances_upsertCachedMessage c now m.asterId target _).sound h.sound
  have huid₁ : c₁.uidMap.get? (m.asterId, source) = some m.imapUid := by rw [hmap₁, huid]
  have hrow : folderOf c m.asterId = some source := (h.mapped _ _).1 ⟨_, huid⟩
  refine ⟨⟨(advances_moveMessage now source target c m).sound h.sound, fun j f => ?_⟩, hids.2, ?_⟩
  · show Mapped ((c₁.removeUidMapping m.imapUid source).assignUidIfMissing target m.asterId).1 j f
      ↔ folderOf ((c₁.removeUidMapping m.imapUid source).assignUidIfMissing target m.asterId).1 j
        = some f
    have hmapped₁ : Mapped c₁ j f ↔ folderOf c j = some f := by rw [Mapped, hmap₁]; exact h.mapped j f
    rw [mapped_assign, folderOf_assign, mapped_removeUidMapping hsound₁ huid₁, hmapped₁]
    show _ ↔ folderOf c₁ j = some f
    rw [hc₁, folderOf_upsert]
    by_cases hj : j = m.asterId
    · subst hj
      rw [if_pos rfl, hrow]
      constructor
      · rintro (⟨hf, hnot⟩ | ⟨-, rfl⟩)
        · exact absurd ⟨rfl, (Option.some.inj hf).symm⟩ hnot
        · rfl
      · intro hf
        exact Or.inr ⟨rfl, (Option.some.inj hf).symm⟩
    · simp [hj]
  · intro m' hm'
    have hid : m'.asterId ≠ m.asterId := fun heq =>
      hids.1 (heq ▸ List.mem_map_of_mem hm')
    have huid' := huids m' (List.mem_cons_of_mem m hm')
    show ((c₁.removeUidMapping m.imapUid source).assignUidIfMissing target
      m.asterId).1.uidMap.get? (m'.asterId, source) = some m'.imapUid
    have hkey : (m'.asterId, source) ≠ (m.asterId, target) := fun hk =>
      hne (Prod.mk.inj hk).2.symm
    rw [get?_uidMap_assign, if_neg hkey, removeUidMapping, mapped_deleteWhere, hmap₁]
    refine ⟨huid', ?_⟩
    have hdiff : m'.imapUid ≠ m.imapUid := fun heq =>
      hid (h.sound.owner source _ _ _ huid' (heq ▸ huid))
    simp [hdiff]

theorem advances_moveEach (now source target : String) (c : Cache) (ms : List CachedMessage) :
    Advances c.ledger (ms.foldl (moveMessage now source target) c).ledger := by
  induction ms generalizing c with
  | nil => exact Advances.refl _
  | cons m ms ih => exact (advances_moveMessage now source target c m).trans (ih _)

theorem UidMapMatches.moveEach (h : UidMapMatches c) (now : String) {source target : String}
    (hne : target ≠ source) (ms : List CachedMessage) (hm : Movable c source ms) :
    UidMapMatches (ms.foldl (Sync.moveMessage now source target) c) := by
  induction ms generalizing c with
  | nil => exact h
  | cons m ms ih =>
      obtain ⟨hnext, hrest⟩ := h.moveMessage now hne hm
      exact ih hnext hrest

/-- The MOVE batch keeps the match, as long as UIDs fit in a `u32`. -/
theorem UidMapMatches.moveMessages (h : UidMapMatches c) (now source target : String)
    (hit : Nat → Bool) (hfit : ∀ f, c.uidCounter f ≤ 2 ^ 32) :
    UidMapMatches (moveMessages now source target hit c) := by
  unfold Sync.moveMessages
  split
  · exact h
  · rename_i hne
    exact h.moveEach now hne _ (movable_listing h source (hfit source) hit)

theorem advances_moveMessages (now source target : String) (hit : Nat → Bool) (c : Cache) :
    Advances c.ledger (moveMessages now source target hit c).ledger := by
  unfold moveMessages
  split
  · exact Advances.refl _
  · exact advances_moveEach now source target c _

end Operations

end AsterBridge.Sync
