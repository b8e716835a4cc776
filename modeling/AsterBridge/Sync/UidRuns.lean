import AsterBridge.Sync.UidMap

/-!
# Runs of the mail store

A run is any sequence of complete operations of sync, IMAP and JMAP on the cache,
together with a connection that selects folders and reports their changes.
`Consistent` is the invariant: the UID map matches the cache, and the connection's
list is ascending and complete up to the UIDs issued when it last looked.
-/

set_option autoImplicit false

namespace AsterBridge.Sync

open AsterBridge.Lib AsterBridge.Lib.Runs AsterBridge.Lib.Ledger AsterBridge.Lib.Text
  AsterBridge.Db AsterBridge.Db.Cache AsterBridge.Imap

/-- A connection with its selected folder; `seen` is the folder's next UID when the
connection last looked. -/
structure Selected where
  folder : String
  conn : ImapConnection
  seen : Nat

/-- The database and a connection. -/
structure MailStore where
  db : Database
  selected : Option Selected

/-- A complete operation. -/
inductive MailOp where
  | prepareMailItem (env : Envelopes) (folder : String) (item : MailItem)
  | commitPrepared (now folder : String) (item : MailItem) (p : PreparedMessage)
  | cacheMailItem (env : Envelopes) (now folder : String) (item : MailItem)
  | renumber (id : String)
  | moveMessages (now source target : String) (hit : Nat → Bool)
  | emailSetMove (id target : String)
  | deleteMessageByUid (uid : Nat) (folder : String)
  | deleteMessageByAsterId (id : String)
  | relocateFolderMessages (source target : String)
  | recacheMessagesWithoutMessageId
  | trimFoldersToNewest (keep : Nat)
  | select (folder : String)
  | report (expunge : Bool)

namespace MailStore

/-- A new database without a connection. -/
def start : MailStore := ⟨Database.empty, none⟩

/-- The UIDs that the database lists for a folder. -/
def listedUids (c : Cache) (folder : String) : List Nat :=
  (c.listCachedMessageMeta folder).map (·.imapUid)

/-- `handle_select`, as far as it sets the list of the connection. -/
def handleSelect (c : Cache) (folder : String) : Selected :=
  ⟨folder, ⟨listedUids c folder⟩, c.uidCounter folder⟩

/-- `sync_selected`: report the changes of the selected folder. -/
def syncSelected (c : Cache) (expunge : Bool) (w : Selected) : Selected :=
  ⟨w.folder, (w.conn.reportMailboxChanges (listedUids c w.folder) expunge).1,
    c.uidCounter w.folder⟩

/-- One operation. -/
def step (json : HeadersJson) (s : MailStore) : MailOp → MailStore
  | .prepareMailItem env folder item =>
      { s with db := (Sync.prepareMailItem json env s.db folder item).1 }
  | .commitPrepared now folder item p =>
      { s with db := (Sync.commitPrepared now s.db folder item p).1 }
  | .cacheMailItem env now folder item =>
      { s with db := (Sync.cacheMailItem json env now s.db folder item).1 }
  | .renumber id => { s with db := s.db.onCache fun c => Sync.renumber c id }
  | .moveMessages now source target hit =>
      { s with db := s.db.onCache (Sync.moveMessages now source target hit) }
  | .emailSetMove id target => { s with db := s.db.onCache fun c => Sync.emailSetMove c id target }
  | .deleteMessageByUid uid folder =>
      { s with db := s.db.onCache fun c => c.deleteMessageByUid uid folder }
  | .deleteMessageByAsterId id => { s with db := s.db.onCache fun c => c.deleteMessageByAsterId id }
  | .relocateFolderMessages source target =>
      { s with db := s.db.onCache fun c => (c.relocateFolderMessages source target).1 }
  | .recacheMessagesWithoutMessageId =>
      { s with db := s.db.onCache (Cache.recacheMessagesWithoutMessageId json) }
  | .trimFoldersToNewest keep =>
      { s with db := s.db.onCache fun c => (c.trimFoldersToNewest keep).1 }
  | .select folder => { s with selected := some (handleSelect s.db.cache folder) }
  | .report expunge => { s with selected := s.selected.map (syncSelected s.db.cache expunge) }

/-- The next UID of every folder fits in a `u32`. -/
def UidsFit (c : Cache) : Prop := ∀ folder, c.uidCounter folder < 2 ^ 32

/-- The message that an operation stores with `commit_prepared`, and the folder. -/
def stores (s : MailStore) : MailOp → Option (String × String)
  | .commitPrepared _ folder item _ => some (item.id, folder)
  | .cacheMailItem env _ folder item =>
      (opens env s.db.cache item).map fun _ => (item.id, folder)
  | _ => none

/-- `commit_prepared` is not used on a message that is cached in another folder, and
UIDs fit in a `u32`. -/
def StaysInPlace (s : MailStore) (op : MailOp) : Prop :=
  (∀ m ∈ s.stores op, ∀ f ∈ folderOf s.db.cache m.1, f = m.2) ∧ UidsFit s.db.cache

/-- What a connection knows of its folder: its list is ascending, and it has every
UID issued before it last looked that is still mapped. -/
structure Watches (c : Cache) (w : Selected) : Prop where
  sorted : w.conn.uids.Pairwise (· < ·)
  below : ∀ u ∈ w.conn.uids, u < w.seen
  seen_le : w.seen ≤ c.uidCounter w.folder
  complete : ∀ id u, c.uidMap.get? (id, w.folder) = some u → u < w.seen → u ∈ w.conn.uids

/-- The invariant of a run. -/
structure Consistent (s : MailStore) : Prop where
  uids : UidMapMatches s.db.cache
  watching : ∀ w ∈ s.selected, Watches s.db.cache w

theorem consistent_start : Consistent start :=
  ⟨uidMapMatches_empty, fun _ hw => by cases hw⟩

/-! ## Steps -/

/-- New UIDs are above what a connection has seen. -/
theorem Watches.advance {c c' : Cache} {w : Selected} (h : Watches c w)
    (hs : c.ledger.Sound) (hadv : Advances c.ledger c'.ledger) : Watches c' w where
  sorted := h.sorted
  below := h.below
  seen_le := h.seen_le.trans (hadv.next_le hs w.folder)
  complete id u hu hlt := by
    rcases hadv.live hs w.folder id u hu with hold | hnew
    · exact h.complete id u hold hlt
    · have hle : w.seen ≤ u := h.seen_le.trans hnew
      omega

theorem watches_handleSelect {c : Cache} (h : UidMapMatches c) (hfit : UidsFit c)
    (folder : String) : Watches c (handleSelect c folder) := by
  obtain ⟨hsorted, hmem⟩ := listing_uids h folder (hfit folder).le
  refine ⟨hsorted, ?_, le_rfl, ?_⟩
  · intro u hu
    obtain ⟨id, hid⟩ := (hmem u).1 hu
    exact h.sound.below folder id u hid
  · intro id u hu _
    exact (hmem u).2 ⟨id, hu⟩

theorem watches_syncSelected {c : Cache} (h : UidMapMatches c) (hfit : UidsFit c) {w : Selected}
    (hw : Watches c w) (expunge : Bool) : Watches c (syncSelected c expunge w) := by
  obtain ⟨hsorted, hmem⟩ := listing_uids h w.folder (hfit w.folder).le
  -- the kept UIDs, and the listed ones that are not among them
  obtain ⟨kept, hkept, hsub, hin⟩ : ∃ kept,
      (w.conn.reportMailboxChanges (listedUids c w.folder) expunge).1.uids =
        kept ++ (listedUids c w.folder).filter (fun u => u ∉ kept) ∧
      kept.Sublist w.conn.uids ∧
      ∀ u ∈ w.conn.uids, u ∈ listedUids c w.folder → u ∈ kept := by
    cases expunge with
    | false => exact ⟨w.conn.uids, rfl, List.Sublist.refl _, fun u hu _ => hu⟩
    | true =>
        refine ⟨w.conn.uids.filter (· ∈ listedUids c w.folder), ?_, List.filter_sublist, ?_⟩
        · simp only [ImapConnection.reportMailboxChanges, if_true, retainPresent_kept]
        · intro u hu hl
          exact List.mem_filter.2 ⟨hu, by simpa using hl⟩
  have hnew : ∀ u ∈ (listedUids c w.folder).filter (fun u => u ∉ kept), w.seen ≤ u := by
    intro u hu
    obtain ⟨hl, hnot⟩ := List.mem_filter.1 hu
    obtain ⟨id, hid⟩ := (hmem u).1 hl
    by_contra hlt
    have hknown := hw.complete id u hid (by omega)
    exact absurd (hin u hknown hl) (by simpa using hnot)
  have hall : ∀ u, u ∈ (syncSelected c expunge w).conn.uids → u < c.uidCounter w.folder := by
    intro u hu
    rw [syncSelected, hkept, List.mem_append] at hu
    rcases hu with hu | hu
    · exact (hw.below u (hsub.subset hu)).trans_le hw.seen_le
    · obtain ⟨id, hid⟩ := (hmem u).1 (List.mem_filter.1 hu).1
      exact h.sound.below w.folder id u hid
  refine ⟨?_, hall, le_rfl, ?_⟩
  · show (w.conn.reportMailboxChanges (listedUids c w.folder) expunge).1.uids.Pairwise (· < ·)
    rw [hkept, List.pairwise_append]
    refine ⟨hw.sorted.sublist hsub, hsorted.sublist List.filter_sublist, ?_⟩
    intro u hu v hv
    exact (hw.below u (hsub.subset hu)).trans_le (hnew v hv)
  · intro id u hu _
    have hl : u ∈ listedUids c w.folder := (hmem u).2 ⟨id, hu⟩
    rw [syncSelected, hkept, List.mem_append]
    by_cases hk : u ∈ kept
    · exact Or.inl hk
    · exact Or.inr (List.mem_filter.2 ⟨hl, by simpa using hk⟩)

/-- Every operation only issues and revokes UIDs. -/
theorem advances_step (json : HeadersJson) (s : MailStore) (op : MailOp) :
    Advances s.db.cache.ledger (s.step json op).db.cache.ledger := by
  cases op with
  | prepareMailItem env folder item => exact advances_prepare s.db folder item
  | commitPrepared now folder item p => exact advances_commit now s.db folder item p
  | cacheMailItem env now folder item => exact advances_cacheMailItem now s.db folder item
  | renumber id => exact advances_renumber s.db.cache id
  | moveMessages now source target hit =>
      exact advances_moveMessages now source target hit s.db.cache
  | emailSetMove id target => exact advances_emailSetMove s.db.cache id target
  | deleteMessageByUid uid folder => exact advances_deleteMessageByUid s.db.cache uid folder
  | deleteMessageByAsterId id => exact advances_deleteMessageByAsterId s.db.cache id
  | relocateFolderMessages source target =>
      exact (advances_relocateRows s.db.cache source target).trans
        (advances_assignEach _ target _)
  | recacheMessagesWithoutMessageId => exact advances_of_eq rfl rfl
  | trimFoldersToNewest keep => exact advances_deleteEach s.db.cache _
  | select folder => exact Advances.refl _
  | report expunge => exact Advances.refl _

/-- Every operation that stays in place keeps the match of UID map and cache. -/
theorem uidMapMatches_step (json : HeadersJson) (s : MailStore) (op : MailOp)
    (h : UidMapMatches s.db.cache) (hop : StaysInPlace s op) :
    UidMapMatches (s.step json op).db.cache := by
  obtain ⟨hplace, hfit⟩ := hop
  have hfit' : ∀ f, s.db.cache.uidCounter f ≤ 2 ^ 32 := fun f => (hfit f).le
  cases op with
  | prepareMailItem env folder item => exact h.prepare folder item hfit
  | commitPrepared now folder item p => exact h.commit now folder item p (hplace _ rfl)
  | cacheMailItem env now folder item =>
      show UidMapMatches (Sync.cacheMailItem json env now s.db folder item).1.cache
      rw [cacheMailItem_eq]
      cases hopen : opens env s.db.cache item with
      | some p =>
          have hstores : s.stores (.cacheMailItem env now folder item) = some (item.id, folder) := by
            simp [stores, hopen]
          exact h.commit now folder item p (hplace _ hstores)
      | none => exact h.prepare folder item hfit
  | renumber id => exact h.renumber id hfit'
  | moveMessages now source target hit => exact h.moveMessages now source target hit hfit'
  | emailSetMove id target => exact h.emailSetMove id target
  | deleteMessageByUid uid folder => exact h.deleteMessageByUid uid folder
  | deleteMessageByAsterId id => exact h.deleteMessageByAsterId id
  | relocateFolderMessages source target => exact h.relocateFolderMessages source target
  | recacheMessagesWithoutMessageId => exact h.recache json
  | trimFoldersToNewest keep => exact h.deleteEach _
  | select folder => exact h
  | report expunge => exact h

/-- **Step lemma.** An operation that stays in place keeps the store consistent. -/
theorem consistent_step (json : HeadersJson) (s : MailStore) (op : MailOp) (h : Consistent s)
    (hop : StaysInPlace s op) : Consistent (s.step json op) := by
  have huids := uidMapMatches_step json s op h.uids hop
  have hadv := advances_step json s op
  -- an operation on the database leaves the connection alone
  have hsame : (s.step json op).selected = s.selected → Consistent (s.step json op) := by
    intro heq
    refine ⟨huids, fun w hw => ?_⟩
    rw [heq] at hw
    exact (h.watching w hw).advance h.uids.sound hadv
  cases op with
  | select folder =>
      refine ⟨huids, fun w hw => ?_⟩
      obtain rfl : handleSelect s.db.cache folder = w := Option.some.inj hw
      exact watches_handleSelect h.uids hop.2 folder
  | report expunge =>
      refine ⟨huids, fun w hw => ?_⟩
      obtain ⟨w', hw', rfl⟩ := Option.map_eq_some_iff.1 hw
      exact watches_syncSelected h.uids hop.2 (h.watching w' hw') expunge
  | _ => exact hsame rfl

/-! ## Runs -/

/-- A message that left a folder by the middle of a run and is back at its end has a
UID there above every UID that a message of the folder had before. -/
def FreshOnReturn (json : HeadersJson) (ops : List MailOp) : Prop :=
  ∀ before while' after, ops = before ++ while' ++ after → ∀ folder id other old new,
    (exec (step json) start before).db.cache.uidMap.get? (other, folder) = some old →
    (exec (step json) start (before ++ while')).db.cache.uidMap.get? (id, folder) = none →
    (exec (step json) start ops).db.cache.uidMap.get? (id, folder) = some new → old < new

theorem advances_exec (json : HeadersJson) (s : MailStore) (ops : List MailOp) :
    Advances s.db.cache.ledger (exec (step json) s ops).db.cache.ledger :=
  exec_relation (I := fun _ => True)
    (R := fun s t : MailStore => Advances s.db.cache.ledger t.db.cache.ledger)
    (fun _ => Advances.refl _) (fun _ _ _ h h' => Advances.trans h h') (fun _ _ _ _ => trivial)
    (fun s op _ _ => advances_step json s op) trivial (guarded_true _ s ops)

theorem freshOnReturn (json : HeadersJson) (ops : List MailOp) : FreshOnReturn json ops := by
  rintro before while' after rfl folder id other old new hold hnone hnew
  have hsound := (advances_exec json start before).sound sound_empty
  have hmid := advances_exec json (exec (step json) start before) while'
  have hlast := advances_exec json (exec (step json) start (before ++ while')) after
  rw [← exec_append] at hmid hlast
  have hlt := hsound.below folder other old hold
  have hle := hmid.next_le hsound folder
  rcases hlast.live (hmid.sound hsound) folder id new hnew with hsame | hge
  · exact absurd (hnone.symm.trans hsame) (by simp)
  · exact (hlt.trans_le hle).trans_le hge

/-- **The UID map matches the cache.** After every run whose operations stay in
place: every cached message has a mapping for its folder and for no other; UIDs of a
listing are strictly ascending and positive; a message that returns to a folder gets a
UID above all earlier ones; the list of a connection is strictly ascending. -/
theorem uid_map_matches (json : HeadersJson) (ops : List MailOp)
    (hrun : Guarded (step json) StaysInPlace start ops) :
    (∀ id folder, Mapped (exec (step json) start ops).db.cache id folder ↔
      folderOf (exec (step json) start ops).db.cache id = some folder) ∧
    (∀ folder, (exec (step json) start ops).db.cache.uidCounter folder ≤ 2 ^ 32 →
      (listedUids (exec (step json) start ops).db.cache folder).Pairwise (· < ·) ∧
        ∀ u ∈ listedUids (exec (step json) start ops).db.cache folder, 1 ≤ u) ∧
    FreshOnReturn json ops ∧
    ∀ w ∈ (exec (step json) start ops).selected, w.conn.uids.Pairwise (· < ·) := by
  have h : Consistent (exec (step json) start ops) :=
    exec_invariant (fun s op => consistent_step json s op) consistent_start hrun
  have hfresh := freshOnReturn json ops
  generalize exec (step json) start ops = s at h ⊢
  refine ⟨h.uids.mapped, fun folder hfit => ?_, hfresh, fun w hw => (h.watching w hw).sorted⟩
  obtain ⟨hsorted, hmem⟩ := listing_uids h.uids folder hfit
  refine ⟨hsorted, fun u hu => ?_⟩
  obtain ⟨id, hid⟩ := (hmem u).1 hu
  exact h.uids.sound.pos folder id u hid

theorem uidsFit_of_rows {c : Cache}
    (h : ∀ e ∈ c.syncState.rows, ((parseInt e.2).getD 0).toNat < 2 ^ 32) : UidsFit c := by
  intro folder
  rw [uidCounter]
  cases hget : c.syncState.get? (uidNextKey folder) with
  | none => simp
  | some text =>
      have hmem := Table.get?_eq_some_iff.1 hget
      have hlt : ((parseInt text).getD 0).toNat < 2 ^ 32 := h (uidNextKey folder, text) hmem
      rw [Option.bind_some]
      omega

/-- A message is stored, leaves the inbox and comes back. -/
def thereAndBack : List MailOp :=
  [.cacheMailItem (plainEnvelopes (some "b")) "2026" "inbox" (plainItem "m"), .select "inbox",
    .emailSetMove "m" "archive", .emailSetMove "m" "inbox"]

theorem uid_map_matches_thereAndBack :
    Mapped (exec (step plainHeaders) start thereAndBack).db.cache "m" "inbox" ↔
      folderOf (exec (step plainHeaders) start thereAndBack).db.cache "m" = some "inbox" :=
  (uid_map_matches plainHeaders thereAndBack
    ⟨⟨by decide +kernel, uidsFit_of_rows (by decide +kernel)⟩,
      ⟨by decide +kernel, uidsFit_of_rows (by decide +kernel)⟩,
      ⟨by decide +kernel, uidsFit_of_rows (by decide +kernel)⟩,
      ⟨by decide +kernel, uidsFit_of_rows (by decide +kernel)⟩, trivial⟩).1 "m" "inbox"

/-- A message without a body is listed in the inbox, and then in the archive. -/
def listedElsewhere : List MailOp :=
  [.cacheMailItem (plainEnvelopes none) "2026" "inbox" (plainItem "m"),
    .cacheMailItem (plainEnvelopes none) "2026" "archive" (plainItem "m")]

/-- The message is in the archive and still has its mapping for the inbox. -/
theorem listedElsewhere_keeps_mapping :
    ¬ ∀ id folder, Mapped (exec (step plainHeaders) start listedElsewhere).db.cache id folder ↔
      folderOf (exec (step plainHeaders) start listedElsewhere).db.cache id = some folder := by
  intro h
  have hleft : Mapped (exec (step plainHeaders) start listedElsewhere).db.cache "m" "inbox" :=
    ⟨1, by decide +kernel⟩
  have hrow : folderOf (exec (step plainHeaders) start listedElsewhere).db.cache "m" =
      some "archive" := by decide +kernel
  rw [h, hrow] at hleft
  exact absurd hleft (by decide)

end MailStore

end AsterBridge.Sync
