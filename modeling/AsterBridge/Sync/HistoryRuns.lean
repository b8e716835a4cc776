import AsterBridge.Lib.Runs
import AsterBridge.Sync.History

/-!
# Runs of the history sweep

The steps of the sweep interleaved with the sync pass, changes of the folders, and whatever else
writes the cache. `history_sweep_is_complete`: a sweep of an unchanged listing that reaches
the end leaves exactly its members, unless a membership is erased on the way. The sweep itself
erases one when it finds a message labelled with another folder
(`swept_member_is_forgotten`).
-/

set_option autoImplicit false

namespace AsterBridge.Sync.History

open AsterBridge.Lib AsterBridge.Lib.Runs AsterBridge.Db AsterBridge.Sync

/-! ## Runs -/

/-- What happens to the database. -/
inductive Event where
  | historyStep (env : SweepEnv) (now : Nat) (first second : PageReply)
      (answer : String → ItemReply)
  | listed (label : String) (ids : List String)
  | moved (folder id : String)
  | noted (label : String) (total : Nat)
  | customFolders (tokens : List String)
  | deleted (id : String)
  | others (db : Database)
  | crashed

/-- One event. Nothing is kept outside of the database, so that a crash loses nothing. -/
def step (s : Sweeper) : Event → Sweeper
  | .historyStep env now first second answer => (historyStep env s now first second answer).1
  | .listed label ids => s.stampListed label ids
  | .moved folder id => { s with tables := s.tables.forgetListingMember folder id }
  | .noted label total => s.noteListingTotal label total
  | .customFolders tokens => { s with customFolders := tokens }
  | .deleted id => { s with tables := s.tables.deleteMessageByAsterId id }
  | .others db => { s with tables := { s.tables with database := db } }
  | .crashed => s

/-- A new database. -/
def start : Sweeper := ⟨⟨Database.empty, Table.empty, Table.empty⟩, [], Table.empty⟩

/-! ## Members of one listing -/

/-- The members of a listing after messages of it were stamped with a round. -/
def Stamped (listing : String) (round : Int) (ids : List String) (h h' : HistoryDb) : Prop :=
  ∀ i, h'.memberRound listing i =
    if i ∈ ids then some (((h.memberRound listing i).map (max · round)).getD round)
    else h.memberRound listing i

section Members

variable {listing l : String} {round : Int} {ids ids' : List String} {h h' h'' : HistoryDb}

theorem stamped_refl (listing : String) (round : Int) (h : HistoryDb) :
    Stamped listing round [] h h :=
  fun _ => (if_neg List.not_mem_nil).symm

theorem stamped_of_eq (heq : ∀ i, h'.memberRound listing i = h.memberRound listing i) :
    Stamped listing round [] h h' :=
  fun i => (heq i).trans (if_neg List.not_mem_nil).symm

theorem Stamped.trans (hs : Stamped listing round ids h h') (hs' : Stamped listing round ids' h' h'') :
    Stamped listing round (ids ++ ids') h h'' := by
  intro i
  rw [hs' i, hs i]
  by_cases hi : i ∈ ids
  · by_cases hi' : i ∈ ids'
    · rw [if_pos hi', if_pos hi, if_pos (List.mem_append_left _ hi)]
      cases h.memberRound listing i <;> simp
    · rw [if_neg hi', if_pos hi, if_pos (List.mem_append_left _ hi)]
  · by_cases hi' : i ∈ ids'
    · rw [if_pos hi', if_neg hi, if_pos (List.mem_append_right _ hi')]
    · rw [if_neg hi', if_neg hi, if_neg (fun hmem => (List.mem_append.1 hmem).elim hi hi')]

theorem stamped_stamp (h : HistoryDb) (listing : String) (ids : List String) (round : Int) :
    Stamped listing round ids h (h.stampListingMembers listing ids round) := by
  intro i
  rw [HistoryDb.memberRound_stamp]
  simp

theorem memberRound_forgetAll (moves : List (String × String)) (h : HistoryDb) (l i : String) :
    (moves.foldl (fun h m => h.forgetListingMember m.1 m.2) h).memberRound l i =
      if (l, i) ∈ moves then none else h.memberRound l i := by
  induction moves generalizing h with
  | nil => simp
  | cons m moves ih =>
      obtain ⟨folder, id⟩ := m
      rw [List.foldl_cons, ih, HistoryDb.memberRound_forget]
      by_cases hm : (l, i) ∈ moves
      · simp [hm]
      · simp [hm]

theorem memberRound_forgetListings (keep stale : List String) (hkeep : l ∈ keep)
    (hstale : ∀ listing ∈ stale, listing ∉ keep) (acc : HistoryDb × Nat) (i : String) :
    (stale.foldl (fun acc listing =>
      let (h, n) := acc.1.finishListingSweep listing lastRound
      (h, acc.2 + n)) acc).1.memberRound l i = acc.1.memberRound l i := by
  induction stale generalizing acc with
  | nil => rfl
  | cons listing stale ih =>
      have hne : l ≠ listing := fun heq => hstale listing List.mem_cons_self (heq ▸ hkeep)
      rw [List.foldl_cons, ih (fun l hl => hstale l (List.mem_cons_of_mem _ hl))]
      dsimp only
      rw [HistoryDb.memberRound_finish]
      cases acc.1.memberRound l i with
      | none => rfl
      | some r => simp [hne]

/-- The members of a listing whose folder is there are not forgotten. -/
theorem memberRound_forgetListingsExcept {keep : List String} (hkeep : l ∈ keep) (h : HistoryDb)
    (i : String) : (h.forgetListingsExcept keep).1.memberRound l i = h.memberRound l i := by
  unfold HistoryDb.forgetListingsExcept
  refine memberRound_forgetListings keep _ hkeep (fun listing hl => ?_) (h, 0) i
  simpa using (List.mem_filter.1 hl).2

end Members

/-! ## Deletions -/

section Prune

variable {answer : String → ItemReply} {h : HistoryDb} {id : String}

theorem memberRound_deleted (hnone : ∀ l, h.memberRound l id = none) (l i : String) :
    (h.deleteMessageByAsterId id).memberRound l i = h.memberRound l i := by
  rw [HistoryDb.memberRound_delete]
  split
  · rename_i heq
    rw [heq, hnone l]
  · rfl

/-- The deletions of departed messages erase no membership. -/
theorem memberRound_pruneQueued (ids : List String) (h : HistoryDb)
    (hnone : ∀ id ∈ ids, ∀ l, h.memberRound l id = none) (l i : String) :
    (pruneQueued answer h ids).1.memberRound l i = h.memberRound l i := by
  induction ids generalizing h with
  | nil => rfl
  | cons id ids ih =>
      have hrest : ∀ j ∈ ids, ∀ l, h.memberRound l j = none :=
        fun j hj => hnone j (List.mem_cons_of_mem _ hj)
      have hdeleted := memberRound_deleted (hnone id List.mem_cons_self)
      unfold pruneQueued
      split
      · exact ih (h.pruneQueueRemove id) hrest
      · split
        · exact ih (h.pruneQueueRemove id) hrest
        · split
          · dsimp only
            rw [ih (h.deleteMessageByAsterId id) fun j hj l => (hdeleted l j).trans (hrest j hj l)]
            exact hdeleted l i
          · split
            · exact ih (h.pruneQueueRemove id) hrest
            · rfl

theorem queued_of_batch {n : Nat} (hid : id ∈ h.pruneQueueBatch n) : h.queued id = true := by
  obtain ⟨⟨k, u⟩, hrow, rfl⟩ := List.mem_map.1 (List.mem_of_mem_take hid)
  unfold HistoryDb.queued Table.contains
  rw [Table.get?_eq_some_iff.2 hrow]
  rfl

theorem memberRound_pruneDeparted (s : Sweeper) (l i : String) :
    (pruneDeparted s answer).1.tables.memberRound l i = s.tables.memberRound l i := by
  unfold pruneDeparted
  dsimp only
  split
  · rfl
  · rename_i id ids hbatch
    have hnone : ∀ j ∈ id :: ids, ∀ l, s.tables.pruneQueueDropListed.memberRound l j = none := by
      intro j hj
      rw [← hbatch] at hj
      exact ((HistoryDb.queued_dropListed _ _).1 (queued_of_batch hj)).2
    exact memberRound_pruneQueued (id :: ids) _ hnone l i

theorem cachedFolder_delete (h : HistoryDb) (id i : String) :
    (h.deleteMessageByAsterId id).cachedFolder i = if i = id then none else h.cachedFolder i := by
  unfold HistoryDb.cachedFolder HistoryDb.deleteMessageByAsterId
  change ((h.database.cache.messageCache.deleteWhere fun k _ => k = id).get? i).map _ = _
  rw [Table.get?_deleteWhere]
  cases h.database.cache.messageCache.get? i with
  | none => simp
  | some r => by_cases heq : i = id <;> simp [heq]

/-- What the loop deletes is on its list, and the server has just reported it gone. -/
theorem deleted_pruneQueued (ids : List String) (h : HistoryDb) {i : String} {f : String}
    (hbefore : h.cachedFolder i = some f)
    (hafter : (pruneQueued answer h ids).1.cachedFolder i = none) :
    i ∈ ids ∧ ∃ e, answer i = .error e ∧ isGone e = true := by
  induction ids generalizing h with
  | nil => exact absurd (hbefore.symm.trans hafter) nofun
  | cons id ids ih =>
      have hrest : ∀ h' : HistoryDb, h'.cachedFolder i = some f →
          (pruneQueued answer h' ids).1.cachedFolder i = none →
            i ∈ id :: ids ∧ ∃ e, answer i = .error e ∧ isGone e = true := by
        intro h' hb ha
        obtain ⟨hmem, hgone⟩ := ih h' hb ha
        exact ⟨List.mem_cons_of_mem _ hmem, hgone⟩
      unfold pruneQueued at hafter
      split at hafter
      · exact hrest (h.pruneQueueRemove id) hbefore hafter
      · split at hafter
        · exact hrest (h.pruneQueueRemove id) hbefore hafter
        · rename_i e hanswer
          split at hafter
          · rename_i hgone
            by_cases hi : i = id
            · exact ⟨hi ▸ List.mem_cons_self, e, hi ▸ hanswer, hgone⟩
            · refine hrest (h.deleteMessageByAsterId id) ?_ hafter
              rw [cachedFolder_delete, if_neg hi, hbefore]
          · split at hafter
            · exact hrest (h.pruneQueueRemove id) hbefore hafter
            · exact absurd (hbefore.symm.trans hafter) nofun

/-- **Only what is queued, unlisted and gone is deleted.** -/
theorem deleted_pruneDeparted (s : Sweeper) {i f : String}
    (hbefore : s.tables.cachedFolder i = some f)
    (hafter : (pruneDeparted s answer).1.tables.cachedFolder i = none) :
    s.tables.queued i = true ∧ (∀ l, s.tables.memberRound l i = none) ∧
      ∃ e, answer i = .error e ∧ isGone e = true := by
  unfold pruneDeparted at hafter
  dsimp only at hafter
  split at hafter
  · exact absurd (hbefore.symm.trans hafter) nofun
  · rename_i id ids hbatch
    obtain ⟨hmem, hgone⟩ := deleted_pruneQueued (id :: ids) s.tables.pruneQueueDropListed hbefore
      hafter
    rw [← hbatch] at hmem
    obtain ⟨hqueued, hnone⟩ := (HistoryDb.queued_dropListed _ _).1 (queued_of_batch hmem)
    exact ⟨hqueued, hnone, hgone⟩

end Prune

/-! ## Pages -/

/-- The position of a walk: an offset in a custom folder, else what the cursor stands for. -/
def position (posOf : String → Nat) (custom : Bool) (state : ListingState) : Nat :=
  if custom then state.offset.toNat else (state.cursor.map posOf).getD 0

/-- A page of the listing `ids` from the position of the walk on, of any size. -/
structure Serves (ids : List String) (posOf : String → Nat) (custom : Bool) (state : ListingState)
    (resp : MailListResponse) : Prop where
  items : ∃ n, resp.items.map (·.id) = (ids.drop (position posOf custom state)).take n
  hasMore : resp.hasMore = true ↔
    position posOf custom state + resp.items.length < ids.length
  cursor : custom = false → resp.hasMore = true → ∃ next, resp.nextCursor = some next ∧
    posOf next = position posOf custom state + resp.items.length

/-- Indexing the page erases no membership of the listing `label`. -/
def KeepsPage (label : String) (env : SweepEnv) (s : Sweeper) (listing : Listing)
    (items : List MailItem) (round : Int) : Prop :=
  ∀ i, (label, i) ∈ movedMembers (pageContext env s.customFolders listing) listing.token.isSome
      s.tables.database items →
    (s.tables.stampListingMembers listing.label ((uniqueItems [] items).map (·.id))
      round).memberRound label i = none

/-- The page is fetched again, with this answer. -/
structure FetchedAgain (env : SweepEnv) (s : Sweeper) (listing : Listing) (state : ListingState)
    (light : MailListResponse) (second : PageReply) (resp : MailListResponse) : Prop where
  eager : state.eager = false
  missing : 0 < (indexPage env s listing light.items state.round true).missing
  second : second = .ok resp

/-- The requests of a step erase no membership of the listing `label`, and if they are about it,
they are answered from `ids`. -/
structure Undisturbed (label : String) (ids : List String) (posOf : String → Nat) (env : SweepEnv)
    (s : Sweeper) (listing : Listing) (state : ListingState) (first second : PageReply) :
    Prop where
  fetched : ∀ resp, first = .ok resp → KeepsPage label env s listing resp.items state.round ∧
    (listing.label = label → Serves ids posOf listing.token.isSome state resp)
  again : ∀ light resp, first = .ok light →
    FetchedAgain env s listing state light second resp →
      KeepsPage label env (indexPage env s listing light.items state.round true).store listing
        resp.items state.round ∧
      (listing.label = label → Serves ids posOf listing.token.isSome state resp)

section Pages

variable {label : String} {ids : List String} {posOf : String → Nat} {env : SweepEnv}
  {s s' : Sweeper} {listing : Listing} {state : ListingState} {items : List MailItem}
  {round : Int} {light : Bool} {resp : MailListResponse}

theorem mem_uniqueIds (seen : List String) (items : List MailItem) (i : String) :
    i ∈ (uniqueItems seen items).map (·.id) ↔
      i ∈ items.map (·.id) ∧ isValidItemId i = true ∧ i ∉ seen := by
  induction items generalizing seen with
  | nil => simp [uniqueItems]
  | cons item items ih =>
      unfold uniqueItems
      split
      · rename_i hnew
        rw [Bool.and_eq_true, Bool.not_eq_true', List.contains_eq_mem, decide_eq_false_iff_not]
          at hnew
        rw [List.map_cons, List.mem_cons, ih, List.map_cons, List.mem_cons, List.mem_cons, not_or]
        by_cases hi : i = item.id
        · rw [hi]
          exact ⟨fun _ => ⟨Or.inl rfl, hnew.1, hnew.2⟩, fun _ => Or.inl rfl⟩
        · simp [hi]
      · rename_i hold
        rw [ih, List.map_cons, List.mem_cons]
        refine and_congr_left fun hvalid => ⟨Or.inr, fun hmem => hmem.resolve_left fun heq => ?_⟩
        apply hold
        rw [Bool.and_eq_true, Bool.not_eq_true', List.contains_eq_mem, decide_eq_false_iff_not,
          ← heq]
        exact hvalid

theorem memberRound_indexPage (hkeep : KeepsPage label env s listing items round) (i : String) :
    (indexPage env s listing items round light).store.tables.memberRound label i =
      (s.tables.stampListingMembers listing.label ((uniqueItems [] items).map (·.id))
        round).memberRound label i := by
  change ((movedMembers _ _ _ items).foldl (fun h m => HistoryDb.forgetListingMember h m.1 m.2)
    (s.tables.stampListingMembers _ _ _)).memberRound label i = _
  rw [memberRound_forgetAll]
  split
  · rename_i hmoved
    exact (hkeep i hmoved).symm
  · rfl

/-- **A page stamps its valid items**, in the listing that it is of. -/
theorem stamped_indexPage (hkeep : KeepsPage label env s listing items round) (light : Bool) :
    Stamped label round (if listing.label = label then (uniqueItems [] items).map (·.id) else [])
      s.tables (indexPage env s listing items round light).store.tables := by
  intro i
  rw [memberRound_indexPage hkeep, HistoryDb.memberRound_stamp]
  by_cases hlabel : listing.label = label
  · rw [if_pos hlabel]
    simp [hlabel]
  · rw [if_neg hlabel, if_neg (fun h => hlabel h.1.symm), if_neg List.not_mem_nil]

theorem states_indexPage (env : SweepEnv) (s : Sweeper) (listing : Listing) (items : List MailItem)
    (round : Int) (light : Bool) :
    (indexPage env s listing items round light).store.states = s.states := rfl

theorem memberRound_recordChanges (s : Sweeper) (created updated destroyed : List String)
    (l i : String) : (recordChanges s created updated destroyed).tables.memberRound l i =
      s.tables.memberRound l i := rfl

theorem cachedFolder_recordChanges (s : Sweeper) (created updated destroyed : List String)
    (i : String) : (recordChanges s created updated destroyed).tables.cachedFolder i =
      s.tables.cachedFolder i := rfl

theorem Serves.mem (h : Serves ids posOf listing.token.isSome state resp) {i : String}
    (hi : i ∈ (uniqueItems [] resp.items).map (·.id)) : isValidItemId i = true ∧ i ∈ ids := by
  obtain ⟨hmem, hvalid, -⟩ := (mem_uniqueIds [] resp.items i).1 hi
  obtain ⟨n, hn⟩ := h.items
  rw [hn] at hmem
  exact ⟨hvalid, List.mem_of_mem_drop (List.mem_of_mem_take hmem)⟩

end Pages

/-- What reading a page does to the members of the listing `label`: it stamps `seen`. -/
structure PageRead (label : String) (ids : List String) (listing : Listing) (round : Int)
    (s s' : Sweeper) (seen : List String) : Prop where
  stamped : Stamped label round seen s.tables s'.tables
  listed : ∀ i ∈ seen, isValidItemId i = true ∧ i ∈ ids
  other : listing.label ≠ label → seen = []
  states : s'.states = s.states

section Fetch

variable {label : String} {ids : List String} {posOf : String → Nat} {env : SweepEnv}
  {s s' : Sweeper} {listing : Listing} {state state' : ListingState} {first second : PageReply}
  {light : Bool} {resp : MailListResponse}

theorem read_indexPage (hkeep : KeepsPage label env s listing resp.items state.round)
    (hserves : listing.label = label → Serves ids posOf listing.token.isSome state resp)
    (light : Bool) :
    ∃ seen, PageRead label ids listing state.round s
        (indexPage env s listing resp.items state.round light).store seen ∧
      (listing.label = label → ∀ i ∈ resp.items.map (·.id), isValidItemId i = true → i ∈ seen) := by
  by_cases hlabel : listing.label = label
  · have hstamped := stamped_indexPage hkeep light
    rw [if_pos hlabel] at hstamped
    refine ⟨_, ⟨hstamped, fun i hi => (hserves hlabel).mem hi, fun hne => absurd hlabel hne, rfl⟩,
      fun _ i hi hvalid => (mem_uniqueIds _ _ _).2 ⟨hi, hvalid, List.not_mem_nil⟩⟩
  · have hstamped := stamped_indexPage hkeep light
    rw [if_neg hlabel] at hstamped
    exact ⟨[], ⟨hstamped, fun i hi => absurd hi List.not_mem_nil, fun _ => rfl, rfl⟩,
      fun h => absurd h hlabel⟩

theorem PageRead.trans {s'' : Sweeper} {seen seen' : List String} {round : Int}
    (h : PageRead label ids listing round s s' seen)
    (h' : PageRead label ids listing round s' s'' seen') :
    PageRead label ids listing round s s'' (seen ++ seen') := by
  refine ⟨h.stamped.trans h'.stamped, fun i hi => ?_, fun hne => ?_, h'.states.trans h.states⟩
  · exact (List.mem_append.1 hi).elim (h.listed i) (h'.listed i)
  · rw [h.other hne, h'.other hne]
    rfl

theorem pageRead_recordChanges {seen : List String} {round : Int}
    (h : PageRead label ids listing round s s' seen) (created updated destroyed : List String) :
    PageRead label ids listing round s (recordChanges s' created updated destroyed) seen :=
  ⟨h.stamped, h.listed, h.other, h.states⟩

/-- A request that fails has stamped at most some members of the listing. -/
theorem fetchPage_failed {e : BridgeError}
    (hu : Undisturbed label ids posOf env s listing state first second)
    (h : fetchPage env s listing state first second = .failed s' e) :
    ∃ seen, PageRead label ids listing state.round s s' seen := by
  unfold fetchPage at h
  split at h
  · cases h
    exact ⟨[], stamped_refl _ _ _, fun i hi => absurd hi List.not_mem_nil, fun _ => rfl, rfl⟩
  · rename_i resp
    dsimp only at h
    split at h
    · rename_i hlight
      rw [Bool.and_eq_true, Bool.not_eq_true'] at hlight
      split at h
      · cases h
        obtain ⟨hkeep, hserves⟩ := hu.fetched resp rfl
        obtain ⟨seen, hread, -⟩ := read_indexPage hkeep hserves (!state.eager)
        exact ⟨seen, pageRead_recordChanges hread _ _ _⟩
      · exact nomatch h
    · exact nomatch h

/-- A page that is indexed has stamped all of its valid items. -/
theorem fetchPage_page (hu : Undisturbed label ids posOf env s listing state first second)
    (h : fetchPage env s listing state first second = .page s' state' resp) :
    ∃ seen, PageRead label ids listing state.round s s' seen ∧
      (∃ eager, state' = { state with eager := eager }) ∧
      (listing.label = label → Serves ids posOf listing.token.isSome state resp ∧
        ∀ i ∈ resp.items.map (·.id), isValidItemId i = true → i ∈ seen) := by
  unfold fetchPage at h
  split at h
  · exact nomatch h
  · rename_i light
    obtain ⟨hkeep, hserves⟩ := hu.fetched light rfl
    dsimp only at h
    split at h
    · rename_i hlight
      rw [Bool.and_eq_true, Bool.not_eq_true', decide_eq_true_eq] at hlight
      obtain ⟨heager, hmissing⟩ := hlight
      rw [heager] at h hmissing
      split at h
      · exact nomatch h
      · rename_i full
        cases h
        obtain ⟨hkeep', hserves'⟩ := hu.again light resp rfl ⟨heager, hmissing, rfl⟩
        obtain ⟨seen, hread, -⟩ := read_indexPage hkeep hserves true
        obtain ⟨seen', hread', hall⟩ := read_indexPage hkeep' hserves' false
        refine ⟨seen ++ seen', pageRead_recordChanges (hread.trans hread') _ _ _, ⟨true, rfl⟩,
          fun hlabel => ⟨hserves' hlabel, fun i hi hvalid => ?_⟩⟩
        exact List.mem_append_right _ (hall hlabel i hi hvalid)
    · cases h
      obtain ⟨seen, hread, hall⟩ := read_indexPage hkeep hserves (!state.eager)
      refine ⟨seen, pageRead_recordChanges hread _ _ _, ?_,
        fun hlabel => ⟨hserves hlabel, hall hlabel⟩⟩
      split
      · exact ⟨false, rfl⟩
      · exact ⟨state.eager, rfl⟩

end Fetch

/-! ## One sweep of an unchanged listing -/

/-- The members of the listing in the round `r`: those `seen` on its pages, and those `marked` by
the sync pass. A `former` member has its row until the sweep is over. -/
structure Members (label : String) (ids : List String) (r : Int) (former : String → Prop)
    (marked seen : List String) (h : HistoryDb) : Prop where
  current : ∀ i ∈ seen, isValidItemId i = true → h.memberRound label i = some r
  stamped : ∀ i ∈ marked, h.memberRound label i = some r
  rounds : ∀ i n, h.memberRound label i = some n →
    n ≤ r ∧ (n = r → (isValidItemId i = true ∧ i ∈ ids) ∨ i ∈ marked)
  kept : ∀ i, former i → (h.memberRound label i).isSome

section Sweep

variable {label : String} {ids : List String} {r : Int} {former : String → Prop}
  {marked seen new : List String} {h h' : HistoryDb}

theorem Members.congr (hm : Members label ids r former marked seen h)
    (heq : ∀ i, h'.memberRound label i = h.memberRound label i) :
    Members label ids r former marked seen h' :=
  ⟨fun i hi hvalid => (heq i).trans (hm.current i hi hvalid),
    fun i hi => (heq i).trans (hm.stamped i hi),
    fun i n hn => hm.rounds i n ((heq i).symm.trans hn),
    fun i hi => by rw [heq i]; exact hm.kept i hi⟩

/-- A member that is stamped with the round of the sweep has that round. -/
theorem Members.stamp (hm : Members label ids r former marked seen h)
    (hs : Stamped label r new h h') (i : String) :
    h'.memberRound label i = if i ∈ new then some r else h.memberRound label i := by
  rw [hs i]
  split
  · cases hn : h.memberRound label i with
    | none => rfl
    | some n => simp [(hm.rounds i n hn).1]
  · rfl

theorem Members.read (hm : Members label ids r former marked seen h)
    (hs : Stamped label r new h h') (hlisted : ∀ i ∈ new, isValidItemId i = true ∧ i ∈ ids) :
    Members label ids r former marked (seen ++ new) h' := by
  have hrow := hm.stamp hs
  refine ⟨fun i hi hvalid => ?_, fun i hi => ?_, fun i n hn => ?_, fun i hi => ?_⟩
  · rw [hrow]
    split
    · rfl
    · rename_i hnew
      exact hm.current i ((List.mem_append.1 hi).resolve_right hnew) hvalid
  · rw [hrow]
    split
    · rfl
    · exact hm.stamped i hi
  · rw [hrow] at hn
    split at hn
    · rename_i hnew
      cases Option.some.inj hn
      exact ⟨le_refl _, fun _ => Or.inl (hlisted i hnew)⟩
    · exact hm.rounds i n hn
  · rw [hrow]
    split
    · rfl
    · exact hm.kept i hi

/-- The sync pass stamps members with the round of the sweep, too. -/
theorem Members.listed (hm : Members label ids r former marked seen h)
    (hs : Stamped label r new h h') :
    Members label ids r former (marked ++ new) seen h' := by
  have hrow := hm.stamp hs
  refine ⟨fun i hi hvalid => ?_, fun i hi => ?_, fun i n hn => ?_, fun i hi => ?_⟩
  · rw [hrow]
    split
    · rfl
    · exact hm.current i hi hvalid
  · rw [hrow]
    split
    · rfl
    · rename_i hnew
      exact hm.stamped i ((List.mem_append.1 hi).resolve_right hnew)
  · rw [hrow] at hn
    split at hn
    · rename_i hnew
      cases Option.some.inj hn
      exact ⟨le_refl _, fun _ => Or.inr (List.mem_append_right _ hnew)⟩
    · obtain ⟨hle, hcases⟩ := hm.rounds i n hn
      exact ⟨hle, fun heq => (hcases heq).imp_right (List.mem_append_left _)⟩
  · rw [hrow]
    split
    · rfl
    · exact hm.kept i hi

theorem Members.weaken {seen' : List String} (hm : Members label ids r former marked seen h)
    (hsub : ∀ i ∈ seen', isValidItemId i = true → i ∈ seen) :
    Members label ids r former marked seen' h :=
  ⟨fun i hi hvalid => hm.current i (hsub i hi hvalid) hvalid, hm.stamped, hm.rounds, hm.kept⟩

/-- **Where the sweep stands.** Before it no member has its round; during it the members of the
pages behind the position have; and once it is over nothing more is claimed. -/
inductive Phase (label : String) (ids : List String) (posOf : String → Nat) (r : Int)
    (former : String → Prop) (marked : List String) (s : Sweeper) : Prop where
  | before (sweeping : (s.load label).sweeping = false) (round : (s.load label).round + 1 = r)
      (none : marked = [])
      (older : ∀ i n, s.tables.memberRound label i = some n → n < r)
      (kept : ∀ i, former i → (s.tables.memberRound label i).isSome)
  | during (sweeping : (s.load label).sweeping = true) (round : (s.load label).round = r)
      (members : Members label ids r former marked
        (ids.take (position posOf (!systemLabels.contains label) (s.load label))) s.tables)
  | ended (round : r ≤ (s.load label).round)
      (stopped : (s.load label).round = r → (s.load label).sweeping = false)

/-- What a phase reads of the state of the listing: the position matters during a sweep only. -/
def SameSweep (state state' : ListingState) : Prop :=
  state'.round = state.round ∧ state'.sweeping = state.sweeping ∧
    (state.sweeping = true → state' = state)

theorem sameSweep_refl (state : ListingState) : SameSweep state state := ⟨rfl, rfl, fun _ => rfl⟩

variable {posOf : String → Nat} {s s' : Sweeper}

theorem Phase.congr (hphase : Phase label ids posOf r former marked s)
    (hload : SameSweep (s.load label) (s'.load label))
    (heq : ∀ i, s'.tables.memberRound label i = s.tables.memberRound label i) :
    Phase label ids posOf r former marked s' := by
  obtain ⟨hround, hsweeping, hstate⟩ := hload
  cases hphase with
  | before sweeping round none older kept =>
      exact .before (hsweeping.trans sweeping) ((congrArg (· + 1) hround).trans round) none
        (fun i n hn => older i n ((heq i).symm.trans hn))
        (fun i hi => by rw [heq i]; exact kept i hi)
  | during sweeping round members =>
      refine .during (hsweeping.trans sweeping) (hround.trans round) ?_
      rw [hstate sweeping]
      exact members.congr heq
  | ended round stopped =>
      exact .ended (hround ▸ round) fun h => hsweeping.trans (stopped (hround.symm.trans h))

theorem load_save (s : Sweeper) (label label' : String) (state : ListingState) :
    (s.save label state).load label' = if label' = label then state else s.load label' := by
  unfold Sweeper.save Sweeper.load
  rw [Table.get?_upsert]
  split
  · rfl
  · rfl

theorem load_of_states (h : s'.states = s.states) (label : String) :
    s'.load label = s.load label := by
  unfold Sweeper.load
  rw [h]

theorem isCustom_listings {listing : Listing} (hmem : listing ∈ s.listings) :
    listing.token.isSome = !systemLabels.contains listing.label := by
  unfold Sweeper.listings at hmem
  rcases List.mem_append.1 hmem with hsystem | hcustom
  · obtain ⟨label, hlabel, rfl⟩ := List.mem_map.1 hsystem
    simp [hlabel]
  · obtain ⟨token, -, rfl⟩ := List.mem_map.1 hcustom
    have hnot : Folders.folderLabel token ∉ systemLabels := by
      intro hin
      have hhead : ∀ l ∈ systemLabels, l.toList.take 7 ≠ "folder:".toList := by decide
      apply hhead _ hin
      unfold Folders.folderLabel
      rw [String.toList_append]
      exact List.take_left' rfl
    simp [hnot]

/-! ### A page of the listing -/

variable {env : SweepEnv} {listing : Listing} {state state' : ListingState} {now : Nat}
  {first second : PageReply} {resp : MailListResponse} {custom : Bool}

/-- The members behind the next position are stamped, too. -/
theorem members_page (hm : Members label ids r former marked
      (ids.take (position posOf custom state)) s.tables)
    (hread : PageRead label ids listing r s s' seen) (hserves : Serves ids posOf custom state resp)
    (hall : ∀ i ∈ resp.items.map (·.id), isValidItemId i = true → i ∈ seen) :
    Members label ids r former marked
      (ids.take (position posOf custom state + resp.items.length)) s'.tables := by
  refine (hm.read hread.stamped hread.listed).weaken fun i hi hvalid => ?_
  rw [List.take_add] at hi
  rcases List.mem_append.1 hi with hbefore | hpage
  · exact List.mem_append_left _ hbefore
  · apply List.mem_append_right
    apply hall i _ hvalid
    obtain ⟨n, hn⟩ := hserves.items
    have hlength : resp.items.length ≤ n := by
      have h := congrArg List.length hn
      rw [List.length_map, List.length_take] at h
      omega
    rw [hn]
    exact List.take_subset_take_left _ hlength hpage

/-- An onward page is not the last one. -/
theorem onward_hasMore (h : progress listing state resp = .onward) :
    resp.hasMore = true ∧ (listing.token.isSome = false → resp.nextCursor.isSome = true) := by
  unfold progress at h
  split at h
  · exact nomatch h
  · split at h
    · exact nomatch h
    · split at h
      · exact nomatch h
      · rename_i hend
        unfold reachedEnd at hend
        cases htoken : listing.token with
        | none =>
            rw [htoken] at hend
            simp only [Bool.or_eq_true, Bool.not_eq_true', not_or, Bool.not_eq_false,
              Option.isNone_iff_eq_none] at hend
            exact ⟨hend.1, fun _ => Option.isSome_iff_ne_none.2 hend.2⟩
        | some token =>
            rw [htoken] at hend
            simp only [Bool.not_eq_true', Bool.not_eq_false] at hend
            exact ⟨hend, nofun⟩

/-- A last page reaches the end of the listing. -/
theorem reachedEnd_all (hcustom : listing.token.isSome = custom)
    (hserves : Serves ids posOf custom state resp) (h : progress listing state' resp = .reachedEnd) :
    ids.length ≤ position posOf custom state + resp.items.length := by
  have hend : reachedEnd listing resp = true := by
    unfold progress at h
    split at h
    · exact nomatch h
    · split at h
      · exact nomatch h
      · split at h
        · assumption
        · exact nomatch h
  refine Nat.le_of_not_lt fun hlt => ?_
  have hmore := hserves.hasMore.2 hlt
  unfold reachedEnd at hend
  cases htoken : listing.token with
  | none =>
      rw [htoken] at hend hcustom
      obtain ⟨next, hnext, -⟩ := hserves.cursor hcustom.symm hmore
      rw [hmore, hnext] at hend
      exact Bool.false_ne_true hend
  | some token =>
      rw [htoken, hmore] at hend
      exact Bool.false_ne_true hend

theorem position_onward (hcustom : listing.token.isSome = custom)
    (hserves : Serves ids posOf custom state resp) (h : progress listing state' resp = .onward)
    (after : ListingState) (hcursor : after.cursor = resp.nextCursor)
    (hoffset : after.offset = state.offset + resp.items.length) :
    position posOf custom after ≤ position posOf custom state + resp.items.length := by
  obtain ⟨hmore, hnext⟩ := onward_hasMore h
  cases custom with
  | false =>
      obtain ⟨next, hsome, hpos⟩ := hserves.cursor rfl hmore
      rw [← hpos]
      unfold position
      rw [hcursor, hsome]
      exact le_refl _
  | true =>
      unfold position
      rw [if_pos rfl, if_pos rfl, hoffset]
      omega

/-- **A page of the listing carries the sweep on**, or ends it. -/
theorem phase_finishPage (hlabel : listing.label = label)
    (hcustom : listing.token.isSome = !systemLabels.contains label)
    (hsweeping : state.sweeping = true) (hround : state.round = r)
    (hm : Members label ids r former marked
      (ids.take (position posOf (!systemLabels.contains label) state)) s.tables)
    (hread : PageRead label ids listing r s s' seen)
    (hserves : Serves ids posOf (!systemLabels.contains label) state resp)
    (hall : ∀ i ∈ resp.items.map (·.id), isValidItemId i = true → i ∈ seen) (eager : Bool) :
    Phase label ids posOf r former marked
      (finishPage s' listing { state with eager := eager } resp now) := by
  have hafter := members_page hm hread hserves hall
  unfold finishPage
  dsimp only
  split
  · refine .ended ?_ fun _ => ?_
    · rw [load_save, if_pos hlabel.symm]
      exact le_of_eq hround.symm
    · rw [load_save, if_pos hlabel.symm]
      rfl
  · rename_i honward
    refine .during ?_ ?_ ?_
    · rw [load_save, if_pos hlabel.symm]
      exact hsweeping
    · rw [load_save, if_pos hlabel.symm]
      exact hround
    · rw [load_save, if_pos hlabel.symm]
      refine hafter.weaken fun i hi _ => ?_
      have hpos := position_onward hcustom hserves honward
        { counted { state with eager := eager } resp with
          cursor := resp.nextCursor
          offset := (counted { state with eager := eager } resp).offset + resp.items.length }
        rfl rfl
      exact List.take_subset_take_left _ hpos hi
  all_goals
    refine .ended ?_ fun _ => ?_
    · rw [load_save, if_pos hlabel.symm]
      exact le_of_eq hround.symm
    · rw [load_save, if_pos hlabel.symm]
      rfl

theorem phase_pageFailed (hlabel : listing.label = label)
    (hsweeping : state.sweeping = true) (hround : state.round = r)
    (hm : Members label ids r former marked
      (ids.take (position posOf (!systemLabels.contains label) state)) s.tables)
    (hread : PageRead label ids listing r s s' seen) (e : BridgeError) :
    Phase label ids posOf r former marked (pageFailed s' listing state e) := by
  have hafter := hm.read hread.stamped hread.listed
  unfold pageFailed
  split
  · -- the walk starts again from the first page
    refine .during ?_ ?_ ?_
    · rw [load_save, if_pos hlabel.symm]
      exact hsweeping
    · rw [load_save, if_pos hlabel.symm]
      exact hround
    · rw [load_save, if_pos hlabel.symm]
      refine hafter.weaken fun i hi _ => ?_
      have hzero : position posOf (!systemLabels.contains label)
          { state with cursor := none, offset := 0, walked := 0 } = 0 := by
        unfold position
        cases !systemLabels.contains label <;> rfl
      rw [hzero] at hi
      exact absurd hi List.not_mem_nil
  · refine .during ?_ ?_ ?_
    · rw [load_save, if_pos hlabel.symm]
      exact hsweeping
    · rw [load_save, if_pos hlabel.symm]
      exact hround
    · rw [load_save, if_pos hlabel.symm]
      exact hafter.weaken fun i hi _ => List.mem_append_left _ hi

theorem round_finishPage (s : Sweeper) (listing : Listing) (state : ListingState)
    (resp : MailListResponse) (now : Nat) :
    ((finishPage s listing state resp now).load listing.label).round = state.round := by
  unfold finishPage
  dsimp only
  split
  all_goals rw [load_save, if_pos rfl]; rfl

theorem round_pageFailed (s : Sweeper) (listing : Listing) (state : ListingState)
    (e : BridgeError) : ((pageFailed s listing state e).load listing.label).round =
      state.round := by
  unfold pageFailed
  rw [load_save, if_pos rfl]
  split
  · rfl
  · rfl

/-- A sweep begins in the round after the last one. -/
theorem beginSweep_cases (now : Nat) (hlabel : listing.label = label)
    (hphase : Phase label ids posOf r former marked s) :
    let b := beginSweep s listing now
    (b.2.sweeping = true ∧ b.2.round = r ∧ Members label ids r former marked
      (ids.take (position posOf (!systemLabels.contains label) b.2)) b.1.tables) ∨
      r < b.2.round := by
  unfold beginSweep
  rw [hlabel]
  dsimp only
  cases hphase with
  | before sweeping round none older kept =>
      rw [sweeping, if_neg Bool.false_ne_true]
      refine Or.inl ⟨rfl, round, fun i hi => ?_, fun i hi => ?_, fun i n hn => ?_, kept⟩
      · have hzero : position posOf (!systemLabels.contains label)
            (begun (s.load label) now) = 0 := by
          unfold position
          cases !systemLabels.contains label <;> rfl
        rw [hzero] at hi
        exact absurd hi List.not_mem_nil
      · rw [none] at hi
        exact absurd hi List.not_mem_nil
      · have hlt := older i n hn
        exact ⟨hlt.le, fun heq => absurd heq hlt.ne⟩
  | during sweeping round members =>
      rw [sweeping, if_pos rfl]
      exact Or.inl ⟨sweeping, round, members⟩
  | ended round stopped =>
      split
      · rename_i hsweeping
        refine Or.inr (lt_of_le_of_ne round fun heq => ?_)
        exact absurd (hsweeping.symm.trans (stopped heq.symm)) (by decide)
      · exact Or.inr (lt_of_le_of_lt round (Int.lt_add_one_of_le (le_refl _)))

theorem phase_later {s : Sweeper} (h : r < (s.load label).round) :
    Phase label ids posOf r former marked s :=
  .ended h.le fun heq => absurd heq (ne_of_gt h)

theorem phase_sweepListing (hlabel : listing.label = label)
    (hcustom : listing.token.isSome = !systemLabels.contains label)
    (hphase : Phase label ids posOf r former marked s)
    (hu : Undisturbed label ids posOf env (beginSweep s listing now).1 listing
      (beginSweep s listing now).2 first second) :
    Phase label ids posOf r former marked (sweepListing env s listing now first second).1 := by
  have hbegin := beginSweep_cases now hlabel hphase
  unfold sweepListing
  generalize beginSweep s listing now = b at hu hbegin ⊢
  obtain ⟨b, state⟩ := b
  dsimp only at hu hbegin ⊢
  cases hfetch : fetchPage env b listing state first second with
  | failed s' e =>
      obtain ⟨seen, hread⟩ := fetchPage_failed hu hfetch
      rcases hbegin with ⟨hsweeping, hround, hm⟩ | hlater
      · rw [hround] at hread
        exact phase_pageFailed hlabel hsweeping hround hm hread e
      · apply phase_later
        rw [← hlabel, round_pageFailed]
        exact hlater
  | page s' state' resp =>
      obtain ⟨seen, hread, ⟨eager, rfl⟩, hpage⟩ := fetchPage_page hu hfetch
      obtain ⟨hserves, hall⟩ := hpage hlabel
      rcases hbegin with ⟨hsweeping, hround, hm⟩ | hlater
      · rw [hround] at hread
        rw [hcustom] at hserves
        exact phase_finishPage hlabel hcustom hsweeping hround hm hread hserves hall eager
      · apply phase_later
        rw [← hlabel, round_finishPage]
        exact hlater

/-- The sweep of another listing leaves this one alone. -/
theorem phase_sweepListing_other (hne : listing.label ≠ label)
    (hphase : Phase label ids posOf r former marked s)
    (hu : Undisturbed label ids posOf env (beginSweep s listing now).1 listing
      (beginSweep s listing now).2 first second) :
    Phase label ids posOf r former marked (sweepListing env s listing now first second).1 := by
  have hbegin : Phase label ids posOf r former marked (beginSweep s listing now).1 := by
    unfold beginSweep
    dsimp only
    split
    · exact hphase
    · refine hphase.congr ?_ fun _ => rfl
      rw [load_save, if_neg (Ne.symm hne)]
      exact sameSweep_refl _
  unfold sweepListing
  generalize beginSweep s listing now = b at hu hbegin ⊢
  obtain ⟨b, state⟩ := b
  dsimp only at hu hbegin ⊢
  have hread : ∀ {s' : Sweeper} {seen : List String},
      PageRead label ids listing state.round b s' seen →
        Phase label ids posOf r former marked s' := by
    intro s' seen hread
    refine hbegin.congr ?_ fun i => ?_
    · rw [load_of_states hread.states]
      exact sameSweep_refl _
    · have hstamped := hread.stamped i
      rw [hread.other hne, if_neg List.not_mem_nil] at hstamped
      exact hstamped
  have hsave : ∀ {s' : Sweeper} (state : ListingState),
      Phase label ids posOf r former marked s' →
        Phase label ids posOf r former marked (s'.save listing.label state) := by
    intro s' state hs'
    refine hs'.congr ?_ fun _ => rfl
    rw [load_save, if_neg (Ne.symm hne)]
    exact sameSweep_refl _
  cases hfetch : fetchPage env b listing state first second with
  | failed s' e =>
      obtain ⟨seen, hpage⟩ := fetchPage_failed hu hfetch
      exact hsave _ (hread hpage)
  | page s' state' resp =>
      obtain ⟨seen, hpage, -⟩ := fetchPage_page hu hfetch
      have hs' := hread hpage
      have hfinish : ∀ state'', Phase label ids posOf r former marked
          (Sweeper.save { s' with tables :=
            (s'.tables.finishListingSweep listing.label state'.round).1 } listing.label state'') := by
        intro state''
        refine hsave state'' (hs'.congr (sameSweep_refl _) fun i => ?_)
        rw [HistoryDb.memberRound_finish]
        cases s'.tables.memberRound label i with
        | none => rfl
        | some n => simp [Ne.symm hne]
      change Phase label ids posOf r former marked (finishPage s' listing state' resp now)
      unfold finishPage
      dsimp only
      split
      · exact hsave _ hs'
      · exact hsave _ hs'
      · exact hfinish _
      · exact hfinish _

/-! ### All events -/

/-- **No membership of the listing is erased**, and the server answers from `ids`: the folder of
the listing is there, no message of it is deleted, and none is found to have moved away. -/
def Steady (label : String) (ids : List String) (posOf : String → Nat) (s : Sweeper) :
    Event → Prop
  | .historyStep env now first second _ => label ∈ s.listings.map (·.label) ∧
      ((forgetGone s).2 = 0 → ∀ listing ∈ nextListing (forgetGone s).1 now,
        Undisturbed label ids posOf env (beginSweep (forgetGone s).1 listing now).1 listing
          (beginSweep (forgetGone s).1 listing now).2 first second)
  | .moved folder id => folder = label → s.tables.memberRound label id = none
  | .deleted id => s.tables.memberRound label id = none
  | _ => True

/-- The messages that an event stamps as listed in the round `r`. -/
def markedBy (label : String) (r : Int) (s : Sweeper) : Event → List String
  | .listed l ids => if l = label ∧ (s.load label).round = r then ids.filter isValidItemId else []
  | _ => []

/-- The messages that the sync pass stamps with the round `r` in a run. -/
def markedDuring (label : String) (r : Int) : Sweeper → List Event → List String
  | _, [] => []
  | s, e :: events => markedBy label r s e ++ markedDuring label r (step s e) events

theorem sameSweep_noted (s : Sweeper) (l : String) (total : Nat) :
    SameSweep (s.load label) ((s.noteListingTotal l total).load label) := by
  unfold Sweeper.noteListingTotal
  dsimp only
  split
  · exact sameSweep_refl _
  · rename_i hsweeping
    rw [load_save]
    split
    · rename_i heq
      rw [heq]
      refine ⟨?_, ?_, fun h => absurd h hsweeping⟩
      · split <;> rfl
      · split <;> rfl
    · exact sameSweep_refl _

theorem phase_listed (hphase : Phase label ids posOf r former marked s) (l : String)
    (new : List String) : Phase label ids posOf r former
      (marked ++ markedBy label r s (.listed l new)) (s.stampListed l new) := by
  have hload : (s.stampListed l new).load label = s.load label := rfl
  have hstamped : l = label → Stamped label (s.load label).round (new.filter isValidItemId)
      s.tables (s.stampListed l new).tables := by
    rintro rfl
    exact stamped_stamp _ _ _ _
  have hother : l ≠ label → ∀ i, (s.stampListed l new).tables.memberRound label i =
      s.tables.memberRound label i := by
    intro hne i
    unfold Sweeper.stampListed
    rw [HistoryDb.memberRound_stamp, if_neg (fun h => hne h.1.symm)]
  unfold markedBy
  dsimp only
  by_cases hl : l = label
  · have hs := hstamped hl
    cases hphase with
    | before sweeping round none older kept =>
        have hnot : ¬ (l = label ∧ (s.load label).round = r) := by
          intro h
          omega
        rw [if_neg hnot, List.append_nil]
        refine .before sweeping round none (fun i n hn => ?_) fun i hi => ?_
        · rw [hs i] at hn
          split at hn
          · cases hrow : s.tables.memberRound label i with
            | none =>
                rw [hrow] at hn
                cases Option.some.inj hn
                change (s.load label).round < r
                omega
            | some k =>
                rw [hrow] at hn
                cases Option.some.inj hn
                have hk := older i k hrow
                change max k (s.load label).round < r
                omega
          · exact older i n hn
        · rw [hs i]
          split
          · rfl
          · exact kept i hi
    | during sweeping round members =>
        rw [if_pos ⟨hl, round⟩]
        rw [round] at hs
        exact .during sweeping round (members.listed hs)
    | ended round stopped => exact .ended round stopped
  · rw [if_neg (fun h => hl h.1), List.append_nil]
    exact hphase.congr (hload ▸ sameSweep_refl _) (hother hl)

theorem memberRound_forgetGone (hlabel : label ∈ s.listings.map (·.label)) (i : String) :
    (forgetGone s).1.tables.memberRound label i = s.tables.memberRound label i :=
  memberRound_forgetListingsExcept hlabel s.tables i

theorem nextListing_mem (h : nextListing s now = some listing) : listing ∈ s.listings := by
  unfold nextListing at h
  rcases Option.or_eq_some_iff.1 h with hsweeping | ⟨-, hneeds⟩
  · exact List.mem_of_find?_eq_some hsweeping
  · exact List.mem_of_find?_eq_some hneeds

theorem phase_historyStep {answer : String → ItemReply}
    (hphase : Phase label ids posOf r former marked s)
    (hok : Steady label ids posOf s (.historyStep env now first second answer)) :
    Phase label ids posOf r former marked (historyStep env s now first second answer).1 := by
  obtain ⟨hlabel, hundisturbed⟩ := hok
  have hgone : Phase label ids posOf r former marked (forgetGone s).1 :=
    hphase.congr (sameSweep_refl _) (memberRound_forgetGone hlabel)
  have hprune : Phase label ids posOf r former marked (pruneDeparted (forgetGone s).1 answer).1 := by
    refine hgone.congr ?_ (memberRound_pruneDeparted _ label)
    have hstates : (pruneDeparted (forgetGone s).1 answer).1.states = (forgetGone s).1.states := by
      unfold pruneDeparted
      dsimp only
      split
      · rfl
      · rfl
    rw [load_of_states hstates]
    exact sameSweep_refl _
  unfold historyStep sweepPage
  by_cases hqueued : 0 < (forgetGone s).2
  · simp only [if_pos hqueued]
    exact hgone
  · simp only [if_neg hqueued]
    cases hnext : nextListing (forgetGone s).1 now with
    | none => exact hprune
    | some listing =>
        have hu := hundisturbed (by omega) listing hnext
        have hsweep : Phase label ids posOf r former marked
            (sweepListing env (forgetGone s).1 listing now first second).1 := by
          by_cases hl : listing.label = label
          · have hcustom := isCustom_listings (nextListing_mem hnext)
            rw [hl] at hcustom
            exact phase_sweepListing hl hcustom hgone hu
          · exact phase_sweepListing_other hl hgone hu
        dsimp only
        split
        · rename_i s' hidle
          -- a listing that is swept is never idle
          unfold sweepListing at hidle
          dsimp only at hidle
          split at hidle
          · exact nomatch hidle
          · exact nomatch hidle
        · rename_i s' outcome _ hresult
          rw [hresult] at hsweep
          exact hsweep

/-- **Every event keeps the phase of the sweep**, as long as it erases no membership. -/
theorem phase_step {e : Event} (hphase : Phase label ids posOf r former marked s)
    (hok : Steady label ids posOf s e) :
    Phase label ids posOf r former (marked ++ markedBy label r s e) (step s e) := by
  cases e with
  | historyStep env now first second answer =>
      rw [show markedBy label r s (.historyStep env now first second answer) = [] from rfl,
        List.append_nil]
      exact phase_historyStep hphase hok
  | listed l new => exact phase_listed hphase l new
  | moved folder id =>
      rw [show markedBy label r s (.moved folder id) = [] from rfl, List.append_nil]
      refine hphase.congr (sameSweep_refl _) fun i => ?_
      change (s.tables.forgetListingMember folder id).memberRound label i = _
      rw [HistoryDb.memberRound_forget]
      split
      · rename_i heq
        obtain ⟨rfl, rfl⟩ := Prod.mk.inj heq
        exact (hok rfl).symm
      · rfl
  | noted l total =>
      rw [show markedBy label r s (.noted l total) = [] from rfl, List.append_nil]
      refine hphase.congr (sameSweep_noted s l total) fun i => ?_
      change (s.noteListingTotal l total).tables.memberRound label i = _
      unfold Sweeper.noteListingTotal
      dsimp only
      split
      · rfl
      · rfl
  | customFolders tokens =>
      rw [show markedBy label r s (.customFolders tokens) = [] from rfl, List.append_nil]
      exact hphase.congr (sameSweep_refl _) fun _ => rfl
  | deleted id =>
      rw [show markedBy label r s (.deleted id) = [] from rfl, List.append_nil]
      refine hphase.congr (sameSweep_refl _) fun i => ?_
      change (s.tables.deleteMessageByAsterId id).memberRound label i = _
      rw [HistoryDb.memberRound_delete]
      split
      · rename_i heq
        rw [heq]
        exact hok.symm
      · rfl
  | others db =>
      rw [show markedBy label r s (.others db) = [] from rfl, List.append_nil]
      exact hphase.congr (sameSweep_refl _) fun _ => rfl
  | crashed =>
      rw [show markedBy label r s .crashed = [] from rfl, List.append_nil]
      exact hphase

/-- The phase of a sweep after a run. -/
theorem phase_run (events : List Event) (hphase : Phase label ids posOf r former marked s)
    (hrun : Guarded step (Steady label ids posOf) s events) :
    Phase label ids posOf r former (marked ++ markedDuring label r s events)
      (exec step s events) := by
  induction events generalizing s marked with
  | nil =>
      rw [show markedDuring label r s [] = [] from rfl, List.append_nil]
      exact hphase
  | cons e events ih =>
      rw [show markedDuring label r s (e :: events) =
        markedBy label r s e ++ markedDuring label r (step s e) events from rfl, ← List.append_assoc]
      exact ih (phase_step hphase hrun.1) hrun.2

end Sweep

/-! ## Rounds of all listings -/

/-- No member is ahead of the saved round of its listing. -/
def Bounded (s : Sweeper) : Prop :=
  ∀ l i n, s.tables.memberRound l i = some n → n ≤ (s.load l).round

section Bounds

variable {s s' : Sweeper} {env : SweepEnv} {listing : Listing} {state : ListingState}

theorem Bounded.mono (h : Bounded s) (hrounds : ∀ l, (s.load l).round ≤ (s'.load l).round)
    (hrows : ∀ l i n, s'.tables.memberRound l i = some n → s.tables.memberRound l i = some n) :
    Bounded s' :=
  fun l i n hn => (h l i n (hrows l i n hn)).trans (hrounds l)

theorem bounded_save (h : Bounded s) {label : String}
    (hround : (s.load label).round ≤ state.round) : Bounded (s.save label state) := by
  refine h.mono (fun l => ?_) fun l i n hn => hn
  rw [load_save]
  split
  · rename_i heq
    rw [heq]
    exact hround
  · exact le_refl _

theorem bounded_stamp (h : Bounded s) {label : String} {ids : List String} {round : Int}
    (hround : round ≤ (s.load label).round) {tables : HistoryDb}
    (hrows : ∀ l i n, tables.memberRound l i = some n →
      (s.tables.stampListingMembers label ids round).memberRound l i = some n) :
    Bounded { s with tables } := by
  intro l i n hn
  have hstamped := hrows l i n hn
  rw [HistoryDb.memberRound_stamp] at hstamped
  split at hstamped
  · rename_i hl
    obtain ⟨rfl, -⟩ := hl
    cases hrow : s.tables.memberRound l i with
    | none =>
        rw [hrow] at hstamped
        cases Option.some.inj hstamped
        exact hround
    | some k =>
        rw [hrow] at hstamped
        cases Option.some.inj hstamped
        exact max_le (h l i k hrow) hround
  · exact h l i n hstamped

theorem bounded_indexPage (env : SweepEnv) (h : Bounded s) (items : List MailItem) (light : Bool)
    (hround : state.round ≤ (s.load listing.label).round) :
    Bounded (indexPage env s listing items state.round light).store := by
  refine @bounded_stamp s h listing.label ((uniqueItems [] items).map (·.id)) state.round hround _
    fun l i n hn => ?_
  change ((movedMembers _ _ _ items).foldl (fun h m => HistoryDb.forgetListingMember h m.1 m.2)
    (s.tables.stampListingMembers _ _ _)).memberRound l i = _ at hn
  rw [memberRound_forgetAll] at hn
  split at hn
  · exact nomatch hn
  · exact hn

/-- The store after the requests of a step. -/
def Fetched.store : Fetched → Sweeper
  | .failed s _ => s
  | .page s _ _ => s

theorem states_recordChanges (s : Sweeper) (created updated destroyed : List String) :
    (recordChanges s created updated destroyed).states = s.states := rfl

theorem bounded_recordChanges (h : Bounded s) (created updated destroyed : List String) :
    Bounded (recordChanges s created updated destroyed) :=
  h.mono (fun l => le_of_eq (congrArg ListingState.round
    (load_of_states (states_recordChanges s created updated destroyed) l)).symm)
    fun l i n hn => (memberRound_recordChanges s created updated destroyed l i).symm.trans hn

/-- A page keeps the bound, whatever it holds. -/
theorem bounded_fetchPage (env : SweepEnv) (h : Bounded s)
    (hround : state.round ≤ (s.load listing.label).round) (first second : PageReply) :
    Bounded (fetchPage env s listing state first second).store ∧
      (fetchPage env s listing state first second).store.states = s.states ∧
        ∀ s' state' resp, fetchPage env s listing state first second = .page s' state' resp →
          state'.round = state.round := by
  unfold fetchPage
  cases first with
  | error e =>
      refine ⟨h, rfl, fun _ _ _ hpage => ?_⟩
      injection hpage
  | ok light =>
      have hlight := bounded_indexPage env h light.items (!state.eager) hround
      have hstates := states_indexPage env s listing light.items state.round (!state.eager)
      dsimp only
      generalize indexPage env s listing light.items state.round (!state.eager) = outcome
        at hlight hstates ⊢
      split
      · cases second with
        | error e =>
            dsimp only [Fetched.store]
            refine ⟨bounded_recordChanges hlight _ _ _, (states_recordChanges _ _ _ _).trans hstates,
              fun _ _ _ hpage => ?_⟩
            injection hpage
        | ok full =>
            have hround' : state.round ≤ (outcome.store.load listing.label).round := by
              rw [load_of_states hstates]
              exact hround
            have hfull := bounded_indexPage env hlight full.items false hround'
            have hstates' := (states_indexPage env outcome.store listing full.items state.round
              false).trans hstates
            dsimp only
            generalize indexPage env outcome.store listing full.items state.round false = outcome'
              at hfull hstates' ⊢
            dsimp only [Fetched.store]
            refine ⟨bounded_recordChanges hfull _ _ _,
              (states_recordChanges _ _ _ _).trans hstates', fun s' state' resp hpage => ?_⟩
            injection hpage with _ hstate _
            rw [← hstate]
      · dsimp only [Fetched.store]
        refine ⟨bounded_recordChanges hlight _ _ _, (states_recordChanges _ _ _ _).trans hstates,
          fun s' state' resp hpage => ?_⟩
        injection hpage with _ hstate _
        rw [← hstate]
        split
        · rfl
        · rfl

theorem memberRound_finish_le (h : HistoryDb) (listing : String) (round : Int) {l i : String}
    {n : Int} (hn : (h.finishListingSweep listing round).1.memberRound l i = some n) :
    h.memberRound l i = some n := by
  rw [HistoryDb.memberRound_finish] at hn
  exact (Option.filter_eq_some_iff.1 hn).1

theorem memberRound_forgetGone_le {l i : String} {n : Int}
    (hn : (forgetGone s).1.tables.memberRound l i = some n) :
    s.tables.memberRound l i = some n := by
  have hfold : ∀ (stale : List String) (acc : HistoryDb × Nat),
      (stale.foldl (fun acc listing =>
        let (h, k) := acc.1.finishListingSweep listing lastRound
        (h, acc.2 + k)) acc).1.memberRound l i = some n → acc.1.memberRound l i = some n := by
    intro stale
    induction stale with
    | nil => exact fun acc h => h
    | cons listing stale ih =>
        intro acc h
        let finished := acc.1.finishListingSweep listing lastRound
        exact memberRound_finish_le _ _ _ (ih (finished.1, acc.2 + finished.2) h)
  exact hfold _ (s.tables, 0) hn

theorem bounded_sweepListing (h : Bounded s) (listing : Listing) (now : Nat)
    (first second : PageReply) : Bounded (sweepListing env s listing now first second).1 := by
  have hbegin : Bounded (beginSweep s listing now).1 ∧
      ((beginSweep s listing now).1.load listing.label) = (beginSweep s listing now).2 := by
    unfold beginSweep
    dsimp only
    split
    · exact ⟨h, rfl⟩
    · refine ⟨bounded_save h ?_, ?_⟩
      · change (s.load listing.label).round ≤ (s.load listing.label).round + 1
        omega
      · rw [load_save, if_pos rfl]
  unfold sweepListing
  generalize beginSweep s listing now = b at hbegin ⊢
  obtain ⟨b, state⟩ := b
  obtain ⟨hb, hload⟩ := hbegin
  have hload : b.load listing.label = state := hload
  have hfetch := bounded_fetchPage env hb (le_of_eq (congrArg ListingState.round hload).symm)
    first second
  dsimp only
  cases hpage : fetchPage env b listing state first second with
  | failed s' e =>
      rw [hpage] at hfetch
      have hs' : Bounded s' := hfetch.1
      have hstates : s'.states = b.states := hfetch.2.1
      refine bounded_save hs' ?_
      rw [load_of_states hstates, hload]
      split
      · exact le_refl _
      · exact le_refl _
  | page s' state' resp =>
      have hround := hfetch.2.2 s' state' resp hpage
      rw [hpage] at hfetch
      have hs' : Bounded s' := hfetch.1
      have hstates : s'.states = b.states := hfetch.2.1
      have hsaved : (s'.load listing.label).round ≤ state'.round := by
        rw [load_of_states hstates, hload]
        exact le_of_eq hround.symm
      have hfinished : Bounded { s' with tables :=
          (s'.tables.finishListingSweep listing.label state'.round).1 } :=
        hs'.mono (fun _ => le_refl _) fun l i n hn => memberRound_finish_le _ _ _ hn
      change Bounded (finishPage s' listing state' resp now)
      unfold finishPage
      dsimp only
      split
      · exact bounded_save hs' hsaved
      · exact bounded_save hs' hsaved
      · exact bounded_save hfinished hsaved
      · exact bounded_save hfinished hsaved

theorem bounded_pruneDeparted (h : Bounded s) (answer : String → ItemReply) :
    Bounded (pruneDeparted s answer).1 := by
  refine h.mono (fun l => ?_) fun l i n hn => (memberRound_pruneDeparted s l i).symm.trans hn
  unfold pruneDeparted
  dsimp only
  split
  · exact le_refl _
  · exact le_refl _

theorem bounded_historyStep (h : Bounded s) (now : Nat) (first second : PageReply)
    (answer : String → ItemReply) : Bounded (historyStep env s now first second answer).1 := by
  have hgone : Bounded (forgetGone s).1 :=
    h.mono (fun _ => le_refl _) fun l i n hn => memberRound_forgetGone_le hn
  have hsweep : Bounded (sweepPage env s now first second).1 := by
    unfold sweepPage
    dsimp only
    split
    · exact hgone
    · split
      · exact hgone
      · exact bounded_sweepListing hgone _ _ _ _
  unfold historyStep
  split
  · rename_i s' hidle
    rw [hidle] at hsweep
    exact bounded_pruneDeparted hsweep answer
  · rename_i s' outcome _ hresult
    rw [hresult] at hsweep
    exact hsweep

theorem bounded_step (h : Bounded s) (e : Event) : Bounded (step s e) := by
  cases e with
  | historyStep env now first second answer => exact bounded_historyStep h now first second answer
  | listed label ids => exact bounded_stamp h (le_refl _) fun _ _ _ hn => hn
  | moved folder id =>
      refine h.mono (fun _ => le_refl _) fun l i n hn => ?_
      change (s.tables.forgetListingMember folder id).memberRound l i = some n at hn
      rw [HistoryDb.memberRound_forget] at hn
      split at hn
      · exact nomatch hn
      · exact hn
  | noted label total =>
      refine h.mono (fun l => le_of_eq (sameSweep_noted s label total).1.symm) fun l i n hn => ?_
      change (s.noteListingTotal label total).tables.memberRound l i = some n at hn
      unfold Sweeper.noteListingTotal at hn
      dsimp only at hn
      split at hn
      · exact hn
      · exact hn
  | customFolders tokens => exact h.mono (fun _ => le_refl _) fun _ _ _ hn => hn
  | deleted id =>
      refine h.mono (fun _ => le_refl _) fun l i n hn => ?_
      change (s.tables.deleteMessageByAsterId id).memberRound l i = some n at hn
      rw [HistoryDb.memberRound_delete] at hn
      split at hn
      · exact nomatch hn
      · exact hn
  | others db => exact h.mono (fun _ => le_refl _) fun _ _ _ hn => hn
  | crashed => exact h

theorem bounded_run (events : List Event) : Bounded (exec step start events) :=
  exec_invariant (I := Bounded) (fun _ e h _ => bounded_step h e) (fun _ _ _ hn => nomatch hn)
    (guarded_true step start events)

end Bounds

/-! ## The end of a sweep -/

/-- The event is a step of the sweep of the listing that reaches the end and is no runaway. -/
def Finishes (label : String) (s : Sweeper) : Event → Prop
  | .historyStep env now first second _ => (forgetGone s).2 = 0 ∧
      ∃ listing s' state resp, nextListing (forgetGone s).1 now = some listing ∧
        listing.label = label ∧
        fetchPage env (beginSweep (forgetGone s).1 listing now).1 listing
          (beginSweep (forgetGone s).1 listing now).2 first second = .page s' state resp ∧
        progress listing (counted state resp) resp = .reachedEnd
  | _ => False

/-- What holds of a listing at the end of its sweep: its members are those of the server with
those `marked`, and a former member that is cached and not listed elsewhere is queued. -/
structure Swept (label : String) (ids marked : List String) (former : String → Prop)
    (h : HistoryDb) : Prop where
  members : ∀ i, (h.memberRound label i).isSome = true ↔
    (isValidItemId i = true ∧ i ∈ ids) ∨ i ∈ marked
  departed : ∀ i f, former i → h.memberRound label i = none → h.cachedFolder i = some f →
    f ≠ "drafts" → (∀ l, l ≠ label → h.memberRound l i = none) → h.queued i = true

section Finish

variable {label : String} {ids marked : List String} {r : Int} {former : String → Prop}
  {posOf : String → Nat} {s : Sweeper} {h : HistoryDb} {e : Event}

/-- A finished sweep leaves the members of its round, and queues what has departed. -/
theorem swept_finish (hm : Members label ids r former marked ids h) :
    Swept label ids marked former (h.finishListingSweep label r).1 := by
  have hrow : ∀ i, (h.finishListingSweep label r).1.memberRound label i =
      (h.memberRound label i).filter fun n => !(decide (n < r)) := by
    intro i
    rw [HistoryDb.memberRound_finish]
    simp
  constructor
  · intro i
    rw [hrow]
    constructor
    · intro hsome
      obtain ⟨n, hn⟩ := Option.isSome_iff_exists.1 hsome
      obtain ⟨hn, hle⟩ := Option.filter_eq_some_iff.1 hn
      obtain ⟨hbound, hcases⟩ := hm.rounds i n hn
      apply hcases
      simp only [Bool.not_eq_true', decide_eq_false_iff_not, not_lt] at hle
      exact le_antisymm hbound hle
    · rintro (⟨hvalid, hi⟩ | hi)
      · rw [hm.current i hi hvalid]
        simp
      · rw [hm.stamped i hi]
        simp
  · intro i f hformer hnone hcached hf hother
    rw [hrow] at hnone
    rw [HistoryDb.queued_finish]
    refine Or.inr ((HistoryDb.mem_departed h label r i).2 ⟨?_, ⟨f, hcached, hf⟩, fun l hl => ?_⟩)
    · obtain ⟨n, hn⟩ := Option.isSome_iff_exists.1 (hm.kept i hformer)
      refine ⟨n, hn, ?_⟩
      rw [hn] at hnone
      simpa using hnone
    · have hl' := hother l hl
      rw [HistoryDb.memberRound_finish] at hl'
      cases hn : h.memberRound l i with
      | none => rfl
      | some n =>
          rw [hn] at hl'
          simp [hl] at hl'

theorem finishPage_reachedEnd (s : Sweeper) (listing : Listing) (state : ListingState)
    (resp : MailListResponse) (now : Nat)
    (h : progress listing (counted state resp) resp = .reachedEnd) :
    (finishPage s listing state resp now).tables =
      (s.tables.finishListingSweep listing.label state.round).1 := by
  unfold finishPage
  dsimp only
  rw [h]
  rfl

/-- **The step that ends the sweep** leaves the members of the listing. -/
theorem swept_last (hphase : Phase label ids posOf r former marked s)
    (hok : Steady label ids posOf s e) (hfinishes : Finishes label s e)
    (hround : ((step s e).load label).round = r) :
    Swept label ids marked former (step s e).tables := by
  cases e with
  | historyStep env now first second answer =>
      obtain ⟨hqueued, listing, s', state', resp, hnext, hlabel, hfetch, hend⟩ := hfinishes
      obtain ⟨hthere, hundisturbed⟩ := hok
      have hu := hundisturbed hqueued listing hnext
      have hgone : Phase label ids posOf r former marked (forgetGone s).1 :=
        hphase.congr (sameSweep_refl _) (memberRound_forgetGone hthere)
      have hcustom := isCustom_listings (nextListing_mem hnext)
      have hbegin := beginSweep_cases now hlabel hgone
      have hstep : step s (.historyStep env now first second answer) =
          finishPage s' listing state' resp now := by
        change (historyStep env s now first second answer).1 = _
        unfold historyStep sweepPage sweepListing
        simp only [hqueued, lt_irrefl, if_false, hnext]
        rw [hfetch]
      rw [hstep] at hround ⊢
      obtain ⟨seen, hread, ⟨eager, heager⟩, hpage⟩ := fetchPage_page hu hfetch
      obtain ⟨hserves, hall⟩ := hpage hlabel
      generalize beginSweep (forgetGone s).1 listing now = b at hu hbegin hfetch hread hserves heager
      obtain ⟨b, state⟩ := b
      dsimp only at hu hbegin hfetch hread hserves heager
      have hsaved : state'.round = r := by
        rw [← hround, ← hlabel, round_finishPage]
      have hstate : state.round = r := by
        rw [← hsaved, heager]
      rcases hbegin with ⟨-, -, hm⟩ | hlater
      · rw [hstate] at hread
        rw [hlabel] at hcustom
        rw [hcustom] at hserves
        have hafter := members_page hm hread hserves hall
        rw [List.take_of_length_le (reachedEnd_all hcustom hserves hend)] at hafter
        rw [finishPage_reachedEnd s' listing state' resp now hend, hlabel, hsaved]
        exact swept_finish hafter
      · exact absurd hstate (ne_of_gt hlater)
  | listed l new => exact hfinishes.elim
  | moved folder id => exact hfinishes.elim
  | noted l total => exact hfinishes.elim
  | customFolders tokens => exact hfinishes.elim
  | deleted id => exact hfinishes.elim
  | others db => exact hfinishes.elim
  | crashed => exact hfinishes.elim

end Finish

/-- **The history sweep is safe and complete.** Only a message that is queued, in no listing and
gone is deleted; what is stamped with the current round is not queued; and a sweep of an unchanged
listing that reaches the end leaves exactly its members and queues what has departed, as long as
no membership is erased on the way. -/
theorem history_sweep_is_complete (label : String) (ids : List String) (posOf : String → Nat)
    (before events : List Event) (last : Event) :
    let s := exec step start before
    let r := (s.load label).round + 1
    (∀ (t : Sweeper) (answer : String → ItemReply) (i f : String),
      t.tables.cachedFolder i = some f →
      (pruneDeparted t answer).1.tables.cachedFolder i = none →
        t.tables.queued i = true ∧ (∀ l, t.tables.memberRound l i = none) ∧
          ∃ e, answer i = .error e ∧ isGone e = true) ∧
    (∀ (h : HistoryDb) (round : Int) (i : String) (n : Int),
      h.memberRound label i = some n → round ≤ n →
      (h.finishListingSweep label round).1.queued i = true → h.queued i = true) ∧
    ((s.load label).sweeping = false →
      Guarded step (Steady label ids posOf) s (events ++ [last]) →
      Finishes label (exec step s events) last →
      ((exec step s (events ++ [last])).load label).round = r →
        Swept label ids (markedDuring label r s events)
          (fun i => (s.tables.memberRound label i).isSome = true)
          (exec step s (events ++ [last])).tables) := by
  intro s r
  refine ⟨fun s answer i f hbefore hafter => deleted_pruneDeparted s hbefore hafter, ?_, ?_⟩
  · intro h round i n hn hle hqueued
    rcases (HistoryDb.queued_finish h label round i).1 hqueued with hold | hdeparted
    · exact hold
    · obtain ⟨⟨k, hk, hlt⟩, -⟩ := (HistoryDb.mem_departed h label round i).1 hdeparted
      rw [hn] at hk
      cases Option.some.inj hk
      omega
  · intro hidle hrun hfinishes hround
    have hbounded : Bounded s := bounded_run before
    have hphase : Phase label ids posOf r
        (fun i => (s.tables.memberRound label i).isSome = true) [] s :=
      .before hidle rfl rfl (fun i n hn => Int.lt_add_one_of_le (hbounded label i n hn))
        fun i hi => hi
    rw [guarded_append] at hrun
    have hafter := phase_run events hphase hrun.1
    rw [List.nil_append] at hafter
    rw [exec_append] at hround ⊢
    exact swept_last hafter hrun.2.1 hfinishes hround

/-! ## Concrete sweeps -/

theorem fetchPage_once {env : SweepEnv} {s : Sweeper} {listing : Listing} {state : ListingState}
    {resp : MailListResponse} (second : PageReply) (heager : state.eager = false)
    (hmissing : (indexPage env s listing resp.items state.round true).missing = 0) :
    fetchPage env s listing state (.ok resp) second =
      .page (recordChanges (indexPage env s listing resp.items state.round true).store
        (indexPage env s listing resp.items state.round true).created
        (indexPage env s listing resp.items state.round true).updated []) state resp := by
  unfold fetchPage
  simp only [heager, Bool.not_false, hmissing, lt_irrefl, decide_false, Bool.and_false,
    Bool.false_eq_true, if_false, Bool.not_true, Bool.false_and]

/-- A row of a cached message. -/
def rowIn (folder : String) : MessageRow where
  folder := folder
  subject := none
  sender := none
  recipients := none
  date := none
  flags := 0
  size := 0
  bodyCached := true
  bodyText := some "hi"
  rawHeaders := none
  createdAt := "2026-01-01 00:00:00"
  threadId := none
  messageId := none

/-- A database with one message in a folder. -/
def cachedIn (folder id : String) : Database :=
  Database.empty.onCache fun c => { c with
    messageCache := c.messageCache.insertIgnore id (rowIn folder) }

/-- Items that are labelled with a folder. -/
def labelled (token : String) : SweepEnv where
  json := plainHeaders
  env := plainEnvelopes (some "hi")
  now := "2026-01-01 00:00:00"
  labels _ := [token]

/-- The only page of a listing. -/
def onlyPage (ids : List String) : MailListResponse where
  items := ids.map plainItem
  total := ids.length
  hasMore := false
  nextCursor := none

/-- A step whose requests are answered with this page. -/
def pageStep (ids : List String) : Event :=
  .historyStep (labelled "tok") 1 (.ok (onlyPage ids)) (.ok (onlyPage ids)) fun _ => .ok ()

theorem serves_onlyPage {ids : List String} {posOf : String → Nat} {custom : Bool}
    {state : ListingState} (hpos : position posOf custom state = 0) :
    Serves ids posOf custom state (onlyPage ids) := by
  refine ⟨⟨ids.length, ?_⟩, ?_, fun _ => nofun⟩
  · rw [hpos, List.drop_zero, List.take_length]
    change (ids.map plainItem).map (·.id) = ids
    rw [List.map_map]
    exact List.map_id ids
  · rw [hpos]
    simp [onlyPage]

/-- A message is cached in the inbox, and was listed there. -/
def beforeInbox : List Event := [.others (cachedIn "inbox" "gone"), .listed "inbox" ["gone"]]

/-- The sweep begins with the inbox, finds none of its page cached, and no member to move. -/
theorem inbox_sweep_begins :
    nextListing (forgetGone (exec step start beforeInbox)).1 1 = some ⟨"inbox", none⟩ ∧
    (beginSweep (forgetGone (exec step start beforeInbox)).1 ⟨"inbox", none⟩ 1).2 =
      begun ListingState.default 1 ∧
    (indexPage (labelled "tok")
      (beginSweep (forgetGone (exec step start beforeInbox)).1 ⟨"inbox", none⟩ 1).1 ⟨"inbox", none⟩
      (onlyPage ["m"]).items 1 true).missing = 0 ∧
    movedMembers (pageContext (labelled "tok") [] ⟨"inbox", none⟩) false
      (cachedIn "inbox" "gone") (onlyPage ["m"]).items = [] := by
  decide +kernel

/-- A sweep of the inbox, which now holds another message: the former one is queued. -/
theorem history_sweep_is_complete_inbox :
    (exec step start (beforeInbox ++ [pageStep ["m"]])).tables.queued "gone" = true := by
  obtain ⟨hnext, hbegun, hnone, hmoved⟩ := inbox_sweep_begins
  have hsteady : Guarded step (Steady "inbox" ["m"] fun _ => 0) (exec step start beforeInbox)
      ([] ++ [pageStep ["m"]]) := by
    refine ⟨⟨by decide +kernel, fun _ listing hlisting => ?_⟩, trivial⟩
    rw [hnext] at hlisting
    cases Option.some.inj hlisting
    rw [hbegun]
    refine ⟨fun resp hresp => ?_, fun light resp hlight hagain => ?_⟩
    · cases Except.ok.inj hresp
      refine ⟨fun i hi => ?_, fun _ => serves_onlyPage rfl⟩
      change (_, i) ∈ movedMembers (pageContext (labelled "tok") [] ⟨"inbox", none⟩) false
        (cachedIn "inbox" "gone") (onlyPage ["m"]).items at hi
      rw [hmoved] at hi
      exact absurd hi List.not_mem_nil
    · cases Except.ok.inj hlight
      have hmissing := hagain.missing
      rw [show (begun ListingState.default 1).round = 1 from rfl, hnone] at hmissing
      exact absurd hmissing (lt_irrefl 0)
  have hfinishes : Finishes "inbox" (exec step start beforeInbox) (pageStep ["m"]) := by
    refine ⟨by decide +kernel, ⟨"inbox", none⟩, _, _, _, hnext, rfl,
      fetchPage_once _ ?_ ?_, ?_⟩
    · rw [hbegun]
      rfl
    · rw [hbegun]
      exact hnone
    · rw [hbegun]
      decide +kernel
  have hswept := (history_sweep_is_complete "inbox" ["m"] (fun _ => 0) beforeInbox []
    (pageStep ["m"])).2.2 (by decide +kernel) hsteady hfinishes (by decide +kernel)
  have hqueued := hswept.departed "gone" "inbox" (by decide +kernel) (by decide +kernel)
    (by decide +kernel) (by decide) fun l _ => ?_
  · rw [exec_append]
    exact hqueued
  · have hrows : (exec step (exec step start beforeInbox)
        ([] ++ [pageStep ["m"]])).tables.listingMember.rows = [(("inbox", "m"), 1)] := by
      decide +kernel
    unfold HistoryDb.memberRound
    rw [Table.get?_eq_none_iff]
    intro n hn
    rw [hrows, List.mem_singleton] at hn
    exact absurd (Prod.mk.inj (Prod.mk.inj hn).1).2 (by decide)

/-- **The server answers from `ids`** whenever a page of the listing is fetched. -/
def Served (label : String) (ids : List String) (posOf : String → Nat) (s : Sweeper) :
    Event → Prop
  | .historyStep _ now first second _ => (forgetGone s).2 = 0 →
      ∀ listing ∈ nextListing (forgetGone s).1 now, listing.label = label →
        ∀ resp, first = .ok resp ∨ second = .ok resp →
          Serves ids posOf listing.token.isSome (beginSweep (forgetGone s).1 listing now).2 resp
  | _ => True

/-- The inbox has been swept, and a message that is filed under "sent" is now labelled. -/
def beforeSent : List Event :=
  [.customFolders ["tok"], .others (cachedIn "sent" "m"), pageStep []]

/-- The sweep begins with sent mail and finds none of its page cached. -/
theorem sent_sweep_begins :
    nextListing (forgetGone (exec step start beforeSent)).1 1 = some ⟨"sent", none⟩ ∧
    (beginSweep (forgetGone (exec step start beforeSent)).1 ⟨"sent", none⟩ 1).2 =
      begun ListingState.default 1 ∧
    (indexPage (labelled "tok")
      (beginSweep (forgetGone (exec step start beforeSent)).1 ⟨"sent", none⟩ 1).1 ⟨"sent", none⟩
      (onlyPage ["m"]).items 1 true).missing = 0 := by
  decide +kernel

/-- **A member is forgotten by its own sweep**: the listing of sent mail has the message, which
was cached as sent and is now labelled with a folder. -/
theorem swept_member_is_forgotten :
    ¬ ∀ (label : String) (ids : List String) (posOf : String → Nat) (before events : List Event)
      (last : Event),
      let s := exec step start before
      let r := (s.load label).round + 1
      (s.load label).sweeping = false →
      Guarded step (Served label ids posOf) s (events ++ [last]) →
      Finishes label (exec step s events) last →
      ((exec step s (events ++ [last])).load label).round = r →
        Swept label ids (markedDuring label r s events)
          (fun i => (s.tables.memberRound label i).isSome = true)
          (exec step s (events ++ [last])).tables := by
  obtain ⟨hnext, hbegun, hmissing⟩ := sent_sweep_begins
  intro h
  have hserved : Guarded step (Served "sent" ["m"] fun _ => 0) (exec step start beforeSent)
      ([] ++ [pageStep ["m"]]) := by
    refine ⟨fun _ listing hlisting _ resp hresp => ?_, trivial⟩
    rw [hnext] at hlisting
    cases Option.some.inj hlisting
    have hpage : resp = onlyPage ["m"] := by
      rcases hresp with hresp | hresp
      · exact (Except.ok.inj hresp).symm
      · exact (Except.ok.inj hresp).symm
    rw [hpage]
    apply serves_onlyPage
    rw [hbegun]
    rfl
  have hfinishes : Finishes "sent" (exec step start beforeSent) (pageStep ["m"]) := by
    refine ⟨by decide +kernel, ⟨"sent", none⟩, _, _, _, hnext, rfl,
      fetchPage_once _ ?_ ?_, ?_⟩
    · rw [hbegun]
      rfl
    · rw [hbegun]
      exact hmissing
    · rw [hbegun]
      decide +kernel
  have hswept := h "sent" ["m"] (fun _ => 0) beforeSent [] (pageStep ["m"]) (by decide +kernel)
    hserved hfinishes (by decide +kernel)
  have hmember := (hswept.members "m").2 (Or.inl ⟨by decide +kernel, List.mem_singleton_self _⟩)
  exact absurd hmember (by decide +kernel)

end AsterBridge.Sync.History
