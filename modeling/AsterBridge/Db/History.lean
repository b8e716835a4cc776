import AsterBridge.Db.Database

/-!
# Members of listings and the prune queue

The tables `listing_member` and `history_prune_queue` of `db/history.rs`. A member of a listing
carries the round of the last sweep that has seen it. What a finished sweep has not seen leaves
the listing, and is queued for a check if no other listing has it.
-/

set_option autoImplicit false

namespace AsterBridge.Db

open AsterBridge.Lib

/-- The database with the tables of the history sweep: rounds by listing and message, and the
queue in the order of its rows. -/
structure HistoryDb where
  database : Database
  listingMember : Table (String × String) Int
  pruneQueue : Table String Unit

/-- `i64::MAX` -/
def lastRound : Int := 2 ^ 63 - 1

namespace HistoryDb

/-- The round of a member of a listing. -/
def memberRound (h : HistoryDb) (listing asterId : String) : Option Int :=
  h.listingMember.get? (listing, asterId)

/-- A message is in the queue. -/
def queued (h : HistoryDb) (asterId : String) : Bool := h.pruneQueue.contains asterId

/-- The folder of a cached message. -/
def cachedFolder (h : HistoryDb) (asterId : String) : Option String :=
  (h.database.cache.messageCache.get? asterId).map (·.folder)

/-- One row of `stamp_listing_members`. -/
def stampMember (listing : String) (round : Int) (h : HistoryDb) (asterId : String) : HistoryDb :=
  let stamped := ((h.memberRound listing asterId).map (max · round)).getD round
  { h with listingMember := h.listingMember.upsert (listing, asterId) stamped }

/-- `stamp_listing_members` -/
def stampListingMembers (h : HistoryDb) (listing : String) (asterIds : List String)
    (round : Int) : HistoryDb :=
  asterIds.foldl (stampMember listing round) h

/-- `forget_listing_member` -/
def forgetListingMember (h : HistoryDb) (listing asterId : String) : HistoryDb :=
  { h with listingMember := h.listingMember.deleteWhere fun k _ => k = (listing, asterId) }

/-- `listing_member_count` -/
def listingMemberCount (h : HistoryDb) (listing : String) : Nat :=
  h.listingMember.rows.countP fun e => e.1.1 = listing

/-- A message is a member of a listing other than this one. -/
def listedElsewhere (h : HistoryDb) (listing asterId : String) : Bool :=
  h.listingMember.rows.any fun e => e.1.2 = asterId && e.1.1 ≠ listing

/-- The rows that `QUEUE_DEPARTED_SQL` selects. -/
def departed (h : HistoryDb) (listing : String) (round : Int) : List String :=
  (h.listingMember.rows.filter fun e =>
    e.1.1 = listing && e.2 < round && (h.cachedFolder e.1.2).any (· ≠ "drafts") &&
      !h.listedElsewhere listing e.1.2).map (·.1.2)

/-- `INSERT OR IGNORE` of messages into the queue. -/
def enqueue (h : HistoryDb) (asterIds : List String) : HistoryDb :=
  { h with pruneQueue := asterIds.foldl (fun queue id => queue.insertIgnore id ()) h.pruneQueue }

/-- `finish_listing_sweep`, with the number of messages that are queued. -/
def finishListingSweep (h : HistoryDb) (listing : String) (round : Int) : HistoryDb × Nat :=
  let queue := h.enqueue (h.departed listing round)
  ({ queue with
      listingMember := h.listingMember.deleteWhere fun k r => k.1 = listing && r < round },
    queue.pruneQueue.rows.length - h.pruneQueue.rows.length)

/-- `forget_listings_except`, with the number of messages that are queued. -/
def forgetListingsExcept (h : HistoryDb) (keep : List String) : HistoryDb × Nat :=
  let stale := ((h.listingMember.rows.map (·.1.1)).dedup).filter fun l => !keep.contains l
  stale.foldl (fun acc listing =>
    let (h, n) := acc.1.finishListingSweep listing lastRound
    (h, acc.2 + n)) (h, 0)

/-- `prune_queue_batch` -/
def pruneQueueBatch (h : HistoryDb) (limit : Nat) : List String :=
  (h.pruneQueue.rows.map (·.1)).take limit

/-- `prune_queue_drop_listed` -/
def pruneQueueDropListed (h : HistoryDb) : HistoryDb :=
  { h with pruneQueue := h.pruneQueue.deleteWhere fun id _ =>
      h.listingMember.rows.any fun e => e.1.2 = id }

/-- `prune_queue_remove` -/
def pruneQueueRemove (h : HistoryDb) (asterId : String) : HistoryDb :=
  { h with pruneQueue := h.pruneQueue.deleteWhere fun id _ => id = asterId }

/-- `delete_message_by_aster_id`, with the rows of the history tables. -/
def deleteMessageByAsterId (h : HistoryDb) (asterId : String) : HistoryDb where
  database := h.database.onCache fun c => c.deleteMessageByAsterId asterId
  listingMember := h.listingMember.deleteWhere fun k _ => k.2 = asterId
  pruneQueue := h.pruneQueue.deleteWhere fun id _ => id = asterId

/-! ## What the operations do to members -/

section Members

variable (h : HistoryDb) (listing : String)

theorem memberRound_stampMember (round : Int) (id l i : String) :
    (stampMember listing round h id).memberRound l i =
      if (l, i) = (listing, id) then some (((h.memberRound l i).map (max · round)).getD round)
      else h.memberRound l i := by
  unfold stampMember memberRound
  rw [Table.get?_upsert]
  split
  · rename_i heq
    rw [heq]
  · rfl

theorem memberRound_stamp (round : Int) (ids : List String) (l i : String) :
    (h.stampListingMembers listing ids round).memberRound l i =
      if l = listing ∧ i ∈ ids then some (((h.memberRound l i).map (max · round)).getD round)
      else h.memberRound l i := by
  unfold stampListingMembers
  induction ids generalizing h with
  | nil => simp
  | cons id ids ih =>
      rw [List.foldl_cons, ih, memberRound_stampMember]
      by_cases hhere : (l, i) = (listing, id)
      · obtain ⟨rfl, rfl⟩ := Prod.mk.inj hhere
        rw [if_pos rfl]
        by_cases hmem : i ∈ ids
        · -- the same id again: the larger round stays
          cases h.memberRound l i with
          | none => simp [hmem]
          | some r => simp [hmem]
        · simp [hmem]
      · rw [if_neg hhere]
        have hiff : (l = listing ∧ i ∈ ids) ↔ (l = listing ∧ i ∈ id :: ids) := by
          constructor
          · exact fun ⟨hl, hi⟩ => ⟨hl, List.mem_cons_of_mem _ hi⟩
          · rintro ⟨rfl, hi⟩
            rcases List.mem_cons.1 hi with rfl | hi
            · exact absurd rfl hhere
            · exact ⟨rfl, hi⟩
        simp only [hiff]

theorem memberRound_forget (id l i : String) :
    (h.forgetListingMember listing id).memberRound l i =
      if (l, i) = (listing, id) then none else h.memberRound l i := by
  unfold forgetListingMember memberRound
  rw [Table.get?_deleteWhere]
  cases h.listingMember.get? (l, i) with
  | none => simp
  | some r => by_cases heq : (l, i) = (listing, id) <;> simp [heq]

theorem memberRound_finish (round : Int) (l i : String) :
    (h.finishListingSweep listing round).1.memberRound l i =
      (h.memberRound l i).filter fun r => !(l = listing && r < round) := by
  unfold finishListingSweep memberRound
  rw [Table.get?_deleteWhere]

theorem memberRound_delete (id l i : String) :
    (h.deleteMessageByAsterId id).memberRound l i =
      if i = id then none else h.memberRound l i := by
  unfold deleteMessageByAsterId memberRound
  rw [Table.get?_deleteWhere]
  cases h.listingMember.get? (l, i) with
  | none => simp
  | some r => by_cases heq : i = id <;> simp [heq]

@[simp] theorem memberRound_enqueue (ids : List String) (l i : String) :
    (h.enqueue ids).memberRound l i = h.memberRound l i := rfl

@[simp] theorem memberRound_pruneQueueRemove (id l i : String) :
    (h.pruneQueueRemove id).memberRound l i = h.memberRound l i := rfl

@[simp] theorem memberRound_dropListed (l i : String) :
    h.pruneQueueDropListed.memberRound l i = h.memberRound l i := rfl

end Members

/-! ## What the operations do to the queue -/

section Queue

variable (h : HistoryDb) (listing : String)

theorem queued_enqueue (ids : List String) (i : String) :
    (h.enqueue ids).queued i = true ↔ h.queued i = true ∨ i ∈ ids := by
  unfold enqueue queued Table.contains
  dsimp only
  generalize h.pruneQueue = queue
  induction ids generalizing queue with
  | nil => simp
  | cons id ids ih =>
      rw [List.foldl_cons, ih, Table.get?_insertIgnore, List.mem_cons]
      by_cases hi : i = id
      · simp [hi]
      · simp [hi]

theorem listedElsewhere_iff (id : String) :
    h.listedElsewhere listing id = true ↔ ∃ l, l ≠ listing ∧ (h.memberRound l id).isSome := by
  unfold listedElsewhere memberRound
  rw [List.any_eq_true]
  constructor
  · rintro ⟨⟨⟨l, i⟩, r⟩, hmem, hrow⟩
    rw [Bool.and_eq_true, decide_eq_true_eq, decide_eq_true_eq] at hrow
    obtain ⟨rfl, hl⟩ := hrow
    exact ⟨l, hl, by rw [Table.get?_eq_some_iff.2 hmem]; rfl⟩
  · rintro ⟨l, hl, hsome⟩
    obtain ⟨r, hr⟩ := Option.isSome_iff_exists.1 hsome
    refine ⟨((l, id), r), Table.get?_eq_some_iff.1 hr, ?_⟩
    rw [Bool.and_eq_true, decide_eq_true_eq, decide_eq_true_eq]
    exact ⟨rfl, hl⟩

/-- **What is queued**: a member of an earlier round whose message is cached outside of the
drafts, and that no other listing has. -/
theorem mem_departed (round : Int) (id : String) :
    id ∈ h.departed listing round ↔ (∃ n, h.memberRound listing id = some n ∧ n < round) ∧
      (∃ f, h.cachedFolder id = some f ∧ f ≠ "drafts") ∧
        ∀ l, l ≠ listing → h.memberRound l id = none := by
  have helsewhere : h.listedElsewhere listing id = false ↔
      ∀ l, l ≠ listing → h.memberRound l id = none := by
    rw [← Bool.not_eq_true, listedElsewhere_iff]
    constructor
    · intro hno l hl
      cases hr : h.memberRound l id with
      | none => rfl
      | some r => exact absurd ⟨l, hl, by rw [hr]; rfl⟩ hno
    · rintro hall ⟨l, hl, hsome⟩
      rw [hall l hl] at hsome
      exact nomatch hsome
  have hfolder : (h.cachedFolder id).any (· ≠ "drafts") = true ↔
      ∃ f, h.cachedFolder id = some f ∧ f ≠ "drafts" := by
    cases h.cachedFolder id with
    | none => simp
    | some f => simp
  unfold departed
  rw [List.mem_map]
  constructor
  · rintro ⟨⟨⟨l, i⟩, n⟩, hmem, rfl⟩
    obtain ⟨hrow, hcond⟩ := List.mem_filter.1 hmem
    simp only [Bool.and_eq_true, Bool.not_eq_true', decide_eq_true_eq] at hcond
    obtain ⟨⟨⟨rfl, hn⟩, hcached⟩, hother⟩ := hcond
    exact ⟨⟨n, Table.get?_eq_some_iff.2 hrow, hn⟩, hfolder.1 hcached, helsewhere.1 hother⟩
  · rintro ⟨⟨n, hn, hlt⟩, hcached, hother⟩
    refine ⟨((listing, id), n), List.mem_filter.2 ⟨Table.get?_eq_some_iff.1 hn, ?_⟩, rfl⟩
    simp only [Bool.and_eq_true, Bool.not_eq_true', decide_eq_true_eq]
    exact ⟨⟨⟨trivial, hlt⟩, hfolder.2 hcached⟩, helsewhere.2 hother⟩

theorem queued_finish (round : Int) (id : String) :
    (h.finishListingSweep listing round).1.queued id = true ↔
      h.queued id = true ∨ id ∈ h.departed listing round :=
  queued_enqueue h _ id

theorem queued_dropListed (id : String) : h.pruneQueueDropListed.queued id = true ↔
    h.queued id = true ∧ ∀ l, h.memberRound l id = none := by
  unfold pruneQueueDropListed queued Table.contains memberRound
  rw [Table.get?_deleteWhere]
  have hlisted : (h.listingMember.rows.any fun e => e.1.2 = id) = false ↔
      ∀ l, h.listingMember.get? (l, id) = none := by
    rw [List.any_eq_false]
    constructor
    · intro hno l
      rw [Table.get?_eq_none_iff]
      exact fun r hr => hno ((l, id), r) hr (decide_eq_true rfl)
    · rintro hall ⟨⟨l, i⟩, r⟩ hmem heq
      have hi : i = id := of_decide_eq_true heq
      exact Table.get?_eq_none_iff.1 (hall l) r (hi ▸ hmem)
  rw [← hlisted]
  cases h.pruneQueue.get? id with
  | none => simp
  | some u => simp

end Queue

end HistoryDb

end AsterBridge.Db
