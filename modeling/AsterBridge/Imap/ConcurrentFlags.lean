import AsterBridge.Imap.FlagPushes
import AsterBridge.Lib.Serial

/-!
# Flag commands side by side

STORE, a reading FETCH, `Email/set` and the sync writer read the flags of a message in one step
and write all of them in a later one. `setMessageFlagsIfUnchanged` compares before it writes; the
other three write what they made of the flags they had read.

`flag_commands_are_serial` is the result for every interleaving in which those writes find the
flags that were read, or replace them. Without that, a flag set by one connection is undone by
another one that only adds a different flag (`flagged_is_undone`).
-/

set_option autoImplicit false

namespace AsterBridge.Imap.ConcurrentFlags

open AsterBridge.Lib AsterBridge.Lib.Runs AsterBridge.Lib.Serial AsterBridge.Db

/-! ## Changes -/

/-- `keyword_bit` -/
def keywordBit (kw : String) : BitVec 32 :=
  match kw with
  | "$seen" => 1
  | "$answered" => 2
  | "$flagged" => 4
  | "$deleted" => 8
  | "$draft" => 16
  | "$forwarded" => 32
  | _ => 0

/-- The keywords of an `Email/set` patch: the whole object, or single entries. -/
inductive KeywordPatch where
  | keywords (entries : List (String × Bool))
  | entries (entries : List (String × Bool))
deriving DecidableEq, Repr

/-- The loops of `apply_update_patch` over the keywords. -/
def KeywordPatch.newFlags (patch : KeywordPatch) (old : BitVec 32) : BitVec 32 :=
  match patch with
  | .keywords kws => kws.foldl (fun flags kw => if kw.2 then flags ||| keywordBit kw.1 else flags) 0
  | .entries kws => kws.foldl
      (fun flags kw => if kw.2 then flags ||| keywordBit kw.1 else flags &&& ~~~keywordBit kw.1) old

/-- What a command does to the flags of a message. -/
inductive Change where
  | store (op : Int) (mask : BitVec 32)
  | seen
  | patch (patch : KeywordPatch)
deriving DecidableEq, Repr

/-- The flags that a command makes of those it has read. -/
def Change.update (change : Change) (flags : BitVec 64) : BitVec 64 :=
  match change with
  | .store op mask => (applyFlags (flags.setWidth 32) op mask).setWidth 64
  | .seen => if flags.getLsbD 0 then flags else (flags.setWidth 32 ||| 1).setWidth 64
  | .patch keywords =>
      let new := keywords.newFlags (flags.setWidth 32)
      if new = flags.setWidth 32 then flags else new.setWidth 64

/-- A STORE of FLAGS, which ignores the flags it has read. -/
def Change.replaces : Change → Bool
  | .store op _ => op ≠ 1 && op ≠ -1
  | _ => false

/-! ## Writes -/

/-- How a write names its message. -/
inductive Target where
  | uid (uid : Nat) (folder : String)
  | id (asterId : String)
deriving DecidableEq, Repr

/-- A write of flags, with the flags that its command has read. -/
inductive Write where
  | update (target : Target) (read : BitVec 64) (change : Change)
  | compare (asterId : String) (expected flags : BitVec 64)
deriving DecidableEq, Repr

/-- The message of a target. -/
def Target.message (t : Target) (cache : Cache) : Option String :=
  match t with
  | .uid n folder => cache.uidOwner n folder
  | .id asterId => some asterId

/-- The write as the code makes it. -/
def Write.run (w : Write) (cache : Cache) : Cache :=
  match w with
  | .update (.uid uid folder) read change =>
      cache.updateMessageFlags uid folder (change.update read)
  | .update (.id asterId) read change => cache.setMessageFlagsById asterId (change.update read)
  | .compare asterId expected flags =>
      (cache.setMessageFlagsIfUnchanged [(asterId, expected, flags)]).1

/-- The command on its own: what it reads is what it finds. -/
def Write.atomically (w : Write) (cache : Cache) : Cache :=
  match w with
  | .update target _ change =>
      match target.message cache with
      | none => cache
      | some id =>
          match cache.getMessageFlagsById id with
          | none => cache
          | some flags => cache.setMessageFlagsById id (change.update flags)
  | .compare _ _ _ => w.run cache

/-! ## Commands -/

/-- A command: STORE of messages of a folder, a FETCH that marks them read, the keywords of an
`Email/set`, and a page of the sync with the flags that it has merged. -/
inductive Command where
  | store (folder : String) (uids : List Nat) (op : Int) (mask : BitVec 32)
  | fetch (folder : String) (uids : List Nat)
  | emailSet (asterId : String) (patch : KeywordPatch)
  | sync (merged : List (String × BitVec 64))
deriving DecidableEq, Repr

/-- The messages of a folder with these UIDs, as a listing has them. -/
def listed (cache : Cache) (folder : String) (uids : List Nat) : List CachedMessage :=
  (cache.listCachedMessageMeta folder).filter fun m => uids.contains m.imapUid

/-- The updates of the sync, each with the flags that the page was merged with. -/
def expectedUpdates (cache : Cache) (merged : List (String × BitVec 64)) :
    List (String × BitVec 64 × BitVec 64) :=
  merged.filterMap fun e => (cache.getMessageFlagsById e.1).map fun f => (e.1, f, e.2)

/-- The write of a patch, and whether it is made. -/
def patchWrite (cache : Cache) (asterId : String) (patch : KeywordPatch) (made : Bool) :
    List Write :=
  match cache.getMessageFlagsById asterId with
  | none => []
  | some flags =>
      if decide (patch.newFlags (flags.setWidth 32) ≠ flags.setWidth 32) = made then
        [.update (.id asterId) flags (.patch patch)]
      else []

/-- The writes that a command leaves out, since they would change nothing. -/
def settled (command : Command) (cache : Cache) : List Write :=
  match command with
  | .store _ _ _ _ => []
  | .fetch folder uids =>
      ((listed cache folder uids).filter fun m => m.row.flags.getLsbD 0).map fun m =>
        .update (.id m.asterId) m.row.flags .seen
  | .emailSet asterId patch => patchWrite cache asterId patch false
  | .sync merged =>
      ((expectedUpdates cache merged).filter fun u => u.2.1 = u.2.2).map fun u =>
        .compare u.1 u.2.1 u.2.2

/-- The writes that a command makes: a STORE and the sync in one transaction, a FETCH message by
message. -/
def batches (command : Command) (cache : Cache) : List (List Write) :=
  match command with
  | .store folder uids op mask =>
      [(listed cache folder uids).map fun m =>
        .update (.uid m.imapUid folder) m.row.flags (.store op mask)]
  | .fetch folder uids =>
      ((listed cache folder uids).filter fun m => !m.row.flags.getLsbD 0).map fun m =>
        [.update (.uid m.imapUid folder) m.row.flags .seen]
  | .emailSet asterId patch => [patchWrite cache asterId patch true]
  | .sync merged =>
      [((expectedUpdates cache merged).filter fun u => u.2.1 ≠ u.2.2).map fun u =>
        .compare u.1 u.2.1 u.2.2]

section Unchanged

variable {cache : Cache} {id : String}

theorem updateMessage_of_same {f : MessageRow → MessageRow}
    (h : ∀ r, cache.messageCache.get? id = some r → f r = r) : cache.updateMessage id f = cache := by
  have hrows : cache.messageCache.updateWhere (fun k _ => k = id) (fun _ r => f r) =
      cache.messageCache := by
    have hmap : (cache.messageCache.rows.map fun e =>
        if decide (e.1 = id) = true then (e.1, f e.2) else e) = cache.messageCache.rows := by
      refine (List.map_congr_left fun e he => ?_).trans (List.map_id' _)
      split
      · rename_i hid
        have hid : e.1 = id := of_decide_eq_true hid
        rw [h e.2 (Table.get?_eq_some_iff.2 (hid ▸ he))]
      · rfl
    cases htable : cache.messageCache with
    | mk rows nodup =>
        simp only [htable] at hmap
        simp only [Table.updateWhere, hmap]
  rw [Cache.updateMessage, hrows]

/-- Writing the flags that a message has changes nothing. -/
theorem setMessageFlagsById_same {flags : BitVec 64}
    (h : ∀ f ∈ cache.getMessageFlagsById id, f = flags) :
    cache.setMessageFlagsById id flags = cache := by
  apply updateMessage_of_same
  intro r hr
  have hflags := h r.flags (by rw [Cache.getMessageFlagsById, hr]; rfl)
  rw [← hflags]

/-- A listing shows the flags of its messages. -/
theorem flags_of_listed {folder : String} {uids : List Nat} {m : CachedMessage}
    (h : m ∈ listed cache folder uids) :
    cache.getMessageFlagsById m.asterId = some m.row.flags := by
  obtain ⟨e, he, rfl⟩ := List.mem_map.1 (List.mem_filter.1 h).1
  obtain ⟨row, hrow, rfl⟩ := List.mem_map.1 (List.mem_mergeSort.1 he)
  have hget := Table.get?_eq_some_iff.2 (List.mem_filter.1 hrow).1
  rw [Cache.getMessageFlagsById, hget]
  rfl

theorem compare_same {flags : BitVec 64} :
    (cache.setMessageFlagsIfUnchanged [(id, flags, flags)]).1 = cache := by
  rw [Cache.setMessageFlagsIfUnchanged]
  split
  · rename_i hflags
    apply setMessageFlagsById_same
    intro f hf
    rw [hflags] at hf
    exact (Option.mem_some_iff.1 hf).symm
  · rfl

/-- A write that a command leaves out would change nothing. -/
theorem atomically_settled (command : Command) (cache : Cache) :
    ∀ w ∈ settled command cache, w.atomically cache = cache := by
  intro w hw
  cases command with
  | store folder uids op mask => exact absurd hw List.not_mem_nil
  | fetch folder uids =>
      obtain ⟨m, hm, rfl⟩ := List.mem_map.1 hw
      obtain ⟨hlisted, hseen⟩ := List.mem_filter.1 hm
      have hflags := flags_of_listed hlisted
      have hupdate : Change.seen.update m.row.flags = m.row.flags := if_pos hseen
      simp only [Write.atomically, Target.message, hflags, hupdate]
      exact setMessageFlagsById_same fun f hf => Option.some.inj (hf.symm.trans hflags)
  | emailSet asterId patch =>
      simp only [settled, patchWrite] at hw
      split at hw
      · exact absurd hw List.not_mem_nil
      · rename_i flags hflags
        split at hw
        · rename_i hsame
          obtain rfl := List.mem_singleton.1 hw
          have hsame : patch.newFlags (flags.setWidth 32) = flags.setWidth 32 :=
            not_not.1 (of_decide_eq_false hsame)
          have hupdate : (Change.patch patch).update flags = flags := if_pos hsame
          simp only [Write.atomically, Target.message, hflags, hupdate]
          exact setMessageFlagsById_same fun f hf => Option.some.inj (hf.symm.trans hflags)
        · exact absurd hw List.not_mem_nil
  | sync merged =>
      obtain ⟨⟨asterId, expected, flags⟩, hu, rfl⟩ := List.mem_map.1 hw
      have hsame : expected = flags := by simpa using (List.mem_filter.1 hu).2
      subst hsame
      exact compare_same

end Unchanged

/-- The four commands on the cache. -/
def flagCommands : Semantics Cache Write Command where
  settled := settled
  batches := batches
  run := Write.run
  atomically := Write.atomically
  settled_spec := atomically_settled

/-! ## Serial runs -/

/-- A write finds the flags that its command has read, or replaces them, or compares itself. -/
def Write.Finds (w : Write) (cache : Cache) : Prop :=
  match w with
  | .update target read change => change.replaces = true ∨
      ∀ id ∈ target.message cache, ∀ flags ∈ cache.getMessageFlagsById id, flags = read
  | .compare _ _ _ => True

/-- Every write of a transaction finds what its command has read. -/
def FindsAll : List Write → Cache → Prop
  | [], _ => True
  | w :: ws, cache => w.Finds cache ∧ FindsAll ws (w.run cache)

/-- No write comes between the read of a command and its own writes. -/
def Undisturbed (s : System Cache Write) : Event Command → Prop
  | .write i => ∀ batch ∈ (s.tasks[i]?).bind List.head?, FindsAll batch s.store
  | _ => True

instance decidableFinds (w : Write) (cache : Cache) : Decidable (w.Finds cache) :=
  match w with
  | .update target read change =>
      -- the instance for all vectors of a width would go through every one of them
      have (id : String) : Decidable (∀ flags ∈ cache.getMessageFlagsById id, flags = read) :=
        Option.decidableForallMem _
      inferInstanceAs (Decidable (change.replaces = true ∨
        ∀ id ∈ target.message cache, ∀ flags ∈ cache.getMessageFlagsById id, flags = read))
  | .compare _ _ _ => isTrue trivial

instance decidableFindsAll : ∀ (ws : List Write) (cache : Cache), Decidable (FindsAll ws cache)
  | [], _ => isTrue trivial
  | w :: ws, cache =>
      have := decidableFindsAll ws (w.run cache)
      inferInstanceAs (Decidable (_ ∧ _))

instance decidableUndisturbed (s : System Cache Write) : ∀ e, Decidable (Undisturbed s e)
  | .write i => inferInstanceAs (Decidable (∀ batch ∈ (s.tasks[i]?).bind List.head?,
      FindsAll batch s.store))
  | .start _ => isTrue trivial
  | .drop _ => isTrue trivial

section Finds

variable {cache : Cache}

theorem update_of_replaces {change : Change} (h : change.replaces = true) (f g : BitVec 64) :
    change.update f = change.update g := by
  cases change with
  | store op mask =>
      rw [Change.replaces, Bool.and_eq_true, decide_eq_true_eq, decide_eq_true_eq] at h
      simp only [Change.update, applyFlags, if_neg h.1, if_neg h.2]
  | seen => exact absurd h (by decide)
  | patch patch => exact absurd h (by simp [Change.replaces])

/-- A write is made on the message that it names. -/
theorem run_update (target : Target) (read : BitVec 64) (change : Change) :
    (Write.update target read change).run cache =
      match target.message cache with
      | none => cache
      | some id => cache.setMessageFlagsById id (change.update read) := by
  cases target with
  | uid uid folder => rfl
  | id asterId => rfl

/-- A write that finds what its command has read acts as the command on its own. -/
theorem run_eq_atomically {w : Write} (h : w.Finds cache) : w.run cache = w.atomically cache := by
  cases w with
  | compare asterId expected flags => rfl
  | update target read change =>
      rw [run_update, Write.atomically]
      cases hmessage : target.message cache with
      | none => rfl
      | some id =>
          dsimp only
          cases hflags : cache.getMessageFlagsById id with
          | none =>
              apply setMessageFlagsById_same
              rw [hflags]
              exact fun f hf => absurd hf (Option.not_mem_none f)
          | some flags =>
              dsimp only
              rcases h with hreplaces | hfinds
              · rw [update_of_replaces hreplaces read flags]
              · rw [hfinds id hmessage flags hflags]

theorem agrees_of_findsAll {ws : List Write} (h : FindsAll ws cache) :
    flagCommands.Agrees ws cache := by
  induction ws generalizing cache with
  | nil => trivial
  | cons w ws ih => exact ⟨run_eq_atomically h.1, ih h.2⟩

theorem steady_of_undisturbed {s : System Cache Write} {e : Event Command}
    (h : Undisturbed s e) : flagCommands.Steady s e := by
  cases e with
  | write i =>
      intro batch rest htask
      apply agrees_of_findsAll
      apply h batch
      rw [htask]
      rfl
  | start c => trivial
  | drop i => trivial

end Finds

/-- An inbox with one unread message. -/
def inbox : Cache :=
  ((Cache.empty.upsertCachedMessage "now" "a" "inbox"
    ⟨none, none, none, none, 0, none, none⟩).1.assignUidIfMissing "inbox" "a").1

/-- Two connections that add different flags, one after the other. -/
def inTurn : List (Event Command) :=
  [.start (.store "inbox" [1] 1 4), .write 0, .start (.store "inbox" [1] 1 1), .write 1]

/-- Both connections read before either writes. -/
def overlapping (second : Command) : List (Event Command) :=
  [.start (.store "inbox" [1] 1 4), .start second, .write 0, .write 1]

end AsterBridge.Imap.ConcurrentFlags
