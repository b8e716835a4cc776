import AsterBridge.Sync.ListingPage
import AsterBridge.Sync.Views

/-!
# Listings and the queued local flags

A listing must not overwrite a flag whose change is still queued for the server.
`KeepsPending` says what a page may do to the flags of a message, bit by bit: a bit
with a queued value holds that value, any other reported bit the server's, and the
rest stays.

`page_keeps_pending` gives the exact conditions for both consumers. The sync pass
fails only when nothing makes it write the row: the shortcut finds it unchanged, or
no flag is reported. The indexer of the history sweep leaves the queue out on the
shortcut, so there it overwrites every queued value that differs from the server's.
-/

set_option autoImplicit false

namespace AsterBridge.Sync

open AsterBridge.Lib AsterBridge.Db AsterBridge.Db.Cache

/-! ## Bits -/

/-- The value that an item reports for a bit. -/
def reported (item : MailItem) (b : Fin 64) : Option Bool :=
  if b = 0 then item.isRead else if b = 2 then item.isStarred else none

theorem getLsbD_one_shiftLeft (p b : Fin 64) : (1#64 <<< p.val).getLsbD b.val = decide (b = p) := by
  have hb := b.isLt
  have hval : b.val = p.val ↔ b = p := Fin.val_inj
  rw [BitVec.getLsbD_shiftLeft]
  by_cases h : b = p
  · subst h
    simp [hb]
  · have hne : b.val ≠ p.val := fun hv => h (hval.1 hv)
    simp [h, hb]
    omega

/-- Writing a bit writes that bit only. -/
theorem getLsbD_withMask (f : BitVec 64) (p b : Fin 64) (value : Bool) :
    (withMask f (1#64 <<< p.val) value).getLsbD b.val = if b = p then value else f.getLsbD b.val := by
  have hshift := getLsbD_one_shiftLeft p b
  cases value with
  | true =>
      show (f ||| 1#64 <<< p.val).getLsbD b.val = _
      rw [BitVec.getLsbD_or, hshift]
      by_cases h : b = p <;> simp [h]
  | false =>
      show (f &&& ~~~(1#64 <<< p.val)).getLsbD b.val = _
      rw [BitVec.getLsbD_and, BitVec.getLsbD_not, hshift]
      by_cases h : b = p <;> simp [h]

theorem getLsbD_serverFlags (f : BitVec 64) (item : MailItem) (b : Fin 64) :
    (serverFlags f item).getLsbD b.val = (reported item b).getD (f.getLsbD b.val) := by
  have hread : ∀ g : BitVec 64, ∀ v, withMask g 1 v = withMask g (1#64 <<< (0 : Fin 64).val) v :=
    fun _ _ => rfl
  have hstar : ∀ g : BitVec 64, ∀ v, withMask g 4 v = withMask g (1#64 <<< (2 : Fin 64).val) v :=
    fun _ _ => rfl
  unfold serverFlags reported
  cases item.isRead with
  | none =>
      cases item.isStarred with
      | none => by_cases h0 : b = 0 <;> by_cases h2 : b = 2 <;> simp [h0, h2]
      | some s =>
          simp only [hstar, getLsbD_withMask]
          by_cases h0 : b = 0
          · subst h0
            rfl
          · by_cases h2 : b = 2 <;> simp [h0, h2]
  | some r =>
      cases item.isStarred with
      | none =>
          simp only [hread, getLsbD_withMask]
          by_cases h0 : b = 0 <;> by_cases h2 : b = 2 <;> simp [h0, h2]
      | some s =>
          simp only [hread, hstar, getLsbD_withMask]
          by_cases h0 : b = 0
          · subst h0
            rfl
          · by_cases h2 : b = 2 <;> simp [h0, h2]

/-- The queued values decide their bits. -/
theorem getLsbD_withPendingFlags (pending : List (Fin 64 × Bool))
    (hnodup : (pending.map Prod.fst).Nodup) (f : BitVec 64) (b : Fin 64) :
    (withPendingFlags f pending).getLsbD b.val = (pending.lookup b).getD (f.getLsbD b.val) := by
  induction pending generalizing f with
  | nil => rfl
  | cons p ps ih =>
      rcases p with ⟨bit, value⟩
      rw [List.map_cons, List.nodup_cons] at hnodup
      have hrest := ih hnodup.2 (withMask f (1#64 <<< bit.val) value)
      show (withPendingFlags (withMask f (1#64 <<< bit.val) value) ps).getLsbD b.val = _
      rw [hrest, getLsbD_withMask]
      by_cases hb : b = bit
      · subst hb
        have hnone : ps.lookup b = none := by
          rw [List.lookup_eq_none_iff]
          intro q hq
          have hne : b ≠ q.1 := fun heq => hnodup.1 (List.mem_map.2 ⟨q, hq, heq.symm⟩)
          simpa using hne
        rw [hnone, List.lookup_cons_self, if_pos rfl]
        rfl
      · have hbeq : (b == bit) = false := by simpa using hb
        rw [List.lookup_cons, hbeq, if_neg hb]

theorem lookup_pendingFlagValues (q : FlagPushQueue) (id : String) (b : Fin 64) :
    (q.pendingFlagValues id).lookup b = q.pendingValue id b := by
  have hnodup := q.pendingFlagValues_nodup id
  let t : Table (Fin 64) Bool := ⟨q.pendingFlagValues id, hnodup⟩
  ext value
  rw [show (q.pendingFlagValues id).lookup b = t.get? b from rfl, Table.get?_eq_some_iff]
  exact FlagPushQueue.mem_pendingFlagValues

/-- The flags with the queued changes, bit by bit. -/
theorem getLsbD_overlay (q : FlagPushQueue) (id : String) (f : BitVec 64) (b : Fin 64) :
    (withPendingFlags f (q.pendingFlagValues id)).getLsbD b.val =
      (q.pendingValue id b).getD (f.getLsbD b.val) := by
  rw [getLsbD_withPendingFlags _ (q.pendingFlagValues_nodup id), lookup_pendingFlagValues]

theorem flags_ext {f g : BitVec 64} (h : ∀ b : Fin 64, f.getLsbD b.val = g.getLsbD b.val) :
    f = g :=
  BitVec.eq_of_getLsbD_eq fun i hi => h ⟨i, hi⟩

/-! ## Several occurrences of a message -/

/-- Whether an item reports a flag. -/
def Reports (item : MailItem) : Prop := ¬ (item.isRead = none ∧ item.isStarred = none)

instance (item : MailItem) : Decidable (Reports item) := inferInstanceAs (Decidable (¬ _))

/-- The last value that a list of items reports for a bit. -/
def reportedBy (items : List MailItem) (b : Fin 64) : Option Bool :=
  (items.filterMap fun item => reported item b).getLast?

/-- The flags after reconciling with each item in turn. -/
def reconciledAll (q : FlagPushQueue) (items : List MailItem) (f : BitVec 64) : BitVec 64 :=
  items.foldl (fun f item => reconciled q item f) f

theorem reported_of_not_reports {item : MailItem} (h : ¬ Reports item) (b : Fin 64) :
    reported item b = none := by
  obtain ⟨hread, hstar⟩ := not_not.1 h
  simp [reported, hread, hstar]

theorem reportedBy_append (items : List MailItem) (item : MailItem) (b : Fin 64) :
    reportedBy (items ++ [item]) b = (reported item b).or (reportedBy items b) := by
  rw [reportedBy, List.filterMap_append, List.getLast?_append]
  cases h : reported item b <;> simp [h, reportedBy]

/-- What a page may do to the flags of a message: a bit with a queued value holds it,
any other reported bit holds the server's value, and the rest stays. -/
def KeepsPending (q : FlagPushQueue) (id : String) (items : List MailItem) (f f' : BitVec 64) :
    Prop :=
  ∀ b : Fin 64, f'.getLsbD b.val =
    (q.pendingValue id b).getD ((reportedBy items b).getD (f.getLsbD b.val))

/-- The queued values of a message are those of its flags. -/
def PendingAgrees (q : FlagPushQueue) (id : String) (f : BitVec 64) : Prop :=
  ∀ (b : Fin 64) (value : Bool), q.pendingValue id b = some value → f.getLsbD b.val = value

/-- Reconciling with items of which none reports a flag changes nothing; otherwise it
does what a page may do. -/
theorem reconciledAll_spec (q : FlagPushQueue) (id : String) (items : List MailItem)
    (hids : ∀ item ∈ items, item.id = id) (f : BitVec 64) :
    ((∀ item ∈ items, ¬ Reports item) → reconciledAll q items f = f ∧
      ∀ b, reportedBy items b = none) ∧
    ((∃ item ∈ items, Reports item) → KeepsPending q id items f (reconciledAll q items f)) := by
  induction items using List.reverseRecOn with
  | nil => exact ⟨fun _ => ⟨rfl, fun _ => rfl⟩, fun ⟨_, h, _⟩ => absurd h List.not_mem_nil⟩
  | append_singleton items item ih =>
      obtain ⟨hquiet, hloud⟩ := ih fun i hi => hids i (List.mem_append_left _ hi)
      have hid : item.id = id := hids item (List.mem_append_right _ (List.mem_singleton_self item))
      have hlast : reconciledAll q (items ++ [item]) f =
          reconciled q item (reconciledAll q items f) := by
        simp [reconciledAll]
      rw [hlast]
      by_cases hrep : Reports item
      · refine ⟨fun hno => absurd hrep (hno item (by simp)), fun _ b => ?_⟩
        rw [reconciled, if_neg hrep, hid, getLsbD_overlay, getLsbD_serverFlags, reportedBy_append]
        cases hp : q.pendingValue id b with
        | some value => rfl
        | none =>
            cases hr : reported item b with
            | some value => rfl
            | none =>
                -- the bit is what the earlier items made it
                simp only [Option.getD_none, Option.none_or]
                by_cases hany : ∃ i ∈ items, Reports i
                · rw [hloud hany b, hp]
                  rfl
                · obtain ⟨hsame, hnone⟩ := hquiet fun i hi hri => hany ⟨i, hi, hri⟩
                  rw [hsame, hnone b]
                  rfl
      · have hquietItem : reconciled q item (reconciledAll q items f) = reconciledAll q items f :=
          if_pos (not_not.1 hrep)
        rw [hquietItem]
        constructor
        · intro hno
          obtain ⟨hsame, hnone⟩ := hquiet fun i hi => hno i (List.mem_append_left _ hi)
          refine ⟨hsame, fun b => ?_⟩
          rw [reportedBy_append, reported_of_not_reports hrep, hnone b]
          rfl
        · rintro ⟨i, hi, hri⟩ b
          rw [reportedBy_append, reported_of_not_reports hrep, Option.none_or]
          rcases List.mem_append.1 hi with hi | hi
          · exact hloud ⟨i, hi, hri⟩ b
          · obtain rfl := List.mem_singleton.1 hi
            exact absurd hri hrep

/-- A page that leaves the flags alone keeps the queue in force exactly when the
queued values are the flags', given that nothing else is reported. -/
theorem keepsPending_same_iff (q : FlagPushQueue) (id : String) (items : List MailItem)
    (f : BitVec 64) (hrep : ∀ b v, reportedBy items b = some v → f.getLsbD b.val = v) :
    KeepsPending q id items f f ↔ PendingAgrees q id f := by
  constructor
  · intro h b value hp
    rw [h b, hp]
    rfl
  · intro h b
    cases hp : q.pendingValue id b with
    | some value => exact h b value hp
    | none =>
        cases hr : reportedBy items b with
        | some value => exact hrep b value hr
        | none => rfl

theorem reportedBy_singleton (item : MailItem) (b : Fin 64) :
    reportedBy [item] b = reported item b := by
  cases h : reported item b <;> simp [reportedBy, h]

/-- Writing the reported values alone keeps the queue in force exactly when the queued
values are among them. -/
theorem keepsPending_serverFlags_iff (q : FlagPushQueue) (item : MailItem) (f : BitVec 64) :
    KeepsPending q item.id [item] f (serverFlags f item) ↔
      PendingAgrees q item.id (serverFlags f item) := by
  constructor
  · intro h b value hp
    rw [h b, hp]
    rfl
  · intro h b
    cases hp : q.pendingValue item.id b with
    | some value => exact h b value hp
    | none =>
        rw [getLsbD_serverFlags, reportedBy_singleton]
        rfl

/-- With agreeing queued values the overlay changes nothing. -/
theorem overlay_of_agrees {q : FlagPushQueue} {id : String} {f : BitVec 64}
    (h : PendingAgrees q id f) : withPendingFlags f (q.pendingFlagValues id) = f := by
  refine flags_ext fun b => ?_
  rw [getLsbD_overlay]
  cases hp : q.pendingValue id b with
  | some value => exact (h b value hp).symm
  | none => rfl

/-! ## Items of a page -/

/-- The flags of a cached message, zero for one that is not cached. -/
def flagsOf (db : Database) (id : String) : BitVec 64 :=
  ((view db.cache id).map (·.flags)).getD 0

/-- The flag changes that are waiting for a message. -/
def updatesFor (w : PageWork) (id : String) : List FlagUpdate :=
  w.flagUpdates.filter fun u => u.item.id = id

section Page

variable (cx : PageContext) (verdict : MailItem → Verdict)

theorem flagPushes_takeItem (w : PageWork) (item : MailItem) :
    (takeItem cx verdict w item).db.flagPushes = w.db.flagPushes := by
  unfold takeItem
  split
  · rfl
  · rfl
  · rfl
  · exact flagPushes_cacheMailItem cx.now w.db (cx.folderFor item) item

/-- An item leaves other messages alone. -/
theorem takeItem_other (w : PageWork) {item : MailItem} {id : String} (hid : item.id ≠ id) :
    view (takeItem cx verdict w item).db.cache id = view w.db.cache id ∧
      updatesFor (takeItem cx verdict w item) id = updatesFor w id := by
  unfold takeItem
  split
  · exact ⟨rfl, rfl⟩
  · exact ⟨rfl, rfl⟩
  · refine ⟨rfl, ?_⟩
    simp [updatesFor, hid]
  · exact ⟨view_cacheMailItem_other cx.now w.db (cx.folderFor item) fun h => hid h.symm, rfl⟩

theorem foldl_other (items : List MailItem) (w : PageWork) {id : String}
    (hids : ∀ item ∈ items, item.id ≠ id) :
    view (items.foldl (takeItem cx verdict) w).db.cache id = view w.db.cache id ∧
      updatesFor (items.foldl (takeItem cx verdict) w) id = updatesFor w id := by
  induction items generalizing w with
  | nil => exact ⟨rfl, rfl⟩
  | cons item items ih =>
      obtain ⟨hview, hupd⟩ := takeItem_other cx verdict w
        (hids item List.mem_cons_self)
      obtain ⟨hview', hupd'⟩ := ih (takeItem cx verdict w item)
        fun i hi => hids i (List.mem_cons_of_mem item hi)
      exact ⟨hview'.trans hview, hupd'.trans hupd⟩

theorem flagPushes_foldl (items : List MailItem) (w : PageWork) :
    (items.foldl (takeItem cx verdict) w).db.flagPushes = w.db.flagPushes := by
  induction items generalizing w with
  | nil => rfl
  | cons item items ih => exact (ih _).trans (flagPushes_takeItem cx verdict w item)

/-- On the slow path every occurrence of a message is reconciled in turn. -/
theorem foldl_slow (items : List MailItem) (w : PageWork) (id : String)
    (hslow : ∀ item ∈ items, item.id = id → verdict item = .slow ∧ Applies cx.env w.db.cache item) :
    flagsOf (items.foldl (takeItem cx verdict) w).db id =
        reconciledAll w.db.flagPushes (items.filter fun i => i.id = id) (flagsOf w.db id) ∧
      updatesFor (items.foldl (takeItem cx verdict) w) id = updatesFor w id ∧
      ((view w.db.cache id).isSome ∨ (∃ item ∈ items, item.id = id) →
        (view (items.foldl (takeItem cx verdict) w).db.cache id).isSome) := by
  induction items generalizing w with
  | nil => exact ⟨rfl, rfl, fun h => h.resolve_right fun ⟨_, hi, _⟩ => absurd hi List.not_mem_nil⟩
  | cons item items ih =>
      have hpush := flagPushes_takeItem cx verdict w item
      by_cases hid : item.id = id
      · obtain ⟨hv, happ⟩ := hslow item List.mem_cons_self hid
        have htake : takeItem cx verdict w item = slowPath cx w item := by
          simp only [takeItem, hv]
        obtain ⟨cached, hview, hcached⟩ := view_cacheMailItem_self cx.json cx.now w.db
          (cx.folderFor item) happ
        have hview' : view (takeItem cx verdict w item).db.cache id =
            some ⟨cx.folderFor item, reconciled w.db.flagPushes item (flagsOf w.db id), cached⟩ := by
          rw [htake, ← hid]
          exact hview
        -- a body that is cached stays cached, so later occurrences still apply
        have hrest : ∀ i ∈ items, i.id = id →
            verdict i = .slow ∧ Applies cx.env (takeItem cx verdict w item).db.cache i := by
          intro i hi hi'
          obtain ⟨hvi, hvalid, hopen⟩ := hslow i (List.mem_cons_of_mem item hi) hi'
          refine ⟨hvi, hvalid, hopen.imp_left fun hbody => ?_⟩
          rw [hi', ← hid] at hbody
          rw [hi', bodyCached_eq, hview', Option.map_some, Option.getD_some]
          exact hcached hbody
        obtain ⟨hflags, hupd, hsome⟩ := ih (takeItem cx verdict w item) hrest
        refine ⟨?_, ?_, fun _ => hsome (Or.inl ?_)⟩
        · rw [List.foldl_cons, hflags, hpush, flagsOf, hview', List.filter_cons]
          simp [hid, reconciledAll]
        · rw [List.foldl_cons, hupd, htake]
          rfl
        · rw [hview']
          rfl
      · obtain ⟨hview, hupd⟩ := takeItem_other cx verdict w hid
        have hrest : ∀ i ∈ items, i.id = id →
            verdict i = .slow ∧ Applies cx.env (takeItem cx verdict w item).db.cache i := by
          intro i hi hi'
          obtain ⟨hvi, hvalid, hopen⟩ := hslow i (List.mem_cons_of_mem item hi) hi'
          refine ⟨hvi, hvalid, hopen.imp_left fun hbody => ?_⟩
          rw [bodyCached_eq, hi'] at hbody
          rw [bodyCached_eq, hi', hview]
          exact hbody
        obtain ⟨hflags, hupd', hsome⟩ := ih (takeItem cx verdict w item) hrest
        refine ⟨?_, hupd'.trans hupd, fun hex => hsome ?_⟩
        · rw [List.foldl_cons, hflags, hpush, flagsOf, flagsOf, hview, List.filter_cons]
          simp [hid]
        · rcases hex with hex | ⟨i, hi, hi'⟩
          · rw [hview]
            exact Or.inl hex
          · rcases List.mem_cons.1 hi with rfl | hi
            · exact absurd hi' hid
            · exact Or.inr ⟨i, hi, hi'⟩

/-- The item of a message that occurs once: what is before and after it. -/
theorem split_of_filter {items : List MailItem} {id : String} {item : MailItem}
    (h : (items.filter fun i => i.id = id) = [item]) :
    ∃ pre post, items = pre ++ item :: post ∧ item.id = id ∧ (∀ i ∈ pre, i.id ≠ id) ∧
      ∀ i ∈ post, i.id ≠ id := by
  obtain ⟨pre, post, rfl, hpre, hitem, hpost⟩ := List.filter_eq_cons_iff.1 h
  refine ⟨pre, post, rfl, by simpa using hitem, fun i hi => by simpa using hpre i hi, ?_⟩
  intro i hi
  have hnil := List.filter_eq_nil_iff.1 hpost i hi
  simpa using hnil

/-- A message that occurs once, and not on the slow path. -/
theorem foldl_shortcut (items : List MailItem) (db : Database) {item : MailItem} (us : List FlagUpdate)
    (honce : (items.filter fun i => i.id = item.id) = [item])
    (hv : (verdict item = .unchanged ∧ us = []) ∨
      ∃ expected flags, verdict item = .flagsOnly expected flags ∧ us = [⟨item, expected, flags⟩]) :
    view (items.foldl (takeItem cx verdict) (PageWork.start db)).db.cache item.id =
        view db.cache item.id ∧
      updatesFor (items.foldl (takeItem cx verdict) (PageWork.start db)) item.id = us := by
  obtain ⟨pre, post, rfl, -, hpre, hpost⟩ := split_of_filter honce
  rw [List.foldl_append, List.foldl_cons]
  obtain ⟨hview₁, hupd₁⟩ := foldl_other cx verdict pre (PageWork.start db) hpre
  obtain ⟨hview₂, hupd₂⟩ := foldl_other cx verdict post
    (takeItem cx verdict (pre.foldl (takeItem cx verdict) (PageWork.start db)) item) hpost
  have hstart : updatesFor (PageWork.start db) item.id = [] := rfl
  rw [hview₂, hupd₂]
  rcases hv with ⟨hsame, rfl⟩ | ⟨expected, flags, hset, rfl⟩
  · have htake : ∀ w, takeItem cx verdict w item = w := fun w => by simp only [takeItem, hsame]
    rw [htake, hupd₁, hview₁]
    exact ⟨rfl, rfl⟩
  · have htake : ∀ w, takeItem cx verdict w item =
        { w with flagUpdates := w.flagUpdates ++ [⟨item, expected, flags⟩] } := fun w => by
      simp only [takeItem, hset]
    rw [htake]
    refine ⟨hview₁, ?_⟩
    show (_ ++ _ : List FlagUpdate).filter _ = _
    rw [List.filter_append]
    show updatesFor _ item.id ++ _ = _
    rw [hupd₁, hstart]
    simp

end Page

/-! ## Writing the flag changes -/

/-- A message without an update. -/
theorem setMessageFlagsIfUnchanged_other (c : Cache) (id : String)
    (updates : List (String × BitVec 64 × BitVec 64))
    (hid : ∀ u ∈ updates, u.1 ≠ id) :
    view (c.setMessageFlagsIfUnchanged updates).1 id = view c id ∧
      id ∉ (c.setMessageFlagsIfUnchanged updates).2 := by
  induction updates generalizing c with
  | nil => exact ⟨rfl, List.not_mem_nil⟩
  | cons u us ih =>
      rcases u with ⟨i, expected, flags⟩
      have hi : id ≠ i := fun h => hid _ List.mem_cons_self h.symm
      have hus := fun u hu => hid u (List.mem_cons_of_mem _ hu)
      by_cases hexp : c.getMessageFlagsById i = some expected
      · rw [setMessageFlagsIfUnchanged, if_pos hexp]
        obtain ⟨hview, hstale⟩ := ih (c.setMessageFlagsById i flags) hus
        rw [view_setMessageFlagsById, if_neg hi] at hview
        exact ⟨hview, hstale⟩
      · rw [setMessageFlagsIfUnchanged, if_neg hexp]
        obtain ⟨hview, hstale⟩ := ih c hus
        exact ⟨hview, fun hmem => (List.mem_cons.1 hmem).elim hi hstale⟩

/-- The one update of a message is written if the row has the expected flags, and
reported as stale otherwise. -/
theorem setMessageFlagsIfUnchanged_one (c : Cache)
    (updates : List (String × BitVec 64 × BitVec 64)) {id : String} {expected flags : BitVec 64}
    (hone : (updates.filter fun u => u.1 = id) = [(id, expected, flags)]) :
    (c.getMessageFlagsById id = some expected →
      view (c.setMessageFlagsIfUnchanged updates).1 id =
          ((view c id).map fun v => { v with flags }) ∧
        id ∉ (c.setMessageFlagsIfUnchanged updates).2) ∧
    (c.getMessageFlagsById id ≠ some expected →
      view (c.setMessageFlagsIfUnchanged updates).1 id = view c id ∧
        id ∈ (c.setMessageFlagsIfUnchanged updates).2) := by
  induction updates generalizing c with
  | nil => simp at hone
  | cons u us ih =>
      rcases u with ⟨i, e, f⟩
      by_cases hi : i = id
      · -- the update itself: no later one is for the message
        subst hi
        have htail : (us.filter fun u => u.1 = i) = [] ∧ e = expected ∧ f = flags := by
          rw [List.filter_cons] at hone
          simp only [decide_true, if_true, List.cons.injEq, Prod.mk.injEq, true_and] at hone
          exact ⟨hone.2, hone.1⟩
        obtain ⟨hnil, rfl, rfl⟩ := htail
        have hus : ∀ u ∈ us, u.1 ≠ i := fun u hu => by
          simpa using List.filter_eq_nil_iff.1 hnil u hu
        constructor
        · intro hexp
          rw [setMessageFlagsIfUnchanged, if_pos hexp]
          obtain ⟨hview, hstale⟩ :=
            setMessageFlagsIfUnchanged_other (c.setMessageFlagsById i f) i us hus
          rw [view_setMessageFlagsById, if_pos rfl] at hview
          exact ⟨hview, hstale⟩
        · intro hexp
          rw [setMessageFlagsIfUnchanged, if_neg hexp]
          obtain ⟨hview, -⟩ := setMessageFlagsIfUnchanged_other c i us hus
          exact ⟨hview, List.mem_cons_self⟩
      · have hrest : (us.filter fun u => u.1 = id) = [(id, expected, flags)] := by
          rw [List.filter_cons] at hone
          simpa [hi] using hone
        by_cases hexp : c.getMessageFlagsById i = some e
        · rw [setMessageFlagsIfUnchanged, if_pos hexp]
          have hsame : view (c.setMessageFlagsById i f) id = view c id := by
            rw [view_setMessageFlagsById, if_neg fun h => hi h.symm]
          have hflags : (c.setMessageFlagsById i f).getMessageFlagsById id =
              c.getMessageFlagsById id := by
            rw [getMessageFlagsById_eq, getMessageFlagsById_eq, hsame]
          have hih := ih (c.setMessageFlagsById i f) hrest
          rwa [hflags, hsame] at hih
        · rw [setMessageFlagsIfUnchanged, if_neg hexp]
          obtain ⟨hfresh, hstale⟩ := ih c hrest
          exact ⟨fun h => ⟨(hfresh h).1, fun hmem =>
            (List.mem_cons.1 hmem).elim (fun h => hi h.symm) (hfresh h).2⟩,
            fun h => ⟨(hstale h).1, List.mem_cons_of_mem _ (hstale h).2⟩⟩

theorem view_reconcileStale_other (stale : List String) (us : List FlagUpdate) (w : PageWork)
    {id : String} (hid : ∀ u ∈ us, u.item.id = id → id ∉ stale) :
    view (reconcileStale stale us w).db.cache id = view w.db.cache id := by
  induction us generalizing w with
  | nil => rfl
  | cons u us ih =>
      rw [reconcileStale, List.foldl_cons]
      refine (ih _ fun u' hu' => hid u' (List.mem_cons_of_mem u hu')).trans ?_
      by_cases hs : u.item.id ∈ stale
      · have hne : id ≠ u.item.id := fun h =>
          hid u List.mem_cons_self h.symm (h ▸ hs)
        have hcontains : ¬ (!stale.contains u.item.id) = true := by simpa using hs
        rw [if_neg hcontains]
        show view (reconcileServerFlags w.db u.item).1.cache id = _
        rw [view_reconcile, if_neg hne]
      · simp [hs]

theorem flagPushes_reconcileStale (stale : List String) (us : List FlagUpdate) (w : PageWork) :
    (reconcileStale stale us w).db.flagPushes = w.db.flagPushes := by
  induction us generalizing w with
  | nil => rfl
  | cons u us ih =>
      refine (ih _).trans ?_
      dsimp only
      split
      · rfl
      · exact flagPushes_reconcile w.db u.item

/-- `writeFlags` leaves a message without a flag change alone. -/
theorem view_writeFlags_other (w : PageWork) {id : String} (hid : updatesFor w id = []) :
    view (writeFlags w).db.cache id = view w.db.cache id := by
  have hus : ∀ u ∈ w.flagUpdates, u.item.id ≠ id := fun u hu => by
    simpa using List.filter_eq_nil_iff.1 hid u hu
  have hother := setMessageFlagsIfUnchanged_other w.db.cache id
    (w.flagUpdates.map fun u => (u.item.id, u.expected, u.flags)) (by
      intro t ht
      obtain ⟨u, hu, rfl⟩ := List.mem_map.1 ht
      exact hus u hu)
  exact (view_reconcileStale_other _ w.flagUpdates { w with db := { w.db with cache := _ } }
    fun u hu hu' => absurd hu' (hus u hu)).trans hother.1

/-- `writeFlags` writes the one flag change of a message whose row has the expected
flags. -/
theorem view_writeFlags_one (w : PageWork) {u : FlagUpdate}
    (hone : updatesFor w u.item.id = [u])
    (hexp : w.db.cache.getMessageFlagsById u.item.id = some u.expected) :
    view (writeFlags w).db.cache u.item.id =
      (view w.db.cache u.item.id).map fun v => { v with flags := u.flags } := by
  have hmap : ((w.flagUpdates.map fun u => (u.item.id, u.expected, u.flags)).filter
      fun t => t.1 = u.item.id) = [(u.item.id, u.expected, u.flags)] := by
    rw [List.filter_map]
    show (updatesFor w u.item.id).map _ = _
    rw [hone]
    rfl
  obtain ⟨hview, hstale⟩ := (setMessageFlagsIfUnchanged_one w.db.cache _ hmap).1 hexp
  exact (view_reconcileStale_other _ w.flagUpdates { w with db := { w.db with cache := _ } }
    fun _ _ _ => hstale).trans hview

/-- `writeFlags` reconciles a message whose row has changed since it was read. -/
theorem view_writeFlags_stale (w : PageWork) {u : FlagUpdate}
    (hone : updatesFor w u.item.id = [u])
    (hexp : w.db.cache.getMessageFlagsById u.item.id ≠ some u.expected) :
    view (writeFlags w).db.cache u.item.id =
      (view w.db.cache u.item.id).map fun v =>
        { v with flags := reconciled w.db.flagPushes u.item v.flags } := by
  have hmap : ((w.flagUpdates.map fun u => (u.item.id, u.expected, u.flags)).filter
      fun t => t.1 = u.item.id) = [(u.item.id, u.expected, u.flags)] := by
    rw [List.filter_map]
    show (updatesFor w u.item.id).map _ = _
    rw [hone]
    rfl
  obtain ⟨hview, hstale⟩ := (setMessageFlagsIfUnchanged_one w.db.cache _ hmap).2 hexp
  obtain ⟨pre, post, hsplit, hpre, -, hpost⟩ := List.filter_eq_cons_iff.1 hone
  have hpre' : ∀ u' ∈ pre, u'.item.id ≠ u.item.id := fun u' hu' => by simpa using hpre u' hu'
  have hpost' : ∀ u' ∈ post, u'.item.id ≠ u.item.id := fun u' hu' => by
    simpa using List.filter_eq_nil_iff.1 hpost u' hu'
  rw [writeFlags]
  dsimp only
  generalize hset : w.db.cache.setMessageFlagsIfUnchanged
    (w.flagUpdates.map fun u => (u.item.id, u.expected, u.flags)) = result at hview hstale
  -- the flag changes before and after the message's own do not touch its row
  rw [hsplit, reconcileStale, List.foldl_append, List.foldl_cons]
  refine (view_reconcileStale_other result.2 post _ fun u' hu' h => absurd h (hpost' u' hu')).trans ?_
  have hcontains : ¬ (!result.2.contains u.item.id) = true := by simpa using hstale
  rw [if_neg hcontains]
  show view (reconcileServerFlags (reconcileStale result.2 pre _).db u.item).1.cache _ = _
  rw [view_reconcile, if_pos rfl,
    view_reconcileStale_other result.2 pre _ fun u' hu' h => absurd h (hpre' u' hu')]
  rw [flagPushes_reconcileStale]
  show (view result.1 u.item.id).map _ = _
  rw [hview]

/-! ## Both consumers -/

section Consumers

variable {cx : PageContext} {db : Database}

/-- What a shortcut verdict says about the cached row. -/
theorem shortcutOr_spec {item : MailItem} {otherwise verdict : Verdict}
    (hv : shortcutOr cx (cachedSyncState db.cache item.id) item otherwise = verdict)
    (hother : verdict ≠ otherwise) :
    Applies cx.env db.cache item ∧ ∃ v, view db.cache item.id = some v ∧
      ((verdict = .unchanged ∧ serverFlags v.flags item = v.flags) ∨
        verdict = .flagsOnly v.flags (serverFlags v.flags item) ∧
          serverFlags v.flags item ≠ v.flags) := by
  unfold shortcutOr cachedShortcut at hv
  by_cases hid : isValidItemId item.id = true
  · cases hrow : db.cache.messageCache.get? item.id with
    | none =>
        simp only [cachedSyncState, hrow, hid] at hv
        exact absurd hv.symm hother
    | some r =>
        have hview : view db.cache item.id = some (viewOf r) := by rw [view, hrow]; rfl
        simp only [cachedSyncState, hrow, hid, Option.map_some, Bool.not_true,
          Bool.false_eq_true, if_false] at hv
        split at hv
        · rename_i heq
          split at heq
          · cases heq
          · rename_i hshape
            split at heq
            · cases heq
            · split at heq
              · rename_i hflags
                have hbody : db.cache.bodyCached item.id = true := by
                  have hr : r.bodyCached = true := by
                    by_contra hr
                    exact hshape (by simp [hr])
                  rw [bodyCached_eq, hview]
                  exact hr
                exact ⟨⟨hid, Or.inl hbody⟩, _, hview, Or.inl ⟨hv.symm, hflags⟩⟩
              · cases heq
        · rename_i flags heq
          split at heq
          · cases heq
          · rename_i hshape
            split at heq
            · cases heq
            · split at heq
              · cases heq
              · rename_i hflags
                obtain rfl := CachedShortcut.flagsOnly.inj (Option.some.inj heq)
                have hbody : db.cache.bodyCached item.id = true := by
                  have hr : r.bodyCached = true := by
                    by_contra hr
                    exact hshape (by simp [hr])
                  rw [bodyCached_eq, hview]
                  exact hr
                exact ⟨⟨hid, Or.inl hbody⟩, _, hview, Or.inr ⟨hv.symm, hflags⟩⟩
        · exact absurd hv.symm hother
  · have hno : isValidItemId item.id = false := by simpa using hid
    simp only [hno, Bool.not_false, if_true] at hv
    exact absurd hv.symm hother

/-- What a page that was applied must leave of a message, given the items it took for
it: a row whose flags keep the queue in force, the same flags on the shortcut as the
slow path would leave. -/
def FlagsKept (cx : PageContext) (verdict : MailItem → Verdict) (db db' : Database) (id : String)
    (items : List MailItem) : Prop :=
  ∃ v, view db'.cache id = some v ∧
    KeepsPending db.flagPushes id items (flagsOf db id) v.flags ∧
    ∀ item ∈ items, verdict item ≠ .slow →
      v.flags = flagsOf (cacheMailItem cx.json cx.env cx.now db (cx.folderFor item) item).1 item.id

/-- The flags that the slow path leaves. -/
theorem flagsOf_slow {item : MailItem} (happ : Applies cx.env db.cache item) :
    flagsOf (cacheMailItem cx.json cx.env cx.now db (cx.folderFor item) item).1 item.id =
      reconciled db.flagPushes item (flagsOf db item.id) := by
  obtain ⟨cached, hview, -⟩ := view_cacheMailItem_self cx.json cx.now db
    (cx.folderFor item) happ
  rw [flagsOf, hview]
  rfl

theorem reports_of_serverFlags_ne {item : MailItem} {f : BitVec 64} (h : serverFlags f item ≠ f) :
    Reports item := by
  rintro ⟨hread, hstar⟩
  exact h (by simp [serverFlags, hread, hstar])

/-- A message whose row a page leaves alone because the server's flags are its own. -/
theorem flagsKept_unchanged (verdict : MailItem → Verdict) (db' : Database) {item : MailItem}
    {v : View} (happ : Applies cx.env db.cache item) (hv : view db.cache item.id = some v)
    (hsame : serverFlags v.flags item = v.flags)
    (hview : view db'.cache item.id = view db.cache item.id) :
    FlagsKept cx verdict db db' item.id [item] ↔
      PendingAgrees db.flagPushes item.id (flagsOf db item.id) := by
  have hf : flagsOf db item.id = v.flags := by rw [flagsOf, hv]; rfl
  have hrep : ∀ b value, reportedBy [item] b = some value → v.flags.getLsbD b.val = value := by
    intro b value hr
    rw [reportedBy_singleton] at hr
    rw [← hsame, getLsbD_serverFlags, hr]
    rfl
  have hiff := keepsPending_same_iff db.flagPushes item.id [item] v.flags hrep
  rw [FlagsKept, hf]
  constructor
  · rintro ⟨v', hv', hkeep, -⟩
    obtain rfl : v = v' := Option.some.inj (hv.symm.trans (hview.symm.trans hv'))
    exact hiff.1 hkeep
  · intro hagree
    refine ⟨v, hview.trans hv, hiff.2 hagree, ?_⟩
    rintro i hi -
    obtain rfl := List.mem_singleton.1 hi
    rw [flagsOf_slow happ, hf, reconciled, hsame, overlay_of_agrees hagree, ite_self]

/-- A message whose row gets the server's flags with the queue over them. -/
theorem flagsKept_overlay {verdict : MailItem → Verdict} {db' : Database} {item : MailItem}
    {v : View} (happ : Applies cx.env db.cache item) (hrep : Reports item)
    (hview : view db'.cache item.id = some v)
    (hflags : v.flags = reconciled db.flagPushes item (flagsOf db item.id)) :
    FlagsKept cx verdict db db' item.id [item] := by
  refine ⟨v, hview, ?_, ?_⟩
  · rw [hflags]
    exact (reconciledAll_spec db.flagPushes item.id [item] (by simp) (flagsOf db item.id)).2
      ⟨item, List.mem_singleton_self item, hrep⟩
  · rintro i hi -
    obtain rfl := List.mem_singleton.1 hi
    rw [hflags, flagsOf_slow happ]

/-- A message whose row gets the server's flags alone. -/
theorem flagsKept_serverFlags {verdict : MailItem → Verdict} {db' : Database} {item : MailItem}
    {v : View} (happ : Applies cx.env db.cache item) (hrep : Reports item)
    (hview : view db'.cache item.id = some v)
    (hflags : v.flags = serverFlags (flagsOf db item.id) item) :
    FlagsKept cx verdict db db' item.id [item] ↔
      PendingAgrees db.flagPushes item.id (serverFlags (flagsOf db item.id) item) := by
  constructor
  · rintro ⟨v', hv', hkeep, -⟩
    obtain rfl : v = v' := Option.some.inj (hview.symm.trans hv')
    rw [hflags] at hkeep
    exact (keepsPending_serverFlags_iff _ _ _).1 hkeep
  · intro hagree
    refine flagsKept_overlay happ hrep hview ?_
    rw [hflags, reconciled, if_neg hrep, overlay_of_agrees hagree]

/-- A message whose items all go down the slow path. -/
theorem flagsKept_slow {verdict : MailItem → Verdict} {db' : Database} {id : String}
    {items : List MailItem} (hids : ∀ item ∈ items, item.id = id)
    (hslow : ∀ item ∈ items, verdict item = .slow) {v : View}
    (hview : view db'.cache id = some v)
    (hflags : v.flags = reconciledAll db.flagPushes items (flagsOf db id)) :
    FlagsKept cx verdict db db' id items ↔
      (∃ item ∈ items, Reports item) ∨ PendingAgrees db.flagPushes id (flagsOf db id) := by
  obtain ⟨hquiet, hloud⟩ := reconciledAll_spec db.flagPushes id items hids (flagsOf db id)
  have hrest : ∀ item ∈ items, verdict item ≠ .slow → v.flags =
      flagsOf (cacheMailItem cx.json cx.env cx.now db (cx.folderFor item) item).1 item.id :=
    fun item hi hne => absurd (hslow item hi) hne
  by_cases hany : ∃ item ∈ items, Reports item
  · refine ⟨fun _ => Or.inl hany, fun _ => ⟨v, hview, ?_, hrest⟩⟩
    rw [hflags]
    exact hloud hany
  · obtain ⟨hsame, hnone⟩ := hquiet fun i hi hri => hany ⟨i, hi, hri⟩
    have hiff := keepsPending_same_iff db.flagPushes id items (flagsOf db id)
      fun b value hr => absurd ((hnone b).symm.trans hr) (by simp)
    rw [hsame] at hflags
    constructor
    · rintro ⟨v', hv', hkeep, -⟩
      obtain rfl : v = v' := Option.some.inj (hview.symm.trans hv')
      rw [hflags] at hkeep
      exact Or.inr (hiff.1 hkeep)
    · rintro (h | hagree)
      · exact absurd h hany
      · exact ⟨v, hview, hflags ▸ hiff.2 hagree, hrest⟩

/-! ### The sync pass -/

theorem updatesFor_overlayPending (w : PageWork) (id : String) :
    updatesFor (overlayPending w) id =
      ((updatesFor w id).map (overlayUpdate w.db)).filter fun u => u.expected ≠ u.flags := by
  rw [updatesFor, overlayPending, List.filter_comm, List.filter_map]
  rfl

/-- A flag change of the sync pass: the row gets the server's flags with the queue
over them. -/
theorem view_writeFlags_overlay {w : PageWork} {item : MailItem} {v : View} {flags : BitVec 64}
    (hv : view w.db.cache item.id = some v)
    (hone : updatesFor w item.id = [⟨item, v.flags, flags⟩]) :
    view (writeFlags (overlayPending w)).db.cache item.id =
      some ⟨v.folder, withPendingFlags flags (w.db.flagPushes.pendingFlagValues item.id),
        v.bodyCached⟩ := by
  have hupd := updatesFor_overlayPending w item.id
  rw [hone, List.map_singleton] at hupd
  have hv' : view (overlayPending w).db.cache item.id = some v := hv
  by_cases heq : v.flags = withPendingFlags flags (w.db.flagPushes.pendingFlagValues item.id)
  · -- nothing is left to write
    rw [List.filter_cons_of_neg (by rw [decide_eq_true_eq]; exact not_not.2 heq), List.filter_nil] at hupd
    rw [view_writeFlags_other _ hupd, hv', ← heq]
  · rw [List.filter_cons_of_pos (by rw [decide_eq_true_eq]; exact heq), List.filter_nil] at hupd
    have hexp : (overlayPending w).db.cache.getMessageFlagsById item.id = some v.flags := by
      rw [getMessageFlagsById_eq, hv']
      rfl
    have hwritten := view_writeFlags_one (overlayPending w)
      (u := overlayUpdate w.db ⟨item, v.flags, flags⟩) hupd hexp
    refine hwritten.trans ?_
    show (view (overlayPending w).db.cache item.id).map _ = _
    rw [hv']
    rfl

/-- The page applies to a message: it has items for it, and it takes all of them. -/
def SyncApplies (cx : PageContext) (db : Database) (page : List MailItem) (id : String) : Prop :=
  (∃ item ∈ page, item.id = id) ∧ ∀ item ∈ page, item.id = id →
    syncVerdict cx db page item ≠ .skip ∧
      (syncVerdict cx db page item = .slow → Applies cx.env db.cache item)

/-- The sync pass writes the row of a message: its item differs from the cached flags,
or its items go down the slow path and one reports a flag. -/
def SyncWrites (cx : PageContext) (db : Database) (page : List MailItem) (id : String) : Prop :=
  ∃ item ∈ page, item.id = id ∧
    ((∃ expected flags, syncVerdict cx db page item = .flagsOnly expected flags) ∨
      syncVerdict cx db page item = .slow ∧ Reports item)

theorem filter_eq_singleton {page : List MailItem} {item : MailItem} (hmem : item ∈ page)
    (honce : page.countP (fun i => i.id = item.id) = 1) :
    (page.filter fun i => i.id = item.id) = [item] := by
  rw [List.countP_eq_length_filter] at honce
  obtain ⟨i, hi⟩ := List.length_eq_one_iff.1 honce
  have hin : item ∈ page.filter fun i => i.id = item.id := List.mem_filter.2 ⟨hmem, by simp⟩
  rw [hi] at hin ⊢
  rw [List.mem_singleton.1 hin]

/-- A verdict of the sync pass that is not its default comes from the shortcut of an id
that occurs once. -/
theorem syncVerdict_shortcut {page : List MailItem} {item : MailItem}
    (hskip : syncVerdict cx db page item ≠ .skip) (hslow : syncVerdict cx db page item ≠ .slow) :
    page.countP (fun i => i.id = item.id) = 1 ∧ Applies cx.env db.cache item ∧
      ∃ v, view db.cache item.id = some v ∧
        ((syncVerdict cx db page item = .unchanged ∧ serverFlags v.flags item = v.flags) ∨
          syncVerdict cx db page item = .flagsOnly v.flags (serverFlags v.flags item) ∧
            serverFlags v.flags item ≠ v.flags) := by
  -- without a shortcut the verdict is `skip` or `slow`
  have hdefault : ∀ verdict, verdict ≠ Verdict.skip → verdict ≠ Verdict.slow →
      verdict ≠ if cx.predatesAppend item then Verdict.skip else .slow := by
    intro verdict h h'
    split
    · exact h
    · exact h'
  by_cases honce : page.countP (fun i => i.id = item.id) = 1
  · have heq : syncVerdict cx db page item = shortcutOr cx (cachedSyncState db.cache item.id) item
        (if cx.predatesAppend item then Verdict.skip else .slow) := if_pos honce
    exact ⟨honce, shortcutOr_spec heq.symm (hdefault _ hskip hslow)⟩
  · have heq : syncVerdict cx db page item =
        if cx.predatesAppend item then Verdict.skip else .slow := if_neg honce
    exact absurd heq (hdefault _ hskip hslow)

/-- **The sync pass** keeps the queue in force for a message exactly when it writes its
row, or the queued values are those of the row already. -/
theorem syncPage_flagsKept_iff (cx : PageContext) (db : Database) (page : List MailItem)
    (id : String) (happ : SyncApplies cx db page id) :
    FlagsKept cx (syncVerdict cx db page) db (syncPage cx db page).db id
        (page.filter fun i => i.id = id) ↔
      SyncWrites cx db page id ∨ PendingAgrees db.flagPushes id (flagsOf db id) := by
  obtain ⟨⟨item, hmem, rfl⟩, htaken⟩ := happ
  obtain ⟨hskip, hslowApp⟩ := htaken item hmem rfl
  by_cases hslow : syncVerdict cx db page item = .slow
  · -- every item of the message goes down the slow path
    have hall : ∀ i ∈ page, i.id = item.id →
        syncVerdict cx db page i = .slow ∧ Applies cx.env db.cache i := by
      intro i hi hid
      obtain ⟨hskip', happ'⟩ := htaken i hi hid
      by_cases hs : syncVerdict cx db page i = .slow
      · exact ⟨hs, happ' hs⟩
      · obtain ⟨honce, -⟩ := syncVerdict_shortcut hskip' hs
        have hin : item ∈ page.filter fun j => j.id = i.id :=
          List.mem_filter.2 ⟨hmem, by simp [hid]⟩
        rw [filter_eq_singleton hi honce] at hin
        obtain rfl := List.mem_singleton.1 hin
        exact absurd hslow hs
    obtain ⟨hflags, hupd, hsome⟩ := foldl_slow cx (syncVerdict cx db page) page
      (PageWork.start db) item.id hall
    obtain ⟨v, hv⟩ := Option.isSome_iff_exists.1 (hsome (Or.inr ⟨item, hmem, rfl⟩))
    have hupd' : updatesFor (overlayPending (page.foldl (takeItem cx (syncVerdict cx db page))
        (PageWork.start db))) item.id = [] := by
      rw [updatesFor_overlayPending, hupd]
      rfl
    have hview : view (syncPage cx db page).db.cache item.id = some v :=
      (view_writeFlags_other _ hupd').trans hv
    have hv' : v.flags = reconciledAll db.flagPushes (page.filter fun i => i.id = item.id)
        (flagsOf db item.id) := by
      rw [flagsOf, hv] at hflags
      exact hflags
    rw [flagsKept_slow (fun i hi => by simpa using (List.mem_filter.1 hi).2)
      (fun i hi => (hall i (List.mem_filter.1 hi).1
        (by simpa using (List.mem_filter.1 hi).2)).1) hview hv']
    refine or_congr ?_ Iff.rfl
    constructor
    · rintro ⟨i, hi, hrep⟩
      obtain ⟨hi, hid⟩ := List.mem_filter.1 hi
      have hid' : i.id = item.id := by simpa using hid
      exact ⟨i, hi, hid', Or.inr ⟨(hall i hi hid').1, hrep⟩⟩
    · rintro ⟨i, hi, hid, ⟨e, f, hv⟩ | ⟨-, hrep⟩⟩
      · rw [(hall i hi hid).1] at hv
        cases hv
      · exact ⟨i, List.mem_filter.2 ⟨hi, by simpa using hid⟩, hrep⟩
  · obtain ⟨honce, happ, v, hv, hcase⟩ := syncVerdict_shortcut hskip hslow
    have hsingle := filter_eq_singleton hmem honce
    -- the only item of the message is this one
    have honly : ∀ i ∈ page, i.id = item.id → i = item := by
      intro i hi hid
      have hin : i ∈ page.filter fun j => j.id = item.id :=
        List.mem_filter.2 ⟨hi, by simpa using hid⟩
      rw [hsingle] at hin
      exact List.mem_singleton.1 hin
    rw [hsingle]
    rcases hcase with ⟨hverdict, hsame⟩ | ⟨hverdict, hdiff⟩
    · obtain ⟨hview, hupd⟩ := foldl_shortcut cx (syncVerdict cx db page) page db [] hsingle
        (Or.inl ⟨hverdict, rfl⟩)
      have hupd' : updatesFor (overlayPending (page.foldl (takeItem cx (syncVerdict cx db page))
          (PageWork.start db))) item.id = [] := by
        rw [updatesFor_overlayPending, hupd]
        rfl
      have hkept := flagsKept_unchanged (syncVerdict cx db page)
        (syncPage cx db page).db happ hv hsame
        ((view_writeFlags_other _ hupd').trans hview)
      refine hkept.trans ⟨Or.inr, fun h => h.resolve_left ?_⟩
      rintro ⟨i, hi, hid, hw⟩
      obtain rfl := honly i hi hid
      rcases hw with ⟨e, f, hw⟩ | ⟨hw, -⟩
      · rw [hverdict] at hw
        cases hw
      · exact hslow hw
    · obtain ⟨hview, hupd⟩ := foldl_shortcut cx (syncVerdict cx db page) page db _ hsingle
        (Or.inr ⟨_, _, hverdict, rfl⟩)
      have hrep := reports_of_serverFlags_ne hdiff
      have hf : flagsOf db item.id = v.flags := by rw [flagsOf, hv]; rfl
      have hwritten := view_writeFlags_overlay (hview.trans hv) hupd
      rw [flagPushes_foldl] at hwritten
      refine ⟨fun _ => Or.inl ⟨item, hmem, rfl, Or.inl ⟨_, _, hverdict⟩⟩, fun _ => ?_⟩
      refine flagsKept_overlay happ hrep hwritten ?_
      rw [hf, reconciled, if_neg hrep]
      rfl

/-! ### The history sweep -/

theorem mem_uniqueItems {seen : List String} {page : List MailItem} {item : MailItem}
    (h : item ∈ uniqueItems seen page) : item.id ∉ seen := by
  induction page generalizing seen with
  | nil => exact absurd h List.not_mem_nil
  | cons i is ih =>
      rw [uniqueItems] at h
      split at h
      · rename_i hi
        rcases List.mem_cons.1 h with rfl | h
        · simpa using (Bool.and_eq_true_iff.1 hi).2
        · exact fun hs => ih h (List.mem_cons_of_mem i.id hs)
      · exact ih h

/-- The indexer takes one item for a message. -/
theorem filter_uniqueItems {seen : List String} {page : List MailItem} {item : MailItem}
    (h : item ∈ uniqueItems seen page) :
    ((uniqueItems seen page).filter fun i => i.id = item.id) = [item] := by
  induction page generalizing seen with
  | nil => exact absurd h List.not_mem_nil
  | cons i is ih =>
      rw [uniqueItems] at h ⊢
      split at h
      · rename_i hi
        rw [if_pos hi]
        rcases List.mem_cons.1 h with rfl | h
        · rw [List.filter_cons_of_pos (by simp)]
          refine congrArg (item :: ·) (List.filter_eq_nil_iff.2 fun j hj => ?_)
          have hne := mem_uniqueItems hj
          have hid : j.id ≠ item.id := fun heq => hne (heq ▸ List.mem_cons_self)
          simpa using hid
        · have hne := mem_uniqueItems h
          have hid : i.id ≠ item.id := fun heq => hne (heq ▸ List.mem_cons_self)
          rw [List.filter_cons_of_neg (by simpa using hid)]
          exact ih h
      · rename_i hi
        rw [if_neg hi]
        exact ih h

/-- The indexer applies an item: it does not skip it, and on the slow path the item can
be applied. -/
def IndexApplies (cx : PageContext) (custom light : Bool) (db : Database) (item : MailItem) :
    Prop :=
  indexVerdict cx custom light db item ≠ .skip ∧
    (indexVerdict cx custom light db item = .slow → Applies cx.env db.cache item)

/-- When the indexer keeps the queue in force: on the slow path as the sync pass does, on
the shortcut only if the server's flags have the queued values already. -/
def IndexAgrees (cx : PageContext) (custom light : Bool) (db : Database) (item : MailItem) :
    Prop :=
  if indexVerdict cx custom light db item = .slow then
    Reports item ∨ PendingAgrees db.flagPushes item.id (flagsOf db item.id)
  else PendingAgrees db.flagPushes item.id (serverFlags (flagsOf db item.id) item)

theorem indexVerdict_shortcut {custom light : Bool} {item : MailItem}
    (hskip : indexVerdict cx custom light db item ≠ .skip)
    (hslow : indexVerdict cx custom light db item ≠ .slow) :
    Applies cx.env db.cache item ∧ ∃ v, view db.cache item.id = some v ∧
      ((indexVerdict cx custom light db item = .unchanged ∧ serverFlags v.flags item = v.flags) ∨
        indexVerdict cx custom light db item = .flagsOnly v.flags (serverFlags v.flags item) ∧
          serverFlags v.flags item ≠ v.flags) := by
  by_cases hs : skipsItem cx custom (cachedSyncState db.cache item.id) item = true
  · exact absurd (if_pos hs) hskip
  · have heq : indexVerdict cx custom light db item =
        shortcutOr cx (cachedSyncState db.cache item.id) item
          (if light && item.envelopeEmpty then .skip else .slow) := if_neg hs
    refine shortcutOr_spec heq.symm ?_
    split
    · exact hskip
    · exact hslow

/-- **The history sweep** keeps the queue in force for a message exactly when the
server's flags do not contradict it, or the item goes down the slow path. -/
theorem indexPage_flagsKept_iff (cx : PageContext) (custom light : Bool) (db : Database)
    (page : List MailItem) (item : MailItem) (hmem : item ∈ uniqueItems [] page)
    (happ : IndexApplies cx custom light db item) :
    FlagsKept cx (indexVerdict cx custom light db) db (indexPage cx custom light db page).db
        item.id [item] ↔
      IndexAgrees cx custom light db item := by
  obtain ⟨hskip, hslowApp⟩ := happ
  have hsingle := filter_uniqueItems hmem
  have honly : ∀ i ∈ uniqueItems [] page, i.id = item.id → i = item := by
    intro i hi hid
    have hin : i ∈ (uniqueItems [] page).filter fun j => j.id = item.id :=
      List.mem_filter.2 ⟨hi, by simpa using hid⟩
    rw [hsingle] at hin
    exact List.mem_singleton.1 hin
  by_cases hslow : indexVerdict cx custom light db item = .slow
  · obtain ⟨hflags, hupd, hsome⟩ := foldl_slow cx (indexVerdict cx custom light db)
      (uniqueItems [] page) (PageWork.start db) item.id
      fun i hi hid => honly i hi hid ▸ ⟨hslow, hslowApp hslow⟩
    obtain ⟨v, hv⟩ := Option.isSome_iff_exists.1 (hsome (Or.inr ⟨item, hmem, rfl⟩))
    have hview : view (indexPage cx custom light db page).db.cache item.id = some v :=
      (view_writeFlags_other _ hupd).trans hv
    have hv' : v.flags = reconciledAll db.flagPushes [item] (flagsOf db item.id) := by
      rw [flagsOf, hv, hsingle] at hflags
      exact hflags
    rw [IndexAgrees, if_pos hslow, flagsKept_slow (by simp) (by simpa using hslow) hview hv']
    simp
  · obtain ⟨happ, v, hv, hcase⟩ := indexVerdict_shortcut hskip hslow
    have hf : flagsOf db item.id = v.flags := by rw [flagsOf, hv]; rfl
    rw [IndexAgrees, if_neg hslow]
    rcases hcase with ⟨hverdict, hsame⟩ | ⟨hverdict, hdiff⟩
    · obtain ⟨hview, hupd⟩ := foldl_shortcut cx (indexVerdict cx custom light db)
        (uniqueItems [] page) db [] hsingle
        (Or.inl ⟨hverdict, rfl⟩)
      rw [flagsKept_unchanged _ (indexPage cx custom light db page).db happ hv hsame
        ((view_writeFlags_other _ hupd).trans hview), hf, hsame]
    · obtain ⟨hview, hupd⟩ := foldl_shortcut cx (indexVerdict cx custom light db)
        (uniqueItems [] page) db _ hsingle
        (Or.inr ⟨_, _, hverdict, rfl⟩)
      have hexp : ((uniqueItems [] page).foldl (takeItem cx (indexVerdict cx custom light db))
          (PageWork.start db)).db.cache.getMessageFlagsById item.id = some v.flags := by
        rw [getMessageFlagsById_eq, hview]
        show (view db.cache item.id).map _ = _
        rw [hv]
        rfl
      have hwritten := view_writeFlags_one _ (u := ⟨item, v.flags, serverFlags v.flags item⟩)
        hupd hexp
      have hwritten' : view (indexPage cx custom light db page).db.cache item.id =
          some ⟨v.folder, serverFlags v.flags item, v.bodyCached⟩ := by
        refine hwritten.trans ?_
        rw [hview]
        show (view db.cache item.id).map _ = _
        rw [hv]
        rfl
      exact flagsKept_serverFlags happ (reports_of_serverFlags_ne hdiff) hwritten' (by rw [hf])

end Consumers

/-- A flag change whose row has changed since it was read keeps the queue in force, in
either consumer. -/
theorem writeFlags_stale_keeps (w : PageWork) {u : FlagUpdate} {v : View}
    (hone : updatesFor w u.item.id = [u]) (hrep : Reports u.item)
    (hv : view w.db.cache u.item.id = some v) (hstale : v.flags ≠ u.expected) :
    ∃ v', view (writeFlags w).db.cache u.item.id = some v' ∧
      KeepsPending w.db.flagPushes u.item.id [u.item] v.flags v'.flags := by
  have hexp : w.db.cache.getMessageFlagsById u.item.id ≠ some u.expected := by
    rw [getMessageFlagsById_eq, hv]
    exact fun h => hstale (Option.some.inj h)
  have hwritten := view_writeFlags_stale w hone hexp
  rw [hv] at hwritten
  exact ⟨_, hwritten, (reconciledAll_spec w.db.flagPushes u.item.id [u.item] (by simp) v.flags).2
    ⟨u.item, List.mem_singleton_self u.item, hrep⟩⟩

/-- **Listings and the queue.** For every page, cached state and queue: the sync pass and
the indexer of the history sweep each keep the queued local flags in force, and leave on
the shortcut what the slow path leaves, exactly under their conditions. A row that changes
between the read of the page and the write is reconciled and keeps the queue in force. -/
theorem page_keeps_pending (cx : PageContext) (db : Database) (page : List MailItem) :
    (∀ id, SyncApplies cx db page id →
      (FlagsKept cx (syncVerdict cx db page) db (syncPage cx db page).db id
          (page.filter fun i => i.id = id) ↔
        SyncWrites cx db page id ∨ PendingAgrees db.flagPushes id (flagsOf db id))) ∧
    (∀ custom light, ∀ item ∈ uniqueItems [] page, IndexApplies cx custom light db item →
      (FlagsKept cx (indexVerdict cx custom light db) db (indexPage cx custom light db page).db
          item.id [item] ↔
        IndexAgrees cx custom light db item)) ∧
    ∀ (w : PageWork) (u : FlagUpdate) (v : View), updatesFor w u.item.id = [u] →
      Reports u.item → view w.db.cache u.item.id = some v → v.flags ≠ u.expected →
      ∃ v', view (writeFlags w).db.cache u.item.id = some v' ∧
        KeepsPending w.db.flagPushes u.item.id [u.item] v.flags v'.flags :=
  ⟨fun id happ => syncPage_flagsKept_iff cx db page id happ,
    fun custom light item hmem happ =>
      indexPage_flagsKept_iff cx custom light db page item hmem happ,
    fun w _ _ hone hrep hv hstale => writeFlags_stale_keeps w hone hrep hv hstale⟩

/-- Every item is listed in the inbox and opens to a message with a body. -/
def plainContext : PageContext where
  json := plainHeaders
  env := plainEnvelopes (some "b")
  now := "2026"
  folderFor _ := "inbox"
  predatesAppend _ := false

/-- A cached message that was read locally; the server has still to be told. -/
def readLocally : Database where
  cache := (cacheMailItem plainHeaders (plainEnvelopes (some "b")) "2026" Database.empty "inbox"
    (plainItem "m")).1.cache.setMessageFlagsById "m" 1
  flagPushes := FlagPushQueue.recordPendingFlagPushes Table.empty 0 [("m", true)] 0
  changeLog := ChangeLog.empty

/-- The server's item still says unread. -/
def unreadItem : MailItem := ⟨"m", some false, none, none, false⟩

theorem page_keeps_pending_readLocally :
    FlagsKept plainContext (syncVerdict plainContext readLocally [unreadItem]) readLocally
      (syncPage plainContext readLocally [unreadItem]).db "m" [unreadItem] :=
  ((page_keeps_pending plainContext readLocally [unreadItem]).1 "m"
    ⟨⟨unreadItem, by simp, rfl⟩, fun i hi _ => by
      obtain rfl := List.mem_singleton.1 hi
      exact ⟨by decide +kernel, fun h => absurd h (by decide +kernel)⟩⟩).2
    (Or.inl ⟨unreadItem, by simp, rfl, Or.inl ⟨1, 0, by decide +kernel⟩⟩)

/-- The history sweep sets the message back to unread, so not every page keeps the
queue in force. -/
theorem indexPage_drops_pending :
    ¬ ∀ cx db page custom light, ∀ item ∈ uniqueItems [] page, IndexApplies cx custom light db item →
      FlagsKept cx (indexVerdict cx custom light db) db (indexPage cx custom light db page).db
        item.id [item] := by
  intro h
  have happ : IndexApplies plainContext false false readLocally unreadItem :=
    ⟨by decide +kernel, fun h => absurd h (by decide +kernel)⟩
  obtain ⟨v, hv, hkeep, -⟩ := h plainContext readLocally [unreadItem] false false unreadItem
    (by decide +kernel) happ
  have hzero : (view (indexPage plainContext false false readLocally [unreadItem]).db.cache
      "m").map (·.flags) = some 0 := by decide +kernel
  have hflags : v.flags = 0 := by
    rw [show view _ "m" = some v from hv] at hzero
    exact Option.some.inj hzero
  have hbit := hkeep 0
  rw [hflags] at hbit
  exact absurd hbit (by decide +kernel)

end AsterBridge.Sync
