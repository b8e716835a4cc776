import AsterBridge.Imap.Import
import AsterBridge.Sync.Views

/-!
# What an import leaves behind

However the server treats the requests of `import_message`, and wherever the bridge stops, the
items, drafts and cached messages that were there stay as they were (`Undisturbed`), and at most
one item is new (`ImportEnd`). What the caller learns of this item is `ImportResult`: a stored
message is on the server with every attachment, and after an error that does not say otherwise it
is there only where an answer was lost.
-/

set_option autoImplicit false

namespace AsterBridge.Imap

open AsterBridge.Lib AsterBridge.Lib.Faults AsterBridge.Lib.Faults.Prog AsterBridge.Db
  AsterBridge.Db.Cache AsterBridge.Sync AsterBridge.Sync.Attachments AsterBridge.Render

/-! ## From one world to a later one -/

/-- The counters only grow. -/
structure Later (w w' : World) : Prop where
  issued : w.issued ≤ w'.issued
  draws : w.draws ≤ w'.draws
  lost : w.lost ≤ w'.lost
  faults : w.faults ≤ w'.faults

theorem Later.refl (w : World) : Later w w := ⟨le_rfl, le_rfl, le_rfl, le_rfl⟩

theorem Later.trans {w₁ w₂ w₃ : World} (h : Later w₁ w₂) (h' : Later w₂ w₃) : Later w₁ w₃ :=
  ⟨h.issued.trans h'.issued, h.draws.trans h'.draws, h.lost.trans h'.lost,
    h.faults.trans h'.faults⟩

/-- `Later` reads the counters only. -/
theorem Later.counters {w w' : World} (h : Later w w') {items : List ServerItem}
    {drafts : List ServerDraft} {jobs : List ImportJob} {slot : Option String}
    {store : LocalStore} :
    Later w ⟨items, drafts, jobs, w'.issued, slot, w'.draws, store, w'.lost, w'.faults⟩ :=
  ⟨h.issued, h.draws, h.lost, h.faults⟩

/-- Neither the mail of the server nor a local table changes. -/
structure Stays (w w' : World) : Prop where
  later : Later w w'
  items : w'.items = w.items
  drafts : w'.drafts = w.drafts
  store : w'.store = w.store
  faults : w'.faults = w.faults

theorem Stays.refl (w : World) : Stays w w := ⟨Later.refl w, rfl, rfl, rfl, rfl⟩

theorem Stays.trans {w₁ w₂ w₃ : World} (h : Stays w₁ w₂) (h' : Stays w₂ w₃) : Stays w₁ w₃ where
  later := h.later.trans h'.later
  items := h'.items.trans h.items
  drafts := h'.drafts.trans h.drafts
  store := h'.store.trans h.store
  faults := h'.faults.trans h.faults

/-- A lost answer is counted. -/
theorem Stays.answerLost {w w' : World} (h : Stays w w') :
    Stays w { w' with lost := w'.lost + 1 } :=
  ⟨⟨h.later.issued, h.later.draws, h.later.lost.trans (Nat.le_succ _), h.later.faults⟩, h.items,
    h.drafts, h.store, h.faults⟩

/-- An item that was not there before: its id is one that the server gave out since. -/
structure Added (s : MailServer) (w : World) (item : ServerItem) (w' : World) : Prop where
  later : Later w w'
  items : w'.items = item :: w.items
  drafts : w'.drafts = w.drafts
  store : w'.store = w.store
  faults : w'.faults = w.faults
  id : ∃ k, w.issued ≤ k ∧ k < w'.issued ∧ item.id = s.newId k

theorem Added.stays {s : MailServer} {w w₁ w₂ : World} {item : ServerItem}
    (h : Added s w item w₁) (h' : Stays w₁ w₂) : Added s w item w₂ where
  later := h.later.trans h'.later
  items := h'.items.trans h.items
  drafts := h'.drafts.trans h.drafts
  store := h'.store.trans h.store
  faults := h'.faults.trans h.faults
  id := by
    obtain ⟨k, hk, hlt, hid⟩ := h.id
    exact ⟨k, hk, hlt.trans_le h'.later.issued, hid⟩

/-- The ids that the server will give out, and the envelopes that will be sealed, are new. -/
structure Fresh (s : MailServer) (x : ImportCrates) (w : World) : Prop where
  item : ∀ item ∈ w.items, ∀ n, w.issued ≤ n → item.id ≠ s.newId n
  draft : ∀ draft ∈ w.drafts, ∀ n, w.issued ≤ n → draft.id ≠ s.newId n
  row : ∀ n, w.issued ≤ n → w.store.db.cache.messageCache.get? (s.newId n) = none
  uid : ∀ n folder, w.issued ≤ n → w.store.db.cache.uidMap.get? (s.newId n, folder) = none
  pending : ∀ n, w.issued ≤ n → w.store.db.flagPushes.pendingFlagValues (s.newId n) = []
  envelope : ∀ item ∈ w.items, ∀ n text sealed, w.draws ≤ n → x.sealEnvelope n text = .ok sealed →
    item.email.encryptedEnvelope ≠ sealed.1

/-! ## Requests -/

section Requests

variable {α : Type} {act : World → Except String α × World} {I : World → Prop}

theorem wp_request {post : Exit α → World → Prop} {w : World} (hdied : post .died w)
    (hrefused : ∀ e, post (.failed e) w)
    (hlost : ∀ e, post (.failed e) { (act w).2 with lost := (act w).2.lost + 1 })
    (hanswered : match act w with
      | (.ok a, w') => post (.done a) w'
      | (.error e, w') => post (.failed e) w') : wp (request act) post w := by
  apply wp_operation hdied
  intro t
  cases t.error with
  | none =>
      dsimp only
      generalize act w = answer at hanswered ⊢
      obtain ⟨result, w'⟩ := answer
      cases result with
      | ok a => exact hanswered
      | error e => exact hanswered
  | some e =>
      dsimp only
      by_cases hchoice : t.choice
      · rw [if_pos hchoice]
        exact hlost e
      · rw [if_neg hchoice]
        exact hrefused e

theorem keeps_request (hact : ∀ w, I w → I (act w).2)
    (hlost : ∀ w, I w → I { w with lost := w.lost + 1 }) : Keeps I (request act) := by
  apply keeps_operation
  intro t w hw
  cases t.error with
  | none => exact hact w hw
  | some e =>
      dsimp only
      by_cases hchoice : t.choice
      · rw [if_pos hchoice]
        exact hlost _ (hact w hw)
      · rw [if_neg hchoice]
        exact hw

theorem wp_localWrite {act : World → α × World} {post : Exit α → World → Prop} {w : World}
    (hdied : post .died w) (hfailed : ∀ e, post (.failed e) { w with faults := w.faults + 1 })
    (hdone : post (.done (act w).1) (act w).2) : wp (localWrite act) post w := by
  apply wp_operation hdied
  intro t
  cases t.error with
  | none => exact hdone
  | some e => exact hfailed e

end Requests

/-! ## Steps that store nothing -/

/-- A program that stores nothing and deletes nothing. -/
def Quiet {α : Type} (p : Prog World α) : Prop := ∀ w₀, Keeps (Stays w₀) p

section Quiet

variable {α β : Type} {p : Prog World α} {f : α → Prog World β}
  {s : MailServer} {x : ImportCrates}

theorem Quiet.wp (h : Quiet p) (w : World) : wp p (fun _ w' => Stays w w') w :=
  h w w (Stays.refl w)

theorem Quiet.bind (hp : Quiet p) (hf : ∀ a, Quiet (f a)) : Quiet (p >>= f) := fun w₀ =>
  (hp w₀).bind fun a => hf a w₀

theorem quiet_pure (a : α) : Quiet (pure a : Prog World α) := fun _ => keeps_pure a

theorem quiet_look (g : World → α) : Quiet (look g) := fun _ => keeps_look g

theorem Quiet.attempt (hp : Quiet p) : Quiet p.attempt := fun w₀ => (hp w₀).attempt

theorem Quiet.retry (hp : Quiet p) (again : String → Bool) (attempts : Nat) :
    Quiet (retry again p attempts) := by
  induction attempts with
  | zero =>
      apply hp.attempt.bind
      intro r
      exact quiet_pure _
  | succ attempts ih =>
      apply hp.attempt.bind
      intro r
      cases r with
      | ok a => exact quiet_pure _
      | error e =>
          dsimp only
          by_cases hagain : again e
          · rw [if_pos hagain]
            exact ih
          · rw [if_neg hagain]
            exact quiet_pure _

/-- A request that leaves mail and local tables alone. -/
theorem quiet_request {act : World → Except String α × World} (h : ∀ w, Stays w (act w).2) :
    Quiet (request act) := fun _ =>
  keeps_request (fun w hw => hw.trans (h w)) fun _ hw => hw.answerLost

theorem quiet_listImportJobs : Quiet listImportJobs :=
  quiet_request fun w => Stays.refl w

theorem quiet_createImportJob (source : String) : Quiet (createImportJob s source) :=
  quiet_request fun w =>
    ⟨⟨Nat.le_succ w.issued, le_rfl, le_rfl, le_rfl⟩, rfl, rfl, rfl, rfl⟩

theorem quiet_updateImportJob (id status : String) : Quiet (updateImportJob id status) := by
  apply quiet_request
  intro w
  split
  · exact ⟨⟨le_rfl, le_rfl, le_rfl, le_rfl⟩, rfl, rfl, rfl, rfl⟩
  · exact Stays.refl w

theorem quiet_slot (slot : Option String) : Quiet (modify fun w => { w with slot }) := fun _ =>
  keeps_modify fun _ hw =>
    ⟨⟨hw.later.issued, hw.later.draws, hw.later.lost, hw.later.faults⟩, hw.items, hw.drafts,
      hw.store, hw.faults⟩

theorem quiet_adoptableImportJob (sameSourceOnly : Bool) :
    Quiet (adoptableImportJob sameSourceOnly) := by
  apply quiet_listImportJobs.attempt.bind
  intro r
  cases r with
  | error e => exact quiet_pure _
  | ok listed =>
      dsimp only
      split
      · exact quiet_pure _
      · exact quiet_pure _

theorem quiet_startImportJob (jobId : String) : Quiet (startImportJob x jobId) := by
  apply ((quiet_updateImportJob jobId _).retry _ _).bind
  intro r
  obtain ⟨result, attempts⟩ := r
  cases result with
  | error e => exact quiet_pure _
  | ok _ => exact (quiet_slot _).bind fun _ => quiet_pure _

/-- The end of a round of `createJob` that gives up. -/
theorem quiet_adopt (sameSourceOnly : Bool) {other : Prog World (Except String String)}
    (h : Quiet other) :
    Quiet (do
      match ← adoptableImportJob sameSourceOnly with
      | some adopted => pure (.ok adopted)
      | none => other) := by
  apply (quiet_adoptableImportJob sameSourceOnly).bind
  intro r
  cases r with
  | none => exact h
  | some adopted => exact quiet_pure _

theorem quiet_createJob (attempts : Nat) : Quiet (createJob s x attempts) := by
  induction attempts with
  | zero =>
      apply (quiet_createImportJob _).attempt.bind
      intro r
      cases r with
      | ok id => exact quiet_pure _
      | error e => exact quiet_adopt false (quiet_pure _)
  | succ attempts ih =>
      apply (quiet_createImportJob _).attempt.bind
      intro r
      cases r with
      | ok id => exact quiet_pure _
      | error e =>
          dsimp only
          by_cases hagain : isRetryable x.T e
          · rw [if_pos hagain]
            exact quiet_adopt true ih
          · rw [if_neg hagain]
            exact quiet_adopt false (quiet_pure _)

theorem quiet_processingImportJob : Quiet (processingImportJob s x) := by
  apply (quiet_look _).bind
  intro slot
  cases slot with
  | some existing => exact quiet_pure _
  | none =>
      apply (quiet_adoptableImportJob true).bind
      intro r
      cases r with
      | some adopted => exact quiet_startImportJob adopted
      | none =>
          apply (quiet_createJob rateLimitAttempts).bind
          intro created
          cases created with
          | error e => exact quiet_pure _
          | ok jobId => exact quiet_startImportJob jobId

end Quiet

/-! ## Storing the item -/

section Store

variable {s : MailServer} {x : ImportCrates} {w₀ w : World} {email : ImportedEmail}

/-- The store was tried since `w₀`: where it took effect, the answer was lost. -/
def Tried (s : MailServer) (w₀ : World) (email : ImportedEmail) (w : World) : Prop :=
  Stays w₀ w ∨
    ∃ item : ServerItem, item.email = email ∧ Added s w₀ item w ∧ w₀.lost < w.lost

theorem Tried.stays {w' : World} (h : Tried s w₀ email w) (h' : Stays w w') :
    Tried s w₀ email w' := by
  rcases h with h | ⟨item, hemail, hadded, hlost⟩
  · exact Or.inl (h.trans h')
  · exact Or.inr ⟨item, hemail, hadded.stays h', hlost.trans_le h'.later.lost⟩

/-- The item that `store_imported_emails` puts on the server. -/
theorem added_new (h : Stays w₀ w) :
    Added s w₀ ⟨s.newId w.issued, email, []⟩
      { w with
        items := ⟨s.newId w.issued, email, []⟩ :: w.items
        issued := w.issued + 1 } where
  later := ⟨h.later.issued.trans (Nat.le_succ _), h.later.draws, h.later.lost, h.later.faults⟩
  items := congrArg _ h.items
  drafts := h.drafts
  store := h.store
  faults := h.faults
  id := ⟨w.issued, h.later.issued, Nat.lt_succ_self _, rfl⟩

/-- An email is refused, or counted as one that is not stored, or stored. -/
theorem takeEmail_cases (s : MailServer) (jobId : String) (email : ImportedEmail) (w : World) :
    (∃ e, takeEmail s jobId email w = (.error e, w)) ∨
      (∃ r, r.storedCount = 0 ∧ takeEmail s jobId email w = (.ok r, w)) ∨
        (w.items.any fun item => item.sameHashes email) = false ∧
          takeEmail s jobId email w = (.ok ⟨1, 0, 0, false⟩,
            { w with
              items := ⟨s.newId w.issued, email, []⟩ :: w.items
              issued := w.issued + 1 }) := by
  unfold takeEmail
  split
  · exact Or.inl ⟨_, rfl⟩
  · split
    · exact Or.inr (Or.inl ⟨_, rfl, rfl⟩)
    · rename_i hnew
      cases hjudge : s.judge w.items email with
      | some r => exact Or.inr (Or.inl ⟨r, s.judge_storedCount _ _ _ hjudge, rfl⟩)
      | none => exact Or.inr (Or.inr ⟨Bool.eq_false_iff.2 hnew, rfl⟩)

/-- What an answer says: the item is there, or nothing came of this request. -/
def Answered (s : MailServer) (w₀ : World) (email : ImportedEmail) (response : StoreResponse)
    (w : World) : Prop :=
  (response.storedCount = 0 ∧ Tried s w₀ email w) ∨
    (response = ⟨1, 0, 0, false⟩ ∧
      ∃ item : ServerItem, item.email = email ∧ item.attachments = [] ∧ Added s w₀ item w)

theorem wp_storeImportedEmails (jobId : String) (h : Tried s w₀ email w) :
    wp (storeImportedEmails s jobId email)
      (Ends (Answered s w₀ email) (Tried s w₀ email) (Tried s w₀ email)) w := by
  rcases takeEmail_cases s jobId email w with ⟨e, hact⟩ | ⟨response, hcount, hact⟩ | ⟨hnew, hact⟩
  · refine wp_request h (fun _ => h) ?_ ?_
    · intro e'
      rw [hact]
      exact h.stays (Stays.refl w).answerLost
    · rw [hact]
      exact h
  · refine wp_request h (fun _ => h) ?_ ?_
    · intro e
      rw [hact]
      exact h.stays (Stays.refl w).answerLost
    · rw [hact]
      exact Or.inl ⟨hcount, h⟩
  · -- the email is stored, so nothing of this import was stored before
    have hstays : Stays w₀ w := by
      rcases h with h | ⟨item, hemail, hadded, _⟩
      · exact h
      · exfalso
        rw [hadded.items, List.any_cons] at hnew
        simp [ServerItem.sameHashes, hemail] at hnew
    refine wp_request h (fun _ => h) ?_ ?_
    · intro e
      rw [hact]
      exact Or.inr ⟨_, rfl, (added_new hstays).stays (Stays.refl _).answerLost,
        Nat.lt_succ_of_le hstays.later.lost⟩
    · rw [hact]
      exact Or.inr ⟨rfl, _, rfl, rfl, added_new hstays⟩

/-- What the end of `storeEmail` says of the server. -/
def StoreEnd (s : MailServer) (w₀ : World) (email : ImportedEmail) :
    Exit (Except ImportError StoreResponse) → World → Prop
  | .done (.ok response), w => Answered s w₀ email response w
  | .done (.error e), w => Tried s w₀ email w ∧ ¬e.LeavesItem
  | .failed _, w => Tried s w₀ email w
  | .died, w => Tried s w₀ email w

theorem wp_retryStore (jobId : String) (attempts : Nat) (h : Tried s w₀ email w) :
    wp (retry (isRetryable x.T) (storeImportedEmails s jobId email) attempts)
      (Retried (Answered s w₀ email) (Tried s w₀ email) (Tried s w₀ email)) w :=
  wp_retry (fun _ h => wp_storeImportedEmails jobId h) attempts w h

theorem wp_processingImportJob (h : Tried s w₀ email w)
    {next : Except String String → Prog World (Except ImportError StoreResponse)}
    (herror : ∀ e w', Tried s w₀ email w' → wp (next (.error e)) (StoreEnd s w₀ email) w')
    (hok : ∀ jobId w', Tried s w₀ email w' → wp (next (.ok jobId)) (StoreEnd s w₀ email) w') :
    wp (processingImportJob s x >>= next) (StoreEnd s w₀ email) w := by
  refine wp_bind (wp_mono (quiet_processingImportJob.wp w) ?_)
  intro r w' hstays
  have hw' : Tried s w₀ email w' := h.stays hstays
  cases r with
  | done job =>
      cases job with
      | error e => exact herror e w' hw'
      | ok jobId => exact hok jobId w' hw'
  | failed e => exact hw'
  | died => exact hw'

/-- **Storing an email**: it is on the server once at most, and only an answer that was lost
hides it. -/
theorem wp_storeEmail (h : Stays w₀ w) :
    wp (storeEmail s x email) (StoreEnd s w₀ email) w := by
  have hnoJob : ∀ e w', Tried s w₀ email w' →
      wp (pure (.error (.noJob e)) : Prog World (Except ImportError StoreResponse))
        (StoreEnd s w₀ email) w' :=
    fun e w' h => wp_pure ⟨h, not_false⟩
  apply wp_processingImportJob (Or.inl h) hnoJob
  intro jobId w' h
  refine wp_bind (wp_mono (wp_retryStore jobId rateLimitAttempts h) ?_)
  intro r w₁ hr
  cases r with
  | failed e => exact hr.elim
  | died => exact hr
  | done result =>
      obtain ⟨result, attempts⟩ := result
      cases result with
      | ok response => exact wp_pure hr
      | error e =>
          -- the second round starts from another job
          refine wp_bind (wp_modify ?_)
          have hslot : Tried s w₀ email { w₁ with slot := none } :=
            hr.stays ⟨⟨le_rfl, le_rfl, le_rfl, le_rfl⟩, rfl, rfl, rfl, rfl⟩
          apply wp_processingImportJob hslot hnoJob
          intro jobId w₂ h₂
          refine wp_bind (wp_mono (wp_retryStore jobId attempts h₂) ?_)
          intro r w₃ hr
          cases r with
          | failed e => exact hr.elim
          | died => exact hr
          | done result =>
              obtain ⟨result, attempts⟩ := result
              cases result with
              | ok response => exact wp_pure hr
              | error e => exact wp_pure ⟨hr, not_false⟩

end Store

/-! ## The item that was stored -/

section Item

variable {s : MailServer} {x : ImportCrates} {w₀ w : World} {item : ServerItem}

/-- No item of a world has an id that the server gives out later. -/
def FreshIds (s : MailServer) (w : World) : Prop :=
  ∀ item ∈ w.items, ∀ n, w.issued ≤ n → item.id ≠ s.newId n

theorem FreshIds.ne (h : FreshIds s w₀) (hadded : Added s w₀ item w) {old : ServerItem}
    (hold : old ∈ w₀.items) : old.id ≠ item.id := by
  obtain ⟨k, hk, _, hid⟩ := hadded.id
  rw [hid]
  exact h old hold k hk

/-- The new item is the one that a change of its id changes. -/
theorem editItem_added (hfresh : FreshIds s w₀) (h : Added s w₀ item w)
    {f : ServerItem → ServerItem} (hid : (f item).id = item.id) :
    ∃ w', editItem item.id f w = (.ok (), w') ∧ Added s w₀ (f item) w' := by
  have hthere : (w.items.any fun i => i.id = item.id) = true := by
    simp [h.items]
  have hitems : (w.items.map fun i => if i.id = item.id then f i else i) = f item :: w₀.items := by
    rw [h.items, List.map_cons, if_pos rfl]
    apply congrArg
    conv_rhs => rw [← List.map_id w₀.items]
    apply List.map_congr_left
    intro old hold
    exact if_neg (hfresh.ne h hold)
  unfold editItem
  rw [if_pos hthere]
  refine ⟨_, rfl, h.later.counters, hitems, h.drafts, h.store, h.faults, ?_⟩
  obtain ⟨k, hk, hlt, hnew⟩ := h.id
  exact ⟨k, hk, hlt, hid.trans hnew⟩

/-- A request that changes the new item. -/
theorem wp_changeItem (hfresh : FreshIds s w₀) (h : Added s w₀ item w)
    {f : ServerItem → ServerItem} (hid : (f item).id = item.id) :
    wp (changeItem item.id f)
      (Ends (fun _ => Added s w₀ (f item))
        (fun w' => Added s w₀ item w' ∨ Added s w₀ (f item) w') (Added s w₀ item)) w := by
  obtain ⟨w', hact, hadded⟩ := editItem_added hfresh h hid
  refine wp_request h (fun _ => Or.inl h) ?_ ?_
  · intro e
    rw [hact]
    exact Or.inr (hadded.stays (Stays.refl w').answerLost)
  · rw [hact]
    exact hadded

/-- The deletion of the new item. -/
theorem wp_deleteNewItem (hfresh : FreshIds s w₀) (h : Added s w₀ item w) :
    wp (deleteMailItemPermanent item.id)
      (Ends (fun _ => Stays w₀) (fun w' => Stays w₀ w' ∨ Added s w₀ item w') (Added s w₀ item))
      w := by
  have hthere : (w.items.any fun i => i.id = item.id) = true := by
    simp [h.items]
  have hitems : (w.items.filter fun i => i.id ≠ item.id) = w₀.items := by
    rw [h.items, List.filter_cons_of_neg (by simp), List.filter_eq_self]
    intro old hold
    exact decide_eq_true (hfresh.ne h hold)
  have hact : removeItem item.id w =
      (.ok (), { w with items := w.items.filter fun i => i.id ≠ item.id }) := if_pos hthere
  have hstays : Stays w₀ { w with items := w.items.filter fun i => i.id ≠ item.id } :=
    ⟨h.later.counters, hitems, h.drafts, h.store, h.faults⟩
  refine wp_request h (fun _ => Or.inr h) ?_ ?_
  · intro e
    rw [hact]
    exact Or.inl hstays.answerLost
  · rw [hact]
    exact hstays

/-! ### Finding it -/

/-- What the end of `lookupStoredItem` says in the world `w`. -/
def LookupEnd (encryptedEnvelope : String) (w : World) :
    Exit (Except ImportError (Option String)) → World → Prop
  | .done (.ok (some id)), w' => Stays w w' ∧
      ∃ item ∈ w.items, item.email.encryptedEnvelope = encryptedEnvelope ∧ item.id = id
  | .done (.ok none), w' => Stays w w'
  | .done (.error e), w' => Stays w w' ∧ e.LeavesItem
  | .failed _, w' => Stays w w'
  | .died, w' => Stays w w'

theorem wp_lookupStoredItem (encryptedEnvelope : String) (limit : Nat) (since : Option String) :
    wp (lookupStoredItem s x encryptedEnvelope limit since) (LookupEnd encryptedEnvelope w) w := by
  have hlisted : ∀ w', Stays w w' → wp (syncRecentItems s limit since)
      (Ends (fun items w' => Stays w w' ∧ ∀ item ∈ items, item ∈ w.items) (Stays w) (Stays w))
      w' := by
    intro w' h
    refine wp_request h (fun _ => h) (fun _ => h.answerLost) ⟨h, ?_⟩
    intro item hitem
    exact h.items ▸ s.recent_mem _ _ _ item hitem
  refine wp_bind (wp_mono (wp_retry hlisted rateLimitAttempts w (Stays.refl w)) ?_)
  intro r w' hr
  cases r with
  | failed e => exact hr.elim
  | died => exact hr
  | done result =>
      obtain ⟨result, attempts⟩ := result
      cases result with
      | error e => exact wp_pure ⟨hr, trivial⟩
      | ok items =>
          obtain ⟨hstays, hmem⟩ := hr
          apply wp_pure
          cases hfind : items.find? fun item =>
              decide (item.email.encryptedEnvelope = encryptedEnvelope) with
          | none => exact hstays
          | some item =>
              have henvelope : item.email.encryptedEnvelope = encryptedEnvelope := by
                simpa using List.find?_some hfind
              exact ⟨hstays, item, hmem item (List.mem_of_find?_eq_some hfind), henvelope, rfl⟩

/-- What the end of `locateStoredItem` says of the new item. -/
def LocateEnd (s : MailServer) (w₀ : World) (item : ServerItem) :
    Exit (Except ImportError String) → World → Prop
  | .done (.ok id), w => Added s w₀ item w ∧ id = item.id
  | .done (.error e), w => Added s w₀ item w ∧ e.LeavesItem
  | .failed _, w => Added s w₀ item w
  | .died, w => Added s w₀ item w

/-- **The item is found by its envelope**, which no other item has. -/
theorem wp_locateStoredItem (h : Added s w₀ item w)
    (hfresh : ∀ old ∈ w₀.items, old.email.encryptedEnvelope ≠ item.email.encryptedEnvelope)
    (storedAfter : Nat) :
    wp (locateStoredItem s x item.email.encryptedEnvelope storedAfter) (LocateEnd s w₀ item)
      w := by
  have hfound : ∀ w', Added s w₀ item w' → ∀ found ∈ w'.items,
      found.email.encryptedEnvelope = item.email.encryptedEnvelope → found.id = item.id := by
    intro w' hw' found hmem henvelope
    rw [hw'.items] at hmem
    rcases List.mem_cons.1 hmem with rfl | hold
    · rfl
    · exact absurd henvelope (hfresh found hold)
  refine wp_bind (wp_mono (wp_lookupStoredItem _ _ _) ?_)
  intro r w₁ hr
  cases r with
  | failed e => exact h.stays hr
  | died => exact h.stays hr
  | done result =>
      cases result with
      | error e => exact wp_pure ⟨h.stays hr.1, hr.2⟩
      | ok id =>
          cases id with
          | some id =>
              obtain ⟨hstays, found, hmem, henvelope, rfl⟩ := hr
              exact wp_pure ⟨h.stays hstays, hfound w h found hmem henvelope⟩
          | none =>
              -- the second listing goes further back
              have h₁ : Added s w₀ item w₁ := h.stays hr
              refine wp_bind (wp_mono (wp_lookupStoredItem _ _ _) ?_)
              intro r w₂ hr
              cases r with
              | failed e => exact h₁.stays hr
              | died => exact h₁.stays hr
              | done result =>
                  cases result with
                  | error e => exact wp_pure ⟨h₁.stays hr.1, hr.2⟩
                  | ok id =>
                      cases id with
                      | none => exact wp_pure ⟨h₁.stays hr, trivial⟩
                      | some id =>
                          obtain ⟨hstays, found, hmem, henvelope, rfl⟩ := hr
                          exact wp_pure
                            ⟨h₁.stays hstays, hfound w₁ h₁ found hmem henvelope⟩

/-! ### Its attachments -/

/-- The attachments from number `seq` on are on the server as they were sealed. -/
def Uploaded (x : ImportCrates) (n : Nat) :
    Nat → List ParsedAttachment → List AttachmentBody → Prop
  | _, [], bodies => bodies = []
  | seq, a :: attachments, bodies => ∃ content rest, x.sealAttachment n seq a = .ok content ∧
      bodies = ⟨content, BitVec.ofNat 16 seq⟩ :: rest ∧ Uploaded x n (seq + 1) attachments rest

/-- The new item, whatever attachments it has. -/
def AddedSome (s : MailServer) (w₀ : World) (item : ServerItem) (w : World) : Prop :=
  ∃ item' : ServerItem, item'.id = item.id ∧ item'.email = item.email ∧ Added s w₀ item' w

/-- What the end of `uploadAttachments` says of the new item. -/
def UploadEnd (s : MailServer) (x : ImportCrates) (w₀ : World) (item : ServerItem) (n seq : Nat)
    (attachments : List ParsedAttachment) : Exit (Except String Unit) → World → Prop
  | .done (.ok _), w => ∃ bodies, Uploaded x n seq attachments bodies ∧
      Added s w₀ { item with attachments := item.attachments ++ bodies } w
  | .done (.error _), w => AddedSome s w₀ item w
  | .failed _, w => AddedSome s w₀ item w
  | .died, w => AddedSome s w₀ item w

/-- **Every attachment is uploaded once, in order**, where the upload succeeds. -/
theorem wp_uploadAttachments (hfresh : FreshIds s w₀) (n : Nat)
    (attachments : List ParsedAttachment) :
    ∀ (seq : Nat) (item : ServerItem) (w : World), Added s w₀ item w →
      wp (uploadAttachments x n item.id seq attachments)
        (UploadEnd s x w₀ item n seq attachments) w := by
  induction attachments with
  | nil =>
      intro seq item w h
      apply wp_pure
      refine ⟨[], rfl, ?_⟩
      rw [List.append_nil]
      exact h
  | cons a attachments ih =>
      intro seq item w h
      unfold uploadAttachments
      cases hseal : x.sealAttachment n seq a with
      | error e => exact wp_pure ⟨item, rfl, rfl, h⟩
      | ok content =>
          let item' : ServerItem :=
            { item with attachments := item.attachments ++ [⟨content, BitVec.ofNat 16 seq⟩] }
          have hrequest : wp (createAttachment item.id ⟨content, BitVec.ofNat 16 seq⟩)
              (Ends (fun _ => Added s w₀ item')
                (fun w' => Added s w₀ item w' ∨ Added s w₀ item' w') (Added s w₀ item)) w :=
            wp_changeItem hfresh h rfl
          refine wp_bind (wp_attempt (wp_mono hrequest ?_))
          intro r w' hr
          cases r with
          | died => exact ⟨item, rfl, rfl, hr⟩
          | failed e =>
              apply wp_pure
              rcases hr with hr | hr
              · exact ⟨item, rfl, rfl, hr⟩
              · exact ⟨item', rfl, rfl, hr⟩
          | done _ =>
              refine wp_mono (ih (seq + 1) item' w' hr) ?_
              intro r w₂ hr
              cases r with
              | failed e => exact hr
              | died => exact hr
              | done result =>
                  cases result with
                  | error e => exact hr
                  | ok _ =>
                      obtain ⟨bodies, huploaded, hadded⟩ := hr
                      refine ⟨_, ⟨content, bodies, hseal, rfl, huploaded⟩, ?_⟩
                      rw [List.append_assoc] at hadded
                      exact hadded

/-! ### Its place -/

/-- The marks of a stored message are those that it is filed with. -/
theorem apply_placementPatch (folder : String) (flags : AppendFlags) :
    (placementPatch folder flags).apply (marksOf folder flags) = marksOf folder flags := by
  unfold placementPatch MarksPatch.apply marksOf
  congr 1
  · cases flags.seen <;> rfl
  · cases flags.flagged <;> rfl
  · by_cases harchive : folder = "archive"
    · simp [harchive]
    · by_cases helse : folder = "trash" ∨ folder = "spam" <;> simp [harchive, helse]
  · by_cases hspam : folder = "spam"
    · simp [hspam]
    · by_cases harchive : folder = "archive" <;> simp [hspam, harchive]
  · by_cases htrash : folder = "trash"
    · simp [htrash]
    · by_cases helse : folder = "archive" ∨ folder = "spam" <;> simp [htrash, helse]

/-- Filing the item leaves it as it was stored. -/
theorem wp_applyPlacement (hfresh : FreshIds s w₀) (h : Added s w₀ item w) {folder : String}
    {flags : AppendFlags} (hmarks : item.email.marks = marksOf folder flags) :
    wp (applyPlacement x item.id folder flags) (fun _ => Added s w₀ item) w := by
  have hsame : { item with
      email := { item.email with
        marks := (placementPatch folder flags).apply item.email.marks } } = item := by
    rw [hmarks, apply_placementPatch, ← hmarks]
  unfold applyPlacement
  split
  · exact wp_pure h
  · have hrequest : ∀ w', Added s w₀ item w' →
        wp (setMailboxFlags item.id (placementPatch folder flags))
          (Ends (fun _ => Added s w₀ item) (Added s w₀ item) (Added s w₀ item)) w' := by
      intro w' h
      have hchange := wp_changeItem hfresh h (f := fun item => { item with
        email := { item.email with
          marks := (placementPatch folder flags).apply item.email.marks } }) rfl
      rw [hsame] at hchange
      refine wp_mono hchange ?_
      intro r w'' hr
      cases r with
      | done _ => exact hr
      | failed e => exact hr.elim id id
      | died => exact hr
    refine wp_bind (wp_mono (wp_retry hrequest rateLimitAttempts w h) ?_)
    intro r w' hr
    cases r with
    | failed e => exact hr.elim
    | died => exact hr
    | done result =>
        obtain ⟨result, attempts⟩ := result
        cases result with
        | ok _ => exact wp_pure hr
        | error e => exact wp_pure hr

end Item

/-! ## The local tables -/

section Others

/-- The rows and UIDs of the other messages are the same. -/
def SameOthers (id : String) (c c' : Cache) : Prop :=
  ∀ j, j ≠ id → c'.messageCache.get? j = c.messageCache.get? j ∧
    ∀ folder, c'.uidMap.get? (j, folder) = c.uidMap.get? (j, folder)

variable {id : String} {c c' c'' : Cache}

theorem SameOthers.refl (id : String) (c : Cache) : SameOthers id c c :=
  fun _ _ => ⟨rfl, fun _ => rfl⟩

theorem SameOthers.trans (h : SameOthers id c c') (h' : SameOthers id c' c'') :
    SameOthers id c c'' := by
  intro j hj
  obtain ⟨hrow, huid⟩ := h j hj
  obtain ⟨hrow', huid'⟩ := h' j hj
  exact ⟨hrow'.trans hrow, fun folder => (huid' folder).trans (huid folder)⟩

theorem sameOthers_updateMessage (id : String) (c : Cache) (f : MessageRow → MessageRow) :
    SameOthers id c (c.updateMessage id f) := by
  intro j hj
  refine ⟨?_, fun _ => rfl⟩
  rw [Cache.updateMessage, Table.get?_updateWhere]
  cases c.messageCache.get? j with
  | none => rfl
  | some row => simp [hj]

theorem sameOthers_upsert (now id folder : String) (v : MessageValues) (c : Cache) :
    SameOthers id c (c.upsertCachedMessage now id folder v).1 := by
  unfold Cache.upsertCachedMessage
  cases hrow : c.messageCache.get? id with
  | none =>
      intro j hj
      refine ⟨?_, fun _ => rfl⟩
      simp [Table.get?_insertIgnore, hj]
  | some row => exact sameOthers_updateMessage id c _

theorem sameOthers_assign (folder id : String) (c : Cache) :
    SameOthers id c (c.assignUidIfMissing folder id).1 := by
  intro j hj
  constructor
  · unfold Cache.assignUidIfMissing
    split <;> rfl
  · intro f
    rw [get?_uidMap_assign, if_neg]
    intro heq
    exact hj (Prod.mk.inj heq).1

theorem sameOthers_reconcile (db : Database) (item : MailItem) :
    SameOthers item.id db.cache (reconcileServerFlags db item).1.cache := by
  unfold reconcileServerFlags
  split
  · exact SameOthers.refl _ _
  · cases db.cache.getMessageFlagsById item.id with
    | none => exact SameOthers.refl _ _
    | some current =>
        dsimp only
        split
        · exact SameOthers.refl _ _
        · exact sameOthers_updateMessage item.id db.cache _

theorem sameOthers_commit (now : String) (db : Database) (folder : String) (item : MailItem)
    (p : PreparedMessage) :
    SameOthers item.id db.cache (Sync.commitPrepared now db folder item p).1.cache := by
  unfold Sync.commitPrepared
  dsimp only
  refine SameOthers.trans ?_ (sameOthers_reconcile _ item)
  refine SameOthers.trans ?_ (sameOthers_assign folder item.id _)
  split
  · exact (sameOthers_upsert _ _ _ _ _).trans (sameOthers_updateMessage _ _ _)
  · exact sameOthers_upsert _ _ _ _ _

/-- An item that is not cached yet touches no other message. -/
theorem sameOthers_cacheMailItem (json : HeadersJson) (env : Envelopes) (now : String)
    (db : Database) (folder : String) (item : MailItem)
    (hrow : db.cache.messageCache.get? item.id = none) :
    SameOthers item.id db.cache (cacheMailItem json env now db folder item).1.cache := by
  have hbody : db.cache.bodyCached item.id = false := by
    simp [Cache.bodyCached, hrow]
  have hprepare : (prepareMailItem json env db folder item).1 = db := by
    unfold prepareMailItem
    split
    · rfl
    · simp only [hbody, Bool.false_eq_true, if_false]
      split <;> rfl
  rw [cacheMailItem_eq]
  split
  · exact sameOthers_commit _ _ _ _ _
  · rw [hprepare]
    exact SameOthers.refl _ _

end Others

section Local

variable {x : ImportCrates} {w w' w'' : World} {id : String}

/-- Of the local tables, at most what belongs to one message changes. -/
structure Locally (id : String) (w w' : World) : Prop where
  later : Later w w'
  items : w'.items = w.items
  drafts : w'.drafts = w.drafts
  cache : SameOthers id w.store.db.cache w'.store.db.cache
  parts : ∀ j, j ≠ id → w'.store.parts.get? j = w.store.parts.get? j
  keywords : ∀ j, j ≠ id → w'.store.keywords.get? j = w.store.keywords.get? j
  pins : ∀ j, j ≠ id → w'.store.pins.get? j = w.store.pins.get? j
  pushes : w'.store.db.flagPushes = w.store.db.flagPushes

theorem Locally.refl (id : String) (w : World) : Locally id w w :=
  ⟨Later.refl w, rfl, rfl, SameOthers.refl _ _, fun _ _ => rfl, fun _ _ => rfl, fun _ _ => rfl,
    rfl⟩

theorem Locally.trans (h : Locally id w w') (h' : Locally id w' w'') : Locally id w w'' where
  later := h.later.trans h'.later
  items := h'.items.trans h.items
  drafts := h'.drafts.trans h.drafts
  cache := h.cache.trans h'.cache
  parts j hj := (h'.parts j hj).trans (h.parts j hj)
  keywords j hj := (h'.keywords j hj).trans (h.keywords j hj)
  pins j hj := (h'.pins j hj).trans (h.pins j hj)
  pushes := h'.pushes.trans h.pushes

/-- A write of the cache that leaves the other messages alone. -/
theorem locally_onCache {f : Cache → Cache}
    (h : SameOthers id w.store.db.cache (f w.store.db.cache)) :
    Locally id w (w.onStore fun l => l.onCache f) :=
  ⟨(Later.refl w).counters, rfl, rfl, h, fun _ _ => rfl, fun _ _ => rfl, fun _ _ => rfl, rfl⟩

/-- A write of the parts of one message. -/
theorem locally_onParts (id : String) (p : Parts) (w : World) :
    Locally id w (w.onStore fun l => { l with parts := l.parts.upsert id p }) := by
  refine ⟨(Later.refl w).counters, rfl, rfl, SameOthers.refl _ _, ?_, fun _ _ => rfl,
    fun _ _ => rfl, rfl⟩
  intro j hj
  simp [World.onStore, hj]

/-- A local write that failed. -/
theorem locally_fault (id : String) (w : World) : Locally id w { w with faults := w.faults + 1 } :=
  ⟨⟨le_rfl, le_rfl, le_rfl, Nat.le_succ _⟩, rfl, rfl, SameOthers.refl _ _, fun _ _ => rfl,
    fun _ _ => rfl, fun _ _ => rfl, rfl⟩

/-- The row of the message is there with these flags, if its id is accepted, its envelope opens and
no local write failed. -/
def RowThere (x : ImportCrates) (w : World) (r : ImportRequest) (email : ImportedEmail)
    (id : String) (flags : BitVec 64) (w' : World) : Prop :=
  w'.faults = w.faults → isValidItemId id = true →
    ((x.envelopes email).opened (importedItem id r.folder r.flags email)).isSome = true →
      ∃ v, view w'.store.db.cache id = some v ∧ v.folder = r.folder ∧ v.flags = flags

/-- The attachments of the message are there. -/
def PartsThere (message : ImportedMessage) (id : String) (w' : World) : Prop :=
  message.attachments ≠ [] → ∃ p, w'.store.parts.get? id = some p ∧ p.state = .stored ∧
    p.attachments = localAttachments message.attachments

/-- The message is cached in the folder under the UID, and its attachments are there. -/
structure CachedThere (x : ImportCrates) (w : World) (r : ImportRequest)
    (message : ImportedMessage) (email : ImportedEmail) (id : String) (uid : Nat) (w' : World) :
    Prop where
  uid : ∃ u, w'.store.db.cache.uidMap.get? (id, r.folder) = some u ∧ uid = toU32 u
  attachments : PartsThere message id w'
  row : RowThere x w r email id (r.flags.localBits &&& ~~~16) w'

/-- What the end of `storeLocally` says. -/
def LocalEnd (x : ImportCrates) (w : World) (r : ImportRequest) (message : ImportedMessage)
    (email : ImportedEmail) (id : String) :
    Exit (Except ImportError AppendOutcome) → World → Prop
  | .done (.ok (.stored uid asterId)), w' => asterId = id ∧ Locally id w w' ∧
      CachedThere x w r message email id uid w'
  | .done (.ok (.duplicate _ _)), _ => False
  | .done (.error e), w' => Locally id w w' ∧ e.LeavesItem
  | .failed _, w' => Locally id w w'
  | .died, w' => Locally id w w'

/-- Attachments that are numbered in order are stored as they are. -/
theorem replace_localAttachments (p : Parts) (attachments : List ParsedAttachment) :
    p.replaceMessageAttachments (localAttachments attachments) =
      ⟨.stored, localAttachments attachments, 0⟩ := by
  have hnumbered : Numbered (localAttachments attachments) := by
    rw [Numbered, List.pairwise_iff_getElem]
    intro i j hi hj hij
    simp only [localAttachments, List.getElem_map, List.getElem_zipIdx]
    omega
  rw [Parts.replaceMessageAttachments, if_pos hnumbered.nodup, sortParts_of_numbered hnumbered]

/-- A message that is stored locally has no row yet. -/
structure NotCached (id : String) (w : World) : Prop where
  row : w.store.db.cache.messageCache.get? id = none
  pending : w.store.db.flagPushes.pendingFlagValues id = []

/-- The flags that a listing of the item gives. -/
def AppendFlags.listed (f : AppendFlags) : BitVec 64 :=
  (if f.seen then 1 else 0) ||| (if f.flagged then 4 else 0)

/-- The row that the cache writes for the new item. -/
theorem view_cacheEmail (hnone : NotCached id w) (now : String) {r : ImportRequest}
    {email : ImportedEmail} (hvalid : isValidItemId id = true)
    (hopened : ((x.envelopes email).opened (importedItem id r.folder r.flags email)).isSome =
      true) :
    ∃ v, view (cacheMailItem x.json (x.envelopes email) now w.store.db r.folder
        (importedItem id r.folder r.flags email)).1.cache id = some v ∧ v.folder = r.folder ∧
      v.flags = r.flags.listed := by
  have happlies : Applies (x.envelopes email) w.store.db.cache
      (importedItem id r.folder r.flags email) := ⟨hvalid, Or.inr hopened⟩
  obtain ⟨cached, hview, _⟩ :=
    view_cacheMailItem_self x.json now w.store.db r.folder happlies
  refine ⟨_, hview, rfl, ?_⟩
  have hview₀ : view w.store.db.cache id = none := by
    rw [view, hnone.row]
    rfl
  -- there is no row yet, and no flag of the message waits to be pushed
  show reconciled w.store.db.flagPushes (importedItem id r.folder r.flags email)
    (((view w.store.db.cache id).map (·.flags)).getD 0) = _
  have hsome : ¬((importedItem id r.folder r.flags email).isRead = none ∧
      (importedItem id r.folder r.flags email).isStarred = none) := by
    simp [importedItem]
  rw [hview₀, reconciled, if_neg hsome]
  show withPendingFlags _ (w.store.db.flagPushes.pendingFlagValues id) = _
  rw [hnone.pending]
  show withMask (withMask 0 1 r.flags.seen) 4 r.flags.flagged = _
  unfold AppendFlags.listed
  cases r.flags.seen <;> cases r.flags.flagged <;> rfl

/-- How an attempt at a local write ends. -/
def Attempted {α : Type} (act : World → α × World) (w : World) :
    Exit (Except String α) → World → Prop
  | .done (.ok a), w' => a = (act w).1 ∧ w' = (act w).2
  | .done (.error _), w' => w' = { w with faults := w.faults + 1 }
  | .failed _, _ => False
  | .died, w' => w' = w

theorem wp_attemptLocal {α : Type} (act : World → α × World) (w : World) :
    wp (localWrite act).attempt (Attempted act w) w := by
  apply wp_attempt
  exact wp_localWrite rfl (fun _ => rfl) ⟨rfl, rfl⟩

/-- The UID that a message gets. -/
theorem get?_assigned (folder id : String) (c : Cache) :
    (c.assignUidIfMissing folder id).1.uidMap.get? (id, folder) =
      some ((c.uidMap.get? (id, folder)).getD (c.nextUid folder)) := by
  rw [get?_uidMap_assign, if_pos rfl]

theorem assignUidIfMissing_snd (folder id : String) (c : Cache) :
    (c.assignUidIfMissing folder id).2 =
      toU32 ((c.uidMap.get? (id, folder)).getD (c.nextUid folder)) := by
  unfold assignUidIfMissing
  cases c.uidMap.get? (id, folder) with
  | none => rfl
  | some uid => rfl

/-- Without other flags, the flags of the listing are all flags. -/
theorem listedFlags_eq (flags : AppendFlags) (h : flags.localBits &&& ~~~16 = 0) :
    flags.listed = flags.localBits &&& ~~~16 := by
  obtain ⟨seen, flagged, answered, draft, deleted⟩ := flags
  revert h
  cases seen <;> cases flagged <;> cases answered <;> cases draft <;> cases deleted <;> decide

/-- The last local write: the flags. -/
theorem wp_writeFlags {r : ImportRequest} {message : ImportedMessage} {email : ImportedEmail}
    {uid : Nat} (h : Locally id w w')
    (huid : ∃ u, w'.store.db.cache.uidMap.get? (id, r.folder) = some u ∧ uid = toU32 u)
    (hattachments : PartsThere message id w')
    (hrow : RowThere x w r email id r.flags.listed w') :
    wp (do
      let _ ← (only (r.flags.localBits &&& ~~~16 != 0)
        (setFlags id (r.flags.localBits &&& ~~~16))).attempt
      pure (.ok (.stored uid id)))
      (LocalEnd x w r message email id) w' := by
  unfold only
  by_cases hbits : r.flags.localBits &&& ~~~16 = 0
  · -- nothing is written
    rw [if_neg fun hne => bne_iff_ne.1 hne hbits]
    refine wp_bind (wp_attempt (wp_pure (wp_pure ⟨rfl, h, huid, hattachments, ?_⟩)))
    intro hfaults hvalid hopened
    rw [← listedFlags_eq r.flags hbits]
    exact hrow hfaults hvalid hopened
  · rw [if_pos (bne_iff_ne.2 hbits)]
    refine wp_bind (wp_mono (wp_attemptLocal _ _) ?_)
    intro exit w₃ hexit
    cases exit with
    | failed e => exact hexit.elim
    | died =>
        obtain rfl := hexit
        exact h
    | done result =>
        apply wp_pure
        cases result with
        | error e =>
            obtain rfl := hexit
            refine ⟨rfl, h.trans (locally_fault id _), huid, hattachments, ?_⟩
            intro hfaults
            exact absurd hfaults (Nat.ne_of_gt (Nat.lt_succ_of_le h.later.faults))
        | ok _ =>
            obtain ⟨_, rfl⟩ := hexit
            refine ⟨rfl, h.trans (locally_onCache (sameOthers_updateMessage id _ _)), huid,
              hattachments, ?_⟩
            intro hfaults hvalid hopened
            obtain ⟨v, hview, hfolder, _⟩ := hrow hfaults hvalid hopened
            refine ⟨{ v with flags := r.flags.localBits &&& ~~~16 }, ?_, hfolder, rfl⟩
            show view (w'.store.db.cache.setMessageFlagsById id _) id = _
            rw [view_setMessageFlagsById, if_pos rfl, hview]
            rfl

/-- How the write of the attachments ends, for an import whose local tables were those of `w`. -/
def PartsEnd (message : ImportedMessage) (id : String) (w w' : World) :
    Exit (Except String Unit) → World → Prop
  | .done (.ok _), w₁ => Locally id w w₁ ∧ w₁.store.db = w'.store.db ∧ w₁.faults = w'.faults ∧
      PartsThere message id w₁
  | .done (.error _), w₁ => Locally id w w₁
  | .failed _, w₁ => Locally id w w₁
  | .died, w₁ => Locally id w w₁

/-- The row that the cache wrote stays, but for its flags, until the end of the import. -/
theorem wp_numberLocally {r : ImportRequest} {message : ImportedMessage} {email : ImportedEmail}
    (h : Locally id w w')
    (hrow : RowThere x w r email id r.flags.listed w') :
    wp (numberLocally r message id) (LocalEnd x w r message email id) w' := by
  -- the attachments
  have hparts : wp (only (!message.attachments.isEmpty)
      (replaceAttachments id (localAttachments message.attachments))).attempt
      (PartsEnd message id w w') w' := by
    unfold only
    split
    · refine wp_mono (wp_attemptLocal _ _) ?_
      intro exit w₁ hexit
      cases exit with
      | failed e => exact hexit.elim
      | died =>
          obtain rfl := hexit
          exact h
      | done result =>
          cases result with
          | error e =>
              obtain rfl := hexit
              exact h.trans (locally_fault id _)
          | ok _ =>
              obtain ⟨_, rfl⟩ := hexit
              refine ⟨h.trans (locally_onParts id _ _), rfl, rfl,
                fun _ => ⟨⟨.stored, localAttachments message.attachments, 0⟩, ?_, rfl, rfl⟩⟩
              simp [World.onStore, replace_localAttachments]
    · rename_i hempty
      apply wp_attempt
      apply wp_pure
      refine ⟨h, rfl, rfl, ?_⟩
      intro hne
      exact absurd (by simpa using hempty) hne
  refine wp_bind (wp_mono hparts ?_)
  intro exit w₁ hexit
  cases exit with
  | failed e => exact hexit
  | died => exact hexit
  | done result =>
      cases result with
      | error e => exact wp_pure ⟨hexit, trivial⟩
      | ok _ =>
          obtain ⟨h₁, hdb, hfaults, hattachments⟩ := hexit
          -- the UID
          refine wp_bind (wp_mono (wp_attemptLocal _ _) ?_)
          intro exit w₂ hexit
          cases exit with
          | failed e => exact hexit.elim
          | died =>
              obtain rfl := hexit
              exact h₁
          | done result =>
              cases result with
              | error e =>
                  obtain rfl := hexit
                  exact wp_pure ⟨h₁.trans (locally_fault id _), trivial⟩
              | ok uid =>
                  obtain ⟨rfl, rfl⟩ := hexit
                  have hassigned : Locally id w (w₁.onStore fun l => l.onCache fun c =>
                      (c.assignUidIfMissing r.folder id).1) :=
                    h₁.trans (locally_onCache (sameOthers_assign r.folder id _))
                  have hrow₂ : RowThere x w r email id r.flags.listed
                      (w₁.onStore fun l => l.onCache fun c =>
                        (c.assignUidIfMissing r.folder id).1) := by
                    intro hsame hvalid hopened
                    show ∃ v, view (w₁.store.db.cache.assignUidIfMissing r.folder id).1 id =
                      some v ∧ _
                    rw [view_assign, hdb]
                    exact hrow (hfaults ▸ hsame) hvalid hopened
                  exact wp_writeFlags hassigned
                    ⟨_, get?_assigned r.folder id _, assignUidIfMissing_snd r.folder id _⟩
                    hattachments hrow₂

/-- **The local tables** change for the new message only. -/
theorem wp_storeLocally {r : ImportRequest} {message : ImportedMessage} {email : ImportedEmail}
    (hnone : NotCached id w) :
    wp (storeLocally x r message email id) (LocalEnd x w r message email id) w := by
  refine wp_bind (wp_modify ?_)
  have hpins : Locally id w (w.onStore fun l => { l with pins := l.pins.upsert id r.folder }) := by
    refine ⟨(Later.refl w).counters, rfl, rfl, SameOthers.refl _ _, fun _ _ => rfl,
      fun _ _ => rfl, ?_, rfl⟩
    intro j hj
    simp [World.onStore, hj]
  have hnone₁ : NotCached id (w.onStore fun l => { l with pins := l.pins.upsert id r.folder }) :=
    ⟨hnone.row, hnone.pending⟩
  generalize (w.onStore fun l => { l with pins := l.pins.upsert id r.folder }) = w₁
    at hpins hnone₁ ⊢
  refine wp_bind (wp_mono (wp_attemptLocal _ _) ?_)
  intro held w₂ hheld
  cases held with
  | failed e => exact hheld.elim
  | died =>
      obtain rfl := hheld
      exact hpins
  | done result =>
      cases result with
      | error e =>
          obtain rfl := hheld
          exact wp_pure ⟨hpins.trans (locally_fault id w₁), trivial⟩
      | ok _ =>
          obtain ⟨_, rfl⟩ := hheld
          refine wp_bind (wp_operation hpins ?_)
          intro t
          refine wp_bind (wp_mono (wp_attemptLocal _ _) ?_)
          intro cached w₃ hcached
          cases cached with
          | failed e => exact hcached.elim
          | died =>
              obtain rfl := hcached
              exact hpins
          | done result =>
              cases result with
              | error e =>
                  obtain rfl := hcached
                  refine wp_numberLocally (hpins.trans (locally_fault id _)) ?_
                  intro hfaults
                  have hle := hpins.later.faults
                  exact absurd hfaults (Nat.ne_of_gt (Nat.lt_succ_of_le hle))
              | ok _ =>
                  obtain ⟨_, rfl⟩ := hcached
                  refine wp_numberLocally (hpins.trans ?_) ?_
                  · exact ⟨(Later.refl _).counters, rfl, rfl,
                      sameOthers_cacheMailItem x.json (x.envelopes email) _ _ r.folder
                        (importedItem id r.folder r.flags email) hnone₁.row,
                      fun _ _ => rfl, fun _ _ => rfl, fun _ _ => rfl,
                      flagPushes_cacheMailItem _ _ _ _⟩
                  · intro _ hvalid hopened
                    exact view_cacheEmail hnone₁ _ hvalid hopened

end Local

/-! ## The whole import -/

/-- The server gave out the id between the two worlds. -/
def Issued (s : MailServer) (w w' : World) (id : String) : Prop :=
  ∃ k, w.issued ≤ k ∧ k < w'.issued ∧ id = s.newId k

/-- The envelope was sealed between the two worlds. -/
def Sealed (x : ImportCrates) (w w' : World) (email : ImportedEmail) : Prop :=
  ∃ n text sealed, w.draws ≤ n ∧ n < w'.draws ∧ x.sealEnvelope n text = .ok sealed ∧
    email.encryptedEnvelope = sealed.1

/-- What was there stays as it was: the items and drafts of the server, and the local rows. -/
structure Undisturbed (s : MailServer) (x : ImportCrates) (w w' : World) : Prop where
  later : Later w w'
  items : ∃ new, w'.items = new ++ w.items ∧
    ∀ item ∈ new, Issued s w w' item.id ∧ Sealed x w w' item.email
  drafts : ∃ new, w'.drafts = new ++ w.drafts ∧ ∀ draft ∈ new, Issued s w w' draft.id
  row : ∀ id, ¬Issued s w w' id →
    w'.store.db.cache.messageCache.get? id = w.store.db.cache.messageCache.get? id
  uid : ∀ id folder, ¬Issued s w w' id →
    w'.store.db.cache.uidMap.get? (id, folder) = w.store.db.cache.uidMap.get? (id, folder)
  parts : ∀ id, ¬Issued s w w' id → w'.store.parts.get? id = w.store.parts.get? id
  keywords : ∀ id, ¬Issued s w w' id → w'.store.keywords.get? id = w.store.keywords.get? id
  pins : ∀ id, ¬Issued s w w' id → w'.store.pins.get? id = w.store.pins.get? id
  pushes : w'.store.db.flagPushes = w.store.db.flagPushes

section Import

variable {s : MailServer} {x : ImportCrates} {w w' w'' : World} {item : ServerItem}

theorem Issued.later {id : String} (h : Issued s w w' id) (h' : Later w' w'') :
    Issued s w w'' id := by
  obtain ⟨k, hk, hlt, hid⟩ := h
  exact ⟨k, hk, hlt.trans_le h'.issued, hid⟩

/-- An id that was not issued is another one than an id that was. -/
theorem Issued.ne_other {id j : String} (h : Issued s w w' id) (h' : Later w' w'')
    (hj : ¬Issued s w w'' j) : j ≠ id := by
  rintro rfl
  exact hj (h.later h')

/-- What was not issued in the whole time was not issued in its first part. -/
theorem not_issued_before {id : String} (h' : Later w' w'') (hid : ¬Issued s w w'' id) :
    ¬Issued s w w' id := by
  intro hissued
  exact hid (hissued.later h')

theorem Sealed.later {email : ImportedEmail} (h : Sealed x w w' email) (h' : Later w' w'') :
    Sealed x w w'' email := by
  obtain ⟨n, text, sealed, hn, hlt, hseal⟩ := h
  exact ⟨n, text, sealed, hn, hlt.trans_le h'.draws, hseal⟩

theorem Stays.undisturbed (h : Stays w w') : Undisturbed s x w w' where
  later := h.later
  items := ⟨[], h.items, fun _ hmem => absurd hmem List.not_mem_nil⟩
  drafts := ⟨[], h.drafts, fun _ hmem => absurd hmem List.not_mem_nil⟩
  row _ _ := by rw [h.store]
  uid _ _ _ := by rw [h.store]
  parts _ _ := by rw [h.store]
  keywords _ _ := by rw [h.store]
  pins _ _ := by rw [h.store]
  pushes := by rw [h.store]

theorem Added.undisturbed (h : Added s w item w') (hsealed : Sealed x w w' item.email) :
    Undisturbed s x w w' where
  later := h.later
  items := ⟨[item], h.items, fun _ hmem => List.mem_singleton.1 hmem ▸ ⟨h.id, hsealed⟩⟩
  drafts := ⟨[], h.drafts, fun _ hmem => absurd hmem List.not_mem_nil⟩
  row _ _ := by rw [h.store]
  uid _ _ _ := by rw [h.store]
  parts _ _ := by rw [h.store]
  keywords _ _ := by rw [h.store]
  pins _ _ := by rw [h.store]
  pushes := by rw [h.store]

/-- The local tables change for a new message. -/
theorem Undisturbed.locally (h : Undisturbed s x w w') {id : String} (hid : Issued s w w' id)
    (h' : Locally id w' w'') : Undisturbed s x w w'' where
  later := h.later.trans h'.later
  items := by
    obtain ⟨new, hitems, hnew⟩ := h.items
    refine ⟨new, h'.items.trans hitems, ?_⟩
    intro item hmem
    exact ⟨(hnew item hmem).1.later h'.later, (hnew item hmem).2.later h'.later⟩
  drafts := by
    obtain ⟨new, hdrafts, hnew⟩ := h.drafts
    exact ⟨new, h'.drafts.trans hdrafts, fun draft hmem => (hnew draft hmem).later h'.later⟩
  row j hj := ((h'.cache j (hid.ne_other h'.later hj)).1).trans
    (h.row j (not_issued_before h'.later hj))
  uid j folder hj := ((h'.cache j (hid.ne_other h'.later hj)).2 folder).trans
    (h.uid j folder (not_issued_before h'.later hj))
  parts j hj := (h'.parts j (hid.ne_other h'.later hj)).trans
    (h.parts j (not_issued_before h'.later hj))
  keywords j hj := (h'.keywords j (hid.ne_other h'.later hj)).trans
    (h.keywords j (not_issued_before h'.later hj))
  pins j hj := (h'.pins j (hid.ne_other h'.later hj)).trans
    (h.pins j (not_issued_before h'.later hj))
  pushes := h'.pushes.trans h.pushes

/-- **What the caller learns.** A stored message is one new item with every attachment, cached
under its UID; a duplicate and an error that does not say so leave no item, unless an answer was
lost. -/
def ImportResult (x : ImportCrates) (r : ImportRequest) (w : World) :
    Exit (Except ImportError AppendOutcome) → World → Prop
  | .done (.ok (.stored uid asterId)), w' => ∃ now n message email item,
      w.draws ≤ n ∧ prepared x r now n = .ok (message, email) ∧ w'.items = item :: w.items ∧
        item.id = asterId ∧ item.email = email ∧
          Uploaded x n 0 message.attachments item.attachments ∧
            CachedThere x w r message email asterId uid w'
  | .done (.ok (.duplicate _ _)), w' =>
      w'.store = w.store ∧ (w'.lost = w.lost → w'.items = w.items)
  | .done (.error e), w' =>
      ¬e.LeavesItem → w'.store = w.store ∧ (w'.lost = w.lost → w'.items = w.items)
  | .failed _, _ => True
  | .died, _ => True

/-- The end of an import: what was there stays, no draft and at most one item is new. -/
structure ImportEnd (s : MailServer) (x : ImportCrates) (r : ImportRequest) (w : World)
    (exit : Exit (Except ImportError AppendOutcome)) (w' : World) : Prop where
  undisturbed : Undisturbed s x w w'
  drafts : w'.drafts = w.drafts
  one : w'.items.length ≤ w.items.length + 1
  result : ImportResult x r w exit w'

variable {r : ImportRequest}

theorem Stays.importEnd (h : Stays w w') {exit : Exit (Except ImportError AppendOutcome)}
    (hresult : ImportResult x r w exit w') : ImportEnd s x r w exit w' := by
  refine ⟨h.undisturbed, h.drafts, ?_, hresult⟩
  rw [h.items]
  exact Nat.le_succ _

/-- The world `b` of an import that started in `w`: its random values are drawn. -/
structure Drawn (x : ImportCrates) (w b : World) (email : ImportedEmail) : Prop where
  stays : Stays w b
  sealed : Sealed x w b email

/-- An item that is new since `b` is new since `w`. -/
theorem Added.earlier {b : World} (h : Stays w b) (h' : Added s b item w') : Added s w item w' where
  later := h.later.trans h'.later
  items := by rw [h'.items, h.items]
  drafts := h'.drafts.trans h.drafts
  store := h'.store.trans h.store
  faults := h'.faults.trans h.faults
  id := by
    obtain ⟨k, hk, hlt, hid⟩ := h'.id
    exact ⟨k, h.later.issued.trans hk, hlt, hid⟩

variable {b : World}

theorem Added.importEnd (hdrawn : Drawn x w b item.email) (h : Added s b item w')
    {exit : Exit (Except ImportError AppendOutcome)} (hresult : ImportResult x r w exit w') :
    ImportEnd s x r w exit w' := by
  have h' : Added s w item w' := h.earlier hdrawn.stays
  refine ⟨h'.undisturbed (hdrawn.sealed.later h.later), h'.drafts, ?_, hresult⟩
  rw [h'.items]
  exact le_rfl

/-- An error that says that the item may be left. -/
theorem result_leavesItem {e : ImportError} (h : e.LeavesItem) :
    ImportResult x r w (.done (.error e)) w' :=
  fun hnot => absurd h hnot

theorem Tried.importEnd {email : ImportedEmail} (hdrawn : Drawn x w b email)
    (h : Tried s b email w') {exit : Exit (Except ImportError AppendOutcome)}
    (hresult : w'.store = w.store → (w'.lost = w.lost → w'.items = w.items) →
      ImportResult x r w exit w') : ImportEnd s x r w exit w' := by
  rcases h with h | ⟨item, rfl, hadded, hlost⟩
  · have h' : Stays w w' := hdrawn.stays.trans h
    exact h'.importEnd (hresult h'.store fun _ => h'.items)
  · have hlost' : w.lost < w'.lost := hdrawn.stays.later.lost.trans_lt hlost
    exact hadded.importEnd hdrawn (hresult (hadded.store.trans hdrawn.stays.store)
      fun heq => absurd heq (Nat.ne_of_gt hlost'))

theorem FreshIds.stays (h : FreshIds s w) (h' : Stays w b) : FreshIds s b := by
  intro item hmem n hn
  rw [h'.items] at hmem
  exact h item hmem n (h'.later.issued.trans hn)

/-- A withdrawn item is gone, or the error says that it may be there. -/
theorem wp_withdraw (hfresh : FreshIds s b) (hdrawn : Drawn x w b item.email)
    (h : Added s b item w') {removed kept : ImportError} (hkept : kept.LeavesItem) :
    wp (withdraw item.id removed kept) (ImportEnd s x r w) w' := by
  refine wp_bind (wp_attempt (wp_mono (wp_deleteNewItem hfresh h) ?_))
  intro exit w₁ hexit
  cases exit with
  | died => exact Added.importEnd hdrawn hexit trivial
  | failed e =>
      apply wp_pure
      rcases hexit with hexit | hexit
      · exact (hdrawn.stays.trans hexit).importEnd (result_leavesItem hkept)
      · exact hexit.importEnd hdrawn (result_leavesItem hkept)
  | done _ =>
      apply wp_pure
      have h' : Stays w w₁ := hdrawn.stays.trans hexit
      exact h'.importEnd fun _ => ⟨h'.store, fun _ => h'.items⟩

/-- What was prepared from the random values `n`. -/
structure PreparedBy (x : ImportCrates) (r : ImportRequest) (n : Nat) (email : ImportedEmail) :
    Prop where
  marks : email.marks = marksOf r.folder r.flags
  envelope : ∃ text sealed, x.sealEnvelope n text = .ok sealed ∧ email.encryptedEnvelope = sealed.1

/-- The preparation ends before anything is stored. -/
theorem prepared_cases (x : ImportCrates) (r : ImportRequest) (now n : Nat) :
    (∃ e, prepared x r now n = .error e ∧ ¬e.LeavesItem) ∨
      ∃ message email, prepared x r now n = .ok (message, email) ∧ PreparedBy x r n email := by
  unfold prepared
  cases x.buildImportedMessage r.rawMessage r.folder r.internalDate now n with
  | none => exact Or.inl ⟨_, rfl, not_false⟩
  | some built =>
      dsimp only
      cases oversizedAttachment built.attachments with
      | some a => exact Or.inl ⟨_, rfl, not_false⟩
      | none =>
          dsimp only
          generalize (if r.asCopy = true then rekeyAsCopy x n built else built) = message
          cases hseal : x.sealEnvelope n message.envelopeJson with
          | error e => exact Or.inl ⟨_, rfl, not_false⟩
          | ok sealed =>
              dsimp only
              split
              · exact Or.inl ⟨_, rfl, not_false⟩
              · exact Or.inr ⟨_, _, rfl, rfl, _, sealed, hseal, rfl⟩

section Stored

variable {now n : Nat} {message : ImportedMessage} {email : ImportedEmail}

/-- The local tables, for an item that is complete. -/
theorem wp_storeComplete (hfresh : Fresh s x w) (hdrawn : Drawn x w b item.email)
    (hadded : Added s b item w') (hn : w.draws ≤ n)
    (hprepared : prepared x r now n = .ok (message, email)) (hemail : item.email = email)
    (huploaded : Uploaded x n 0 message.attachments item.attachments) :
    wp (storeLocally x r message email item.id) (ImportEnd s x r w) w' := by
  have hsince : Added s w item w' := hadded.earlier hdrawn.stays
  have hsealed : Sealed x w w' item.email := hdrawn.sealed.later hadded.later
  have hnone : NotCached item.id w' := by
    obtain ⟨k, hk, _, hid⟩ := hsince.id
    constructor
    · rw [hsince.store, hid]
      exact hfresh.row k hk
    · rw [hsince.store, hid]
      exact hfresh.pending k hk
  refine wp_mono (wp_storeLocally hnone) ?_
  intro exit w₁ hexit
  have hend : Locally item.id w' w₁ → ImportResult x r w exit w₁ → ImportEnd s x r w exit w₁ := by
    intro hlocal hresult
    refine ⟨(hsince.undisturbed hsealed).locally hsince.id hlocal,
      hlocal.drafts.trans hsince.drafts, ?_, hresult⟩
    rw [hlocal.items, hsince.items]
    exact le_rfl
  cases exit with
  | failed e => exact hend hexit trivial
  | died => exact hend hexit trivial
  | done result =>
      cases result with
      | error e => exact hend hexit.1 (result_leavesItem hexit.2)
      | ok outcome =>
          cases outcome with
          | duplicate uid asterId => exact hexit.elim
          | stored uid asterId =>
              obtain ⟨rfl, hlocal, hcached⟩ := hexit
              apply hend hlocal
              refine ⟨now, n, message, email, item, hn, hprepared,
                hlocal.items.trans hsince.items, rfl, hemail, huploaded, hcached.uid,
                hcached.attachments, ?_⟩
              intro hfaults
              exact hcached.row (hfaults.trans hsince.faults.symm)

/-- The steps behind the upload. -/
theorem wp_fileItem (hfresh : Fresh s x w) (hdrawn : Drawn x w b item.email)
    (hadded : Added s b item w') (hn : w.draws ≤ n)
    (hprepared : prepared x r now n = .ok (message, email)) (hby : PreparedBy x r n email)
    (hemail : item.email = email)
    (huploaded : Uploaded x n 0 message.attachments item.attachments) :
    wp (fileItem x r message email item.id) (ImportEnd s x r w) w' := by
  have hids : FreshIds s b := FreshIds.stays hfresh.item hdrawn.stays
  have hmarks : item.email.marks = marksOf r.folder r.flags := hemail ▸ hby.marks
  refine wp_bind (wp_mono (wp_applyPlacement hids hadded hmarks) ?_)
  intro exit w₁ h₁
  cases exit with
  | failed e => exact h₁.importEnd hdrawn trivial
  | died => exact h₁.importEnd hdrawn trivial
  | done result =>
      cases result with
      | ok _ => exact wp_storeComplete hfresh hdrawn h₁ hn hprepared hemail huploaded
      | error e =>
          dsimp only
          split
          · exact wp_withdraw hids hdrawn h₁ trivial
          · -- the item is where it was stored
            exact wp_storeComplete hfresh hdrawn h₁ hn hprepared hemail huploaded

/-- The steps behind the store. -/
theorem wp_finishImport (hfresh : Fresh s x w) (hdrawn : Drawn x w b item.email)
    (hadded : Added s b item w') (hn : w.draws ≤ n)
    (hprepared : prepared x r now n = .ok (message, email)) (hby : PreparedBy x r n email)
    (hemail : item.email = email) (hnone : item.attachments = []) (storedAfter : Nat) :
    wp (finishImport s x r message email n storedAfter) (ImportEnd s x r w) w' := by
  have hids : FreshIds s b := FreshIds.stays hfresh.item hdrawn.stays
  have henvelope : ∀ old ∈ b.items,
      old.email.encryptedEnvelope ≠ item.email.encryptedEnvelope := by
    obtain ⟨text, sealed, hseal, heq⟩ := hby.envelope
    intro old hold
    rw [hemail, heq]
    exact hfresh.envelope old (hdrawn.stays.items ▸ hold) n text sealed hn hseal
  subst hemail
  refine wp_bind (wp_mono (wp_locateStoredItem hadded henvelope storedAfter) ?_)
  intro exit w₁ hexit
  cases exit with
  | failed e => exact Added.importEnd hdrawn hexit trivial
  | died => exact Added.importEnd hdrawn hexit trivial
  | done result =>
      cases result with
      | error e => exact wp_pure (hexit.1.importEnd hdrawn (result_leavesItem hexit.2))
      | ok id =>
          obtain ⟨h₁, rfl⟩ := hexit
          refine wp_bind (wp_mono (wp_uploadAttachments hids n _ 0 item w₁ h₁) ?_)
          intro exit w₂ hexit
          cases exit with
          | failed e =>
              obtain ⟨item', _, hsame, h₂⟩ := hexit
              exact h₂.importEnd (hsame ▸ hdrawn) trivial
          | died =>
              obtain ⟨item', _, hsame, h₂⟩ := hexit
              exact h₂.importEnd (hsame ▸ hdrawn) trivial
          | done result =>
              cases result with
              | error e =>
                  obtain ⟨item', hid, hsame, h₂⟩ := hexit
                  rw [← hid]
                  exact wp_withdraw hids (hsame ▸ hdrawn) h₂ trivial
              | ok _ =>
                  obtain ⟨bodies, huploaded, h₂⟩ := hexit
                  rw [hnone, List.nil_append] at h₂
                  let whole : ServerItem := { item with attachments := bodies }
                  have hwhole : Drawn x w b whole.email := hdrawn
                  show wp (fileItem x r message item.email whole.id) _ _
                  exact wp_fileItem hfresh hwhole h₂ hn hprepared hby rfl huploaded

end Stored

theorem duplicateOf_ne (x : ImportCrates) (l : LocalStore) (r : ImportRequest)
    (messageId : String) {uid : Nat} {asterId : String} :
    duplicateOf x l r messageId ≠ .stored uid asterId := by
  unfold duplicateOf
  split
  · simp
  · split <;> simp

/-- **What an import leaves behind**, however the server treats its requests and wherever the
bridge stops. -/
theorem importMessage_end (hfresh : Fresh s x w) (r : ImportRequest) :
    wp (importMessage s x r) (ImportEnd s x r w) w := by
  have hbefore : ∀ {e w'}, Stays w w' → ¬e.LeavesItem →
      wp (pure (.error e)) (ImportEnd s x r w) w' :=
    fun h _ => wp_pure (h.importEnd fun _ => ⟨h.store, fun _ => h.items⟩)
  unfold importMessage
  split
  · exact hbefore (Stays.refl w) not_false
  · -- the time and the random values
    refine wp_bind (wp_operation ((Stays.refl w).importEnd trivial) ?_)
    intro t
    refine wp_bind (wp_bind (wp_look (wp_bind (wp_modify (wp_pure ?_)))))
    generalize hn : w.draws = n
    have hdrawn : Stays w { w with draws := n + 1 } :=
      ⟨⟨le_rfl, hn ▸ Nat.le_succ _, le_rfl, le_rfl⟩, rfl, rfl, rfl, rfl⟩
    have hlt : n < ({ w with draws := n + 1 } : World).draws := Nat.lt_succ_self n
    generalize ({ w with draws := n + 1 } : World) = w₁ at hdrawn hlt ⊢
    dsimp only
    rcases prepared_cases x r t.reading n with ⟨e, hprepared, he⟩ | ⟨message, email, hprepared, hby⟩
    · rw [hprepared]
      exact hbefore hdrawn he
    · rw [hprepared]
      have hbase : Drawn x w w₁ email := by
        obtain ⟨text, sealed, hseal, heq⟩ := hby.envelope
        exact ⟨hdrawn, n, text, sealed, hn ▸ le_rfl, hlt, hseal, heq⟩
      refine wp_bind (wp_operation (hdrawn.importEnd trivial) ?_)
      intro t'
      refine wp_bind (wp_mono (wp_storeEmail (Stays.refl w₁)) ?_)
      intro exit w₂ hexit
      have hnothing : ∀ {e}, Tried s w₁ email w₂ → ¬e.LeavesItem →
          ImportEnd s x r w (.done (.error e)) w₂ :=
        fun h _ => h.importEnd hbase fun hstore hitems _ => ⟨hstore, hitems⟩
      cases exit with
      | failed e => exact Tried.importEnd hbase hexit fun _ _ => trivial
      | died => exact Tried.importEnd hbase hexit fun _ _ => trivial
      | done result =>
          cases result with
          | error e => exact wp_pure (hnothing hexit.1 hexit.2)
          | ok response =>
              dsimp only
              rcases hexit with ⟨hcount, htried⟩ | ⟨rfl, item, hemail, hnone, hadded⟩
              · -- nothing came of this request
                rw [if_pos hcount]
                split
                · exact wp_pure (hnothing htried not_false)
                · split
                  · refine wp_bind (wp_look (wp_pure (htried.importEnd hbase ?_)))
                    intro hstore hitems
                    cases hduplicate : duplicateOf x w₂.store r message.messageId with
                    | duplicate uid asterId => exact ⟨hstore, hitems⟩
                    | stored uid asterId => exact absurd hduplicate (duplicateOf_ne x _ r _)
                  · exact wp_pure (hnothing htried not_false)
              · -- the item is on the server
                rw [if_neg (by decide), if_neg (by decide)]
                subst hemail
                exact wp_finishImport hfresh hbase hadded (hn ▸ le_rfl) hprepared hby rfl hnone
                  t'.reading

end Import

/-! ## A server and a bridge that are new -/

/-- The text of so many letters. -/
def unary (c : Char) (n : Nat) : String := String.ofList (List.replicate n c)

theorem unary_injective (c : Char) : Function.Injective (unary c) := by
  intro n m h
  have hlist : List.replicate n c = List.replicate m c := String.ofList_injective h
  simpa using congrArg List.length hlist

/-- A server that takes every email and lists every item. -/
def plainServer : MailServer where
  newId n := unary 'a' (n + 1)
  judge _ _ := none
  recent items _ _ := items
  newId_injective _ _ h := Nat.succ_injective (unary_injective 'a' h)
  judge_storedCount _ _ _ h := nomatch h
  recent_mem _ _ _ _ h := h

/-- A message with two attachments. -/
def twoParts : ImportedMessage where
  messageId := "m@aster"
  messageIdHash := "h1"
  contentHash := "h2"
  envelopeJson := "e"
  itemType := "received"
  receivedAt := "2026"
  attachments :=
    [⟨"a.txt", "text/plain", none, false, [1]⟩, ⟨"b.txt", "text/plain", none, false, [2]⟩]

/-- Crates that see this message in every text. -/
def plainCrates : ImportCrates where
  T := Unicode.CaseTables.ascii
  buildImportedMessage _ _ _ _ _ := some twoParts
  base64Sha256 text := text
  newV4 n := unary 'b' n
  sealEnvelope n _ := .ok (unary 'e' n, "n")
  sealAttachment _ _ a := .ok ⟨a.name, "n", "m", "n"⟩
  isoMillis _ := "2026"
  rfc3339 _ := "2026"
  json := ⟨fun _ => false, fun _ => none⟩
  headerMessageId _ := none
  envelopes _ := ⟨fun _ => none, fun _ _ => none⟩
  sealEnvelope_fresh n m s t a b ha hb hab := by
    obtain rfl := Except.ok.inj ha
    obtain rfl := Except.ok.inj hb
    exact unary_injective 'e' hab

/-- A world without mail. -/
def noMail : World :=
  ⟨[], [], [], 0, none, 0, ⟨Database.empty, Table.empty, Table.empty, Table.empty⟩, 0, 0⟩

theorem fresh_noMail (s : MailServer) (x : ImportCrates) : Fresh s x noMail where
  item _ h := absurd h List.not_mem_nil
  draft _ h := absurd h List.not_mem_nil
  row _ _ := rfl
  uid _ _ _ := rfl
  pending _ _ := rfl
  envelope _ h := absurd h List.not_mem_nil

/-- An append to the inbox. -/
def appendToInbox : ImportRequest :=
  ⟨true, "inbox", "x".toList, ⟨true, false, false, false, false⟩, none, false⟩

/-- The server takes the email, and the bridge never learns it. -/
def answerToEmailLost : List Turn := List.replicate 5 .calm ++ [⟨false, some "timeout", 0, true⟩]

end AsterBridge.Imap
