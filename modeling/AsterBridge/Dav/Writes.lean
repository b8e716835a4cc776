import AsterBridge.Dav.Store
import AsterBridge.Lib.Locks

/-!
# Writes of the contacts store

What the calls of the store do to the contacts of the server, in every run of any number of calls
beside the changes of other clients (`conditional_writes`): each call changes the contacts at most
once, and with preconditions it replaces or deletes only a version that they allow, unless another
client has changed the contacts since that version was read.

`Moved` says once what a step of a call can do; the write lock keeps the steps of the other calls
away from what a call has read (`Good.others`).
-/

set_option autoImplicit false

namespace AsterBridge.Dav.Store

open AsterBridge.Lib AsterBridge.Lib.Runs AsterBridge.Lib.Tasks

variable {x : StoreCrates} {i : Nat} {c : Choice} {s s' : Shared} {t : Task}

/-! ## The changes of the server -/

/-- Who made the `k`-th change. -/
def authorAt (s : Shared) (k : Nat) : Option (Option Nat) := (s.changes[k]?).map Change.author

/-- Nothing that happened is forgotten. -/
structure Extends (s s' : Shared) : Prop where
  initial : s'.initial = s.initial
  changes : s.changes <+: s'.changes

theorem Extends.of_same (hinitial : s'.initial = s.initial) (hchanges : s'.changes = s.changes) :
    Extends s s' := by
  constructor
  · exact hinitial
  · rw [hchanges]

theorem Extends.of_append {more : List Change} (hinitial : s'.initial = s.initial)
    (hchanges : s'.changes = s.changes ++ more) : Extends s s' := by
  constructor
  · exact hinitial
  · rw [hchanges]
    exact List.prefix_append _ _

theorem Extends.length_le (h : Extends s s') : s.changes.length ≤ s'.changes.length :=
  h.changes.length_le

theorem Extends.getElem? (h : Extends s s') {k : Nat} (hk : k < s.changes.length) :
    s'.changes[k]? = s.changes[k]? := by
  obtain ⟨more, hmore⟩ := h.changes
  rw [← hmore, List.getElem?_append_left hk]

theorem Extends.authorAt (h : Extends s s') {k : Nat} (hk : k < s.changes.length) :
    authorAt s' k = authorAt s k := by
  simp only [Store.authorAt, h.getElem? hk]

theorem Extends.contactsAt (h : Extends s s') {m : Nat} (hm : m ≤ s.changes.length) :
    s'.contactsAt m = s.contactsAt m := by
  cases m with
  | zero => exact h.initial
  | succ m =>
      simp only [Shared.contactsAt]
      rw [h.getElem? (Nat.lt_of_succ_le hm), h.initial]

theorem contactsAt_append {author : Option Nat} {contacts : Contacts}
    (hchanges : s'.changes = s.changes ++ [⟨author, contacts⟩]) :
    s'.contactsAt (s.changes.length + 1) = contacts := by
  simp [Shared.contactsAt, hchanges]

theorem authorAt_append {author : Option Nat} {contacts : Contacts}
    (hchanges : s'.changes = s.changes ++ [⟨author, contacts⟩]) (k : Nat) :
    authorAt s' k =
      if k = s.changes.length then some author else authorAt s k := by
  unfold authorAt
  rw [hchanges]
  split
  · rename_i hk
    subst hk
    simp
  · rename_i hk
    by_cases hlt : k < s.changes.length
    · rw [List.getElem?_append_left hlt]
    · -- past the end there is nothing, before and after
      have hpast : s.changes.length + 1 ≤ k := by omega
      have hold : s.changes[k]? = none := List.getElem?_eq_none (by omega)
      have hnew : (s.changes ++ [Change.mk author contacts])[k]? = none := by
        apply List.getElem?_eq_none
        simpa using hpast
      rw [hold, hnew]

theorem authorAt_lt {k : Nat} {author : Option Nat} (h : authorAt s k = some author) :
    k < s.changes.length := by
  by_contra hge
  have hnone : s.changes[k]? = none := List.getElem?_eq_none (by omega)
  rw [authorAt, hnone] at h
  cases h

/-! ## What a call may have done -/

/-- The contact `id` was read after `m` changes under `uid` in a version that the preconditions
allow, and all changes from there to the `k`-th one are of other clients. -/
def Checked (x : StoreCrates) (s : Shared) (uid : String) (p : Preconditions) (id : String)
    (k : Nat) : Prop :=
  ∃ m record entry, m ≤ k ∧ recordOf (s.contactsAt m) id = some record ∧
    decodeRecord x record = .ok entry ∧ entry.uid = uid ∧ p.holdFor (some entry) = true ∧
    ∀ j, m ≤ j → j < k → authorAt s j = some none

/-- The `k`-th change is one that `call` may make. -/
inductive Allowed (x : StoreCrates) (s : Shared) (k : Nat) : Call → Prop where
  | update (uid vcard : String) (p : Preconditions) (id nonce updatedAt : String)
      (sealed : SealedContact)
      (hsealed : x.encryptData nonce (putPayload x uid vcard) = .ok sealed)
      (heffect : updateContact (s.contactsAt k) id sealed updatedAt = some (s.contactsAt (k + 1)))
      (hchecked : p.isEmpty = false → Checked x s uid p id k) : Allowed x s k (.put uid vcard p)
  | create (uid vcard : String) (p : Preconditions) (id nonce updatedAt : String)
      (sealed : SealedContact)
      (hsealed : x.encryptData nonce (putPayload x uid vcard) = .ok sealed)
      (heffect : createContact (s.contactsAt k) id sealed updatedAt = some (s.contactsAt (k + 1)))
      (hmatch : p.ifMatch = none) : Allowed x s k (.put uid vcard p)
  | delete (uid : String) (p : Preconditions) (id : String)
      (heffect : deleteContact (s.contactsAt k) id = some (s.contactsAt (k + 1)))
      (hchecked : p.isEmpty = false → Checked x s uid p id k) : Allowed x s k (.delete uid p)

theorem Checked.mono {uid id : String} {p : Preconditions} {k : Nat} (h : Checked x s uid p id k)
    (hext : Extends s s') (hk : k ≤ s.changes.length) : Checked x s' uid p id k := by
  obtain ⟨m, record, entry, hm, hrecord, hdecode, huid, hhold, hothers⟩ := h
  refine ⟨m, record, entry, hm, ?_, hdecode, huid, hhold, ?_⟩
  · rw [hext.contactsAt (by omega)]
    exact hrecord
  · intro j hmj hjk
    rw [hext.authorAt (by omega)]
    exact hothers j hmj hjk

theorem Allowed.mono {call : Call} {k : Nat} (h : Allowed x s k call) (hext : Extends s s')
    (hk : k < s.changes.length) : Allowed x s' k call := by
  have hbefore := hext.contactsAt (m := k) (by omega)
  have hafter := hext.contactsAt (m := k + 1) (by omega)
  cases h with
  | update uid vcard p id nonce updatedAt sealed hsealed heffect hchecked =>
      refine .update uid vcard p id nonce updatedAt sealed hsealed ?_ ?_
      · rw [hbefore, hafter]
        exact heffect
      · intro hp
        exact (hchecked hp).mono hext (by omega)
  | create uid vcard p id nonce updatedAt sealed hsealed heffect hmatch =>
      refine .create uid vcard p id nonce updatedAt sealed hsealed ?_ hmatch
      rw [hbefore, hafter]
      exact heffect
  | delete uid p id heffect hchecked =>
      refine .delete uid p id ?_ ?_
      · rw [hbefore, hafter]
        exact heffect
      · intro hp
        exact (hchecked hp).mono hext (by omega)

/-! ## Phases -/

/-- The request was not sent, also where the call has ended without it. -/
def Phase.unsent : Phase → Bool
  | .queued => true
  | .looking => true
  | .paging _ _ _ => true
  | .refilling _ => true
  | .confirming _ => true
  | .noting _ => true
  | .sending _ => true
  | .answered (.entries _) => true
  | .answered (.entry _) => true
  | .answered .notFound => true
  | .answered .preconditionFailed => true
  | _ => false

/-- The request has taken effect. -/
def Phase.sent : Phase → Bool
  | .readingBack _ _ => true
  | .remembering _ _ => true
  | .invalidating => true
  | .forgetting => true
  | .answered (.stored _ _) => true
  | .answered .deleted => true
  | _ => false

/-- The entry that `put` has read back. -/
def Phase.shown : Phase → Option ContactEntry
  | .remembering entry _ => some entry
  | .answered (.stored entry _) => some entry
  | _ => none

/-- Whether a call takes the lock. -/
def Call.writes : Call → Bool
  | .put _ _ _ => true
  | .delete _ _ => true
  | .list => false
  | .get _ => false

/-- The phases that a call reaches only with the lock. -/
def Task.needsGuard (t : Task) : Bool :=
  match t.phase with
  | .queued => false
  | .answered _ => false
  | .looking => t.call.writes
  | .paging _ _ _ => t.call.writes
  | .refilling _ => t.call.writes
  | _ => true

def Call.preconditions : Call → Preconditions
  | .put _ _ p => p
  | .delete _ p => p
  | .list => ⟨none, none⟩
  | .get _ => ⟨none, none⟩

/-- What a call that goes on from `phase` has seen of the server. -/
def Seen (x : StoreCrates) (s : Shared) (call : Call) : Phase → Prop
  | .noting fresh =>
      ∃ m, m ≤ s.changes.length ∧ (∀ j, m ≤ j → j < s.changes.length → authorAt s j = some none) ∧
        ∀ entry, fresh = some entry → ∃ record,
          recordOf (s.contactsAt m) entry.contactId = some record ∧
            decodeRecord x record = .ok entry
  | .sending (some entry) =>
      call.preconditions.isEmpty = false →
        Checked x s call.uid call.preconditions entry.contactId s.changes.length
  | .sending none => call.preconditions.ifMatch = none
  | _ => True

/-- The phases in which a call has seen something of the server that its request relies on. -/
def Phase.relies : Phase → Bool
  | .noting _ => true
  | .sending _ => true
  | _ => false

theorem seen_of_not_relies {call : Call} {phase : Phase} (h : phase.relies = false) :
    Seen x s call phase := by
  cases phase with
  | noting fresh => cases h
  | sending existing => cases h
  | _ => trivial

/-! ## One step -/

theorem decodeRecord_contactId {record : ContactRecord} {entry : ContactEntry}
    (h : decodeRecord x record = .ok entry) : entry.contactId = record.id := by
  unfold decodeRecord at h
  split at h
  · cases h
  · split at h
    · cases h
    · cases h
      rfl

/-- What is true of the `i`-th call in every run. -/
structure Good (x : StoreCrates) (i : Nat) (s : Shared) (t : Task) : Prop where
  guarded : t.needsGuard = true → t.guard = true
  seen : Seen x s t.call t.phase
  unsent : t.phase.unsent = true → ∀ k, authorAt s k ≠ some (some i)
  sent : t.phase.sent = true → ∃ k, authorAt s k = some (some i)
  once : ∀ k k', authorAt s k = some (some i) → authorAt s k' = some (some i) → k = k'
  allowed : ∀ k, authorAt s k = some (some i) → Allowed x s k t.call
  shown : ∀ entry, t.phase.shown = some entry → ∃ k m record, authorAt s k = some (some i) ∧
    k < m ∧ m ≤ s.changes.length ∧ recordOf (s.contactsAt m) entry.contactId = some record ∧
      decodeRecord x record = .ok entry

/-- What a step of the `i`-th call can do: it leaves the server alone, or it sends its request. -/
inductive Moved (x : StoreCrates) (i : Nat) (s : Shared) (t : Task) : Shared × Task → Prop where
  | plain (s' : Shared) (t' : Task) (hinitial : s'.initial = s.initial)
      (hchanges : s'.changes = s.changes) (hcall : t'.call = t.call)
      (hguard : t'.needsGuard = true → t'.guard = true) (hseen : Seen x s t.call t'.phase)
      (hunsent : t'.phase.unsent = true → t.phase.unsent = true)
      (hsent : t'.phase.sent = true → t.phase.sent = true)
      (hshown : ∀ entry, t'.phase.shown = some entry → t.phase.shown = some entry ∨
        t.phase.sent = true ∧ ∃ record, recordOf s.contacts entry.contactId = some record ∧
          decodeRecord x record = .ok entry) : Moved x i s t (s', t')
  | wrote (s' : Shared) (t' : Task) (contacts : Contacts) (hinitial : s'.initial = s.initial)
      (hchanges : s'.changes = s.changes ++ [⟨some i, contacts⟩]) (hcall : t'.call = t.call)
      (hguard : t'.needsGuard = true → t'.guard = true) (hheld : t.guard = true)
      (hfrom : t.phase.unsent = true) (hunsent : t'.phase.unsent = false)
      (hrelies : t'.phase.relies = false) (hshown : t'.phase.shown = none)
      (hallowed : Allowed x s' s.changes.length t.call) : Moved x i s t (s', t')

/-- A step that leaves the call as it is. -/
theorem Moved.idle (h : Good x i s t) : Moved x i s t (s, t) := by
  apply Moved.plain s t rfl rfl rfl h.guarded h.seen
  · exact id
  · exact id
  · intro entry hentry
    exact Or.inl hentry

/-- A step to a later phase in which nothing was sent. -/
theorem Moved.next {u : Shared} (hinitial : u.initial = s.initial)
    (hchanges : u.changes = s.changes) (phase : Phase)
    (hguard : ({ t with phase } : Task).needsGuard = true → t.guard = true)
    (hfrom : t.phase.unsent = true) (hsent : phase.sent = false) (hshown : phase.shown = none)
    (hseen : Seen x s t.call phase) : Moved x i s t (u, { t with phase }) := by
  apply Moved.plain (t := t) u { t with phase } hinitial hchanges rfl hguard hseen
  · intro _
    exact hfrom
  · intro hto
    rw [hsent] at hto
    cases hto
  · intro entry hentry
    rw [hshown] at hentry
    cases hentry

/-- A call that ends needs no lock any more. -/
theorem Moved.answer {u : Shared} (hinitial : u.initial = s.initial)
    (hchanges : u.changes = s.changes) (answer : Answer)
    (hunsent : (Phase.answered answer).unsent = true → t.phase.unsent = true)
    (hsent : (Phase.answered answer).sent = true → t.phase.sent = true)
    (hshown : ∀ entry, (Phase.answered answer).shown = some entry →
      t.phase.shown = some entry) : Moved x i s t (finish u t answer) := by
  apply Moved.plain
  · exact hinitial
  · exact hchanges
  · rfl
  · intro hneeds
    cases hneeds
  · trivial
  · exact hunsent
  · exact hsent
  · intro entry hentry
    exact Or.inl (hshown entry hentry)

/-- The answers of a call that has sent nothing. -/
theorem Moved.unsentAnswer {u : Shared} (hinitial : u.initial = s.initial)
    (hchanges : u.changes = s.changes) {answer : Answer} (hfrom : t.phase.unsent = true)
    (hsent : (Phase.answered answer).sent = false)
    (hshown : (Phase.answered answer).shown = none) : Moved x i s t (finish u t answer) := by
  apply Moved.answer hinitial hchanges
  · intro _
    exact hfrom
  · intro h
    rw [hsent] at h
    cases h
  · intro entry h
    rw [hshown] at h
    cases h

/-- The call fails, or its caller is gone. -/
theorem Moved.fail {u : Shared} (hinitial : u.initial = s.initial)
    (hchanges : u.changes = s.changes) {answer : Answer}
    (hanswer : answer = .gone ∨ ∃ e, answer = .failed e) : Moved x i s t (finish u t answer) := by
  rcases hanswer with rfl | ⟨e, rfl⟩
  · apply Moved.answer hinitial hchanges
    · intro h
      cases h
    · intro h
      cases h
    · intro entry h
      cases h
  · apply Moved.answer hinitial hchanges
    · intro h
      cases h
    · intro h
      cases h
    · intro entry h
      cases h

theorem holdFor_none_iff (p : Preconditions) : p.holdFor none = true ↔ p.ifMatch = none := by
  obtain ⟨ifMatch, ifNoneMatch⟩ := p
  cases ifMatch <;> cases ifNoneMatch <;> simp [Preconditions.holdFor, tagsMatch]

/-- `put` and `delete` decide on what `current` found. -/
theorem decideOn_moved (h : Good x i s t) {u : Shared} (hinitial : u.initial = s.initial)
    (hchanges : u.changes = s.changes) (hfrom : t.phase.unsent = true)
    (hguard : t.call.writes = true → t.guard = true) (existing : Option ContactEntry)
    (hseen : ∀ entry, existing = some entry → t.call.preconditions.holdFor existing = true →
      Seen x s t.call (.sending existing)) : Moved x i s t (decideOn u t existing) := by
  have hidle : Moved x i s t (u, t) := by
    apply Moved.plain u t hinitial hchanges rfl h.guarded h.seen
    · exact id
    · exact id
    · intro entry hentry
      exact Or.inl hentry
  obtain ⟨call, phase, guard⟩ := t
  cases call with
  | list => exact hidle
  | get uid => exact hidle
  | put uid vcard p =>
      unfold decideOn
      cases hhold : p.holdFor existing with
      | false =>
          simp only [hhold]
          exact Moved.unsentAnswer hinitial hchanges hfrom rfl rfl
      | true =>
          simp only [hhold]
          refine Moved.next hinitial hchanges (.sending existing) (fun _ => hguard rfl) hfrom rfl
            rfl ?_
          cases existing with
          | none => exact (holdFor_none_iff p).1 hhold
          | some entry => exact hseen entry rfl hhold
  | delete uid p =>
      unfold decideOn
      cases existing with
      | none => exact Moved.unsentAnswer hinitial hchanges hfrom rfl rfl
      | some entry =>
          cases hhold : p.holdFor (some entry) with
          | false =>
              simp only [hhold]
              exact Moved.unsentAnswer hinitial hchanges hfrom rfl rfl
          | true =>
              simp only [hhold]
              exact Moved.next hinitial hchanges (.sending (some entry)) (fun _ => hguard rfl)
                hfrom rfl rfl (hseen entry rfl hhold)

/-- `current`, from the phases in which a call has the listing. -/
theorem current_moved (h : Good x i s t) {u : Shared} (hinitial : u.initial = s.initial)
    (hchanges : u.changes = s.changes) (hfrom : t.phase.unsent = true)
    (hguard : t.guard = true) (cached : Option ContactEntry) :
    Moved x i s t (current u t t.call.preconditions cached) := by
  unfold current
  cases hempty : t.call.preconditions.isEmpty with
  | true =>
      -- without preconditions there is nothing to check
      apply decideOn_moved h hinitial hchanges hfrom (fun _ => hguard)
      rintro entry rfl -
      intro hp
      rw [hempty] at hp
      cases hp
  | false =>
      cases cached with
      | none =>
          apply decideOn_moved h hinitial hchanges hfrom (fun _ => hguard)
          intro entry hentry
          cases hentry
      | some entry => exact Moved.next hinitial hchanges _ (fun _ => hguard) hfrom rfl rfl trivial

theorem listed_moved (h : Good x i s t) {u : Shared} (hinitial : u.initial = s.initial)
    (hchanges : u.changes = s.changes) (hfrom : t.phase.unsent = true)
    (hguard : t.call.writes = true → t.guard = true) (entries : List ContactEntry) :
    Moved x i s t (listed u t entries) := by
  have hcurrent := current_moved h hinitial hchanges hfrom
  unfold listed
  cases hcall : t.call with
  | list => exact Moved.unsentAnswer hinitial hchanges hfrom rfl rfl
  | get uid => exact Moved.unsentAnswer hinitial hchanges hfrom rfl rfl
  | put uid vcard p =>
      rw [hcall] at hguard hcurrent
      exact hcurrent (hguard rfl) _
  | delete uid p =>
      rw [hcall] at hguard hcurrent
      exact hcurrent (hguard rfl) _

theorem look_moved (h : Good x i s t) (hfrom : t.phase.unsent = true)
    (hguard : t.call.writes = true → t.guard = true) : Moved x i s t (look s t) := by
  have hpaging : Moved x i s t (s, { t with phase := .paging maxPages none [] }) :=
    Moved.next rfl rfl _ hguard hfrom rfl rfl trivial
  unfold look
  split
  · split
    · exact listed_moved h rfl rfl hfrom hguard _
    · exact hpaging
  · exact hpaging

theorem pageStep_moved (hfrom : t.phase.unsent = true)
    (hguard : t.call.writes = true → t.guard = true) (left : Nat) (cursor : Option String)
    (entries : List ContactEntry) : Moved x i s t (pageStep x s t left cursor entries) := by
  unfold pageStep
  dsimp only
  split
  · split
    · exact Moved.next rfl rfl _ hguard hfrom rfl rfl trivial
    · exact Moved.next rfl rfl _ hguard hfrom rfl rfl trivial
  · exact Moved.next rfl rfl _ hguard hfrom rfl rfl trivial

/-- What `fetch_entry` returns is what the server holds under the id. -/
theorem fetchEntry_record {contactId : String} {entry : ContactEntry}
    (h : fetchEntry x s contactId = .ok (some entry)) :
    ∃ record, recordOf s.contacts contactId = some record ∧ decodeRecord x record = .ok entry ∧
      entry.contactId = contactId := by
  unfold fetchEntry at h
  cases hrecord : recordOf s.contacts contactId with
  | none =>
      rw [hrecord] at h
      cases h
  | some record =>
      rw [hrecord] at h
      dsimp only at h
      have hid : record.id = contactId := by
        obtain ⟨body, -, rfl⟩ := Option.map_eq_some_iff.1 hrecord
        rfl
      cases hdecode : decodeRecord x record with
      | error e =>
          rw [hdecode] at h
          cases e with
          | integrity => cases h
          | decrypt e => cases h
      | ok found =>
          rw [hdecode] at h
          cases h
          refine ⟨record, rfl, hdecode, ?_⟩
          rw [← hid]
          exact decodeRecord_contactId hdecode

/-- The request of a call: refused, or the next change is its own. -/
theorem request_moved (hfrom : t.phase.unsent = true) (hheld : t.guard = true)
    {after : Option Contacts} {next : Phase} (hunsent : next.unsent = false)
    (hrelies : next.relies = false) (hshown : next.shown = none)
    (hallowed : ∀ contacts s', after = some contacts → s'.initial = s.initial →
      s'.changes = s.changes ++ [⟨some i, contacts⟩] → Allowed x s' s.changes.length t.call) :
    Moved x i s t (request x i c s t after next) := by
  have hrefused : ∀ e, Moved x i s t (finish s t (if c.dropped then .gone else .failed e)) := by
    intro e
    apply Moved.fail rfl rfl
    split
    · exact Or.inl rfl
    · exact Or.inr ⟨e, rfl⟩
  -- a call that has made its change and ends without its answer
  have hlost : ∀ contacts answer, after = some contacts →
      (answer = .gone ∨ ∃ e, answer = .failed e) →
        Moved x i s t
          (finish { s with changes := s.changes ++ [⟨some i, contacts⟩] } t answer) := by
    intro contacts answer hafter hanswer
    refine Moved.wrote _ _ contacts rfl rfl rfl ?_ hheld hfrom ?_ rfl ?_ ?_
    · intro hneeds
      cases hneeds
    · rcases hanswer with rfl | ⟨e, rfl⟩ <;> rfl
    · rcases hanswer with rfl | ⟨e, rfl⟩ <;> rfl
    · exact hallowed contacts _ hafter rfl rfl
  unfold request
  cases after with
  | none => exact hrefused _
  | some contacts =>
      dsimp only
      split
      · exact hrefused _
      · split
        · exact hlost contacts .gone rfl (Or.inl rfl)
        · split
          · rename_i e _
            exact hlost contacts (.failed e) rfl (Or.inr ⟨e, rfl⟩)
          · refine Moved.wrote _ _ contacts rfl rfl rfl (fun _ => hheld) hheld hfrom hunsent hrelies
              hshown ?_
            exact hallowed contacts _ rfl rfl rfl

theorem send_moved (h : Good x i s t) {existing : Option ContactEntry}
    (hphase : t.phase = .sending existing) : Moved x i s t (send x i c s t existing) := by
  have hfrom : t.phase.unsent = true := by
    rw [hphase]
    rfl
  have hheld : t.guard = true := by
    apply h.guarded
    unfold Task.needsGuard
    rw [hphase]
  have hseen := h.seen
  rw [hphase] at hseen
  obtain ⟨call, phase, guard⟩ := t
  have hidle := Moved.idle h
  unfold send
  cases call with
  | list => exact hidle
  | get uid => exact hidle
  | put uid vcard p =>
      dsimp only
      cases hsealed : x.encryptData c.nonce (putPayload x uid vcard) with
      | error e =>
          apply Moved.fail rfl rfl
          split
          · exact Or.inl rfl
          · exact Or.inr ⟨e, rfl⟩
      | ok sealed =>
          dsimp only
          cases existing with
          | some entry =>
              apply request_moved hfrom hheld rfl rfl rfl
              intro contacts s' hafter hinitial hchanges
              have hext := Extends.of_append hinitial hchanges
              refine .update uid vcard p entry.contactId c.nonce c.updatedAt sealed hsealed ?_ ?_
              · rw [contactsAt_append hchanges, hext.contactsAt (Nat.le_refl _)]
                exact hafter
              · intro hp
                exact (hseen hp).mono hext (Nat.le_refl _)
          | none =>
              apply request_moved hfrom hheld rfl rfl rfl
              intro contacts s' hafter hinitial hchanges
              have hext := Extends.of_append hinitial hchanges
              refine .create uid vcard p c.newId c.nonce c.updatedAt sealed hsealed ?_ hseen
              rw [contactsAt_append hchanges, hext.contactsAt (Nat.le_refl _)]
              exact hafter
  | delete uid p =>
      cases existing with
      | none => exact hidle
      | some entry =>
          apply request_moved hfrom hheld rfl rfl rfl
          intro contacts s' hafter hinitial hchanges
          have hext := Extends.of_append hinitial hchanges
          refine .delete uid p entry.contactId ?_ ?_
          · rw [contactsAt_append hchanges, hext.contactsAt (Nat.le_refl _)]
            exact hafter
          · intro hp
            exact (hseen hp).mono hext (Nat.le_refl _)

/-- What `current` has read of one contact. -/
theorem confirming_moved {contactId : String} (hphase : t.phase = .confirming contactId)
    (hguard : t.guard = true) {fresh : Option ContactEntry}
    (hfresh : fetchEntry x s contactId = .ok fresh) :
    Moved x i s t (s, { t with phase := .noting fresh }) := by
  have hfrom : t.phase.unsent = true := by
    rw [hphase]
    rfl
  refine Moved.next rfl rfl (.noting fresh) (fun _ => hguard) hfrom rfl rfl ?_
  refine ⟨s.changes.length, Nat.le_refl _, ?_, ?_⟩
  · intro j hle hlt
    omega
  · rintro entry rfl
    obtain ⟨record, hrecord, hdecode, hid⟩ := fetchEntry_record hfresh
    rw [hid]
    exact ⟨record, hrecord, hdecode⟩

theorem noting_moved (h : Good x i s t) {fresh : Option ContactEntry}
    (hphase : t.phase = .noting fresh) (hguard : t.guard = true) (cache : Option CachedListing) :
    Moved x i s t
      (decideOn { s with cache } t (fresh.filter fun e => e.uid == t.call.uid)) := by
  have hfrom : t.phase.unsent = true := by
    rw [hphase]
    rfl
  have hseen := h.seen
  rw [hphase] at hseen
  obtain ⟨m, hm, hothers, hread⟩ := hseen
  refine decideOn_moved (u := { s with cache }) h rfl rfl hfrom (fun _ => hguard) _ ?_
  intro entry hentry hhold
  rw [hentry] at hhold ⊢
  intro _
  obtain ⟨hfresh, huid⟩ := Option.filter_eq_some_iff.1 hentry
  obtain ⟨record, hrecord, hdecode⟩ := hread entry hfresh
  exact ⟨m, record, entry, hm, hrecord, hdecode, eq_of_beq huid, hhold, hothers⟩

/-- What a call reads back after its request. -/
theorem readingBack_moved {contactId : String} {created : Bool}
    (hphase : t.phase = .readingBack contactId created) (hguard : t.guard = true)
    {entry : ContactEntry} (hentry : fetchEntry x s contactId = .ok (some entry)) :
    Moved x i s t (s, { t with phase := .remembering entry created }) := by
  have hsent : t.phase.sent = true := by
    rw [hphase]
    rfl
  refine Moved.plain (t := t) s { t with phase := .remembering entry created } rfl rfl rfl
    (fun _ => hguard) trivial ?_ (fun _ => hsent) ?_
  · intro h
    cases h
  · intro shown hshown
    obtain rfl := Option.some.inj hshown
    obtain ⟨record, hrecord, hdecode, hid⟩ := fetchEntry_record hentry
    refine Or.inr ⟨hsent, record, ?_, hdecode⟩
    rw [hid]
    exact hrecord

theorem advance_moved (h : Good x i s t) : Moved x i s t (advance x i c s t) := by
  have hneeds := h.guarded
  have hidle := Moved.idle h
  obtain ⟨call, phase, guard⟩ := t
  have hfail : ∀ e, Moved x i s ⟨call, phase, guard⟩ (finish s ⟨call, phase, guard⟩ (.failed e)) :=
    fun e => Moved.fail rfl rfl (Or.inr ⟨e, rfl⟩)
  unfold advance
  cases phase with
  | queued =>
      dsimp only
      split
      · refine Moved.plain { s with writeLock := some i } ⟨call, .looking, true⟩ rfl rfl rfl
          (fun _ => rfl) trivial (fun _ => rfl) ?_ ?_
        · intro hsent
          cases hsent
        · intro entry hentry
          cases hentry
      · exact hidle
  | looking => exact look_moved h rfl hneeds
  | paging left cursor entries =>
      cases c.error with
      | some e => exact hfail e
      | none => exact pageStep_moved rfl hneeds left cursor entries
  | refilling entries =>
      exact listed_moved (u := { s with cache := some ⟨entries, s.clock⟩ }) h rfl rfl rfl hneeds
        entries
  | confirming contactId =>
      cases c.error with
      | some e => exact hfail e
      | none =>
          dsimp only
          split
          · exact hfail _
          · rename_i fresh hfresh
            exact confirming_moved rfl (hneeds rfl) hfresh
  | noting fresh => exact noting_moved h rfl (hneeds rfl) _
  | sending existing => exact send_moved h rfl
  | readingBack contactId created =>
      cases c.error with
      | some e => exact hfail e
      | none =>
          dsimp only
          split
          · exact hfail _
          · rename_i entry hentry
            exact readingBack_moved rfl (hneeds rfl) hentry
          · refine Moved.plain s ⟨call, .invalidating, guard⟩ rfl rfl rfl (fun _ => hneeds rfl)
              trivial ?_ (fun _ => rfl) ?_
            · intro hunsent
              cases hunsent
            · intro entry hentry
              cases hentry
  | remembering entry created =>
      refine Moved.answer (s := s) (t := ⟨call, .remembering entry created, guard⟩)
        (u := { s with cache := remember s.cache entry }) rfl rfl (.stored entry created) ?_
        (fun _ => rfl) ?_
      · intro hunsent
        cases hunsent
      · intro shown hshown
        exact hshown
  | invalidating =>
      exact Moved.fail (s := s) (t := ⟨call, .invalidating, guard⟩)
        (u := { s with cache := none }) rfl rfl (Or.inr ⟨.api "contact was not stored", rfl⟩)
  | forgetting =>
      refine Moved.answer (s := s) (t := ⟨call, .forgetting, guard⟩)
        (u := { s with cache := forget s.cache call.uid }) rfl rfl .deleted ?_ (fun _ => rfl) ?_
      · intro hunsent
        cases hunsent
      · intro shown hshown
        cases hshown
  | answered answer => exact hidle

theorem run_moved (h : Good x i s t) : Moved x i s t (run x i c s t) := by
  unfold run
  split
  · exact Moved.idle h
  · rename_i existing hphase
    exact send_moved h hphase
  · split
    · exact Moved.fail rfl rfl (Or.inl rfl)
    · exact advance_moved h

/-! ## Every call in every run -/

theorem Seen.mono {call : Call} {phase : Phase} (h : Seen x s call phase)
    (hinitial : s'.initial = s.initial) (hchanges : s'.changes = s.changes) :
    Seen x s' call phase := by
  have hext := Extends.of_same hinitial hchanges
  have hat : ∀ j, authorAt s' j = authorAt s j := by
    intro j
    unfold authorAt
    rw [hchanges]
  cases phase with
  | noting fresh =>
      obtain ⟨m, hm, hothers, hread⟩ := h
      refine ⟨m, ?_, ?_, ?_⟩
      · rw [hchanges]
        exact hm
      · intro j hmj hj
        rw [hchanges] at hj
        rw [hat]
        exact hothers j hmj hj
      · rw [hext.contactsAt hm]
        exact hread
  | sending existing =>
      cases existing with
      | none => exact h
      | some entry =>
          intro hp
          rw [hchanges]
          exact (h hp).mono hext (Nat.le_refl _)
  | _ => trivial

/-- Another client's change leaves what a call has seen a reading of the past. -/
theorem Seen.edit {call : Call} {phase : Phase} (h : Seen x s call phase) {contacts : Contacts}
    (hinitial : s'.initial = s.initial)
    (hchanges : s'.changes = s.changes ++ [⟨none, contacts⟩]) : Seen x s' call phase := by
  have hext := Extends.of_append hinitial hchanges
  have hlength : s'.changes.length = s.changes.length + 1 := by simp [hchanges]
  have hothers : ∀ m, (∀ j, m ≤ j → j < s.changes.length → authorAt s j = some none) →
      ∀ j, m ≤ j → j < s'.changes.length → authorAt s' j = some none := by
    intro m hold j hmj hj
    rw [authorAt_append hchanges]
    split
    · rfl
    · exact hold j hmj (by omega)
  cases phase with
  | noting fresh =>
      obtain ⟨m, hm, hold, hread⟩ := h
      refine ⟨m, by omega, hothers m hold, ?_⟩
      rw [hext.contactsAt hm]
      exact hread
  | sending existing =>
      cases existing with
      | none => exact h
      | some entry =>
          intro hp
          obtain ⟨m, record, found, hm, hrecord, hdecode, huid, hhold, hold⟩ := h hp
          refine ⟨m, record, found, by omega, ?_, hdecode, huid, hhold, hothers m hold⟩
          rw [hext.contactsAt hm]
          exact hrecord
  | _ => trivial

theorem Good.same {u : Task} {j : Nat} (h : Good x j s u) (hinitial : s'.initial = s.initial)
    (hchanges : s'.changes = s.changes) : Good x j s' u := by
  have hext := Extends.of_same hinitial hchanges
  have hat : ∀ k, authorAt s' k = authorAt s k := by
    intro k
    unfold authorAt
    rw [hchanges]
  refine ⟨h.guarded, h.seen.mono hinitial hchanges, ?_, ?_, ?_, ?_, ?_⟩
  · simpa only [hat] using h.unsent
  · simpa only [hat] using h.sent
  · simpa only [hat] using h.once
  · intro k hk
    rw [hat] at hk
    exact (h.allowed k hk).mono hext (authorAt_lt hk)
  · intro entry hentry
    obtain ⟨k, m, record, hk, hkm, hm, hrecord, hdecode⟩ := h.shown entry hentry
    refine ⟨k, m, record, ?_, hkm, ?_, ?_, hdecode⟩
    · rw [hat]
      exact hk
    · rw [hchanges]
      exact hm
    · rw [hext.contactsAt hm]
      exact hrecord

/-- A change by somebody else. -/
theorem Good.append {u : Task} {j : Nat} (h : Good x j s u) {author : Option Nat}
    {contacts : Contacts} (hinitial : s'.initial = s.initial)
    (hchanges : s'.changes = s.changes ++ [⟨author, contacts⟩]) (hne : author ≠ some j)
    (hseen : Seen x s' u.call u.phase) : Good x j s' u := by
  have hext := Extends.of_append hinitial hchanges
  have hat : ∀ k, authorAt s' k = some (some j) ↔ authorAt s k = some (some j) := by
    intro k
    constructor
    · intro hk
      rw [authorAt_append hchanges] at hk
      split at hk
      · exact absurd (Option.some.inj hk) hne
      · exact hk
    · intro hk
      rw [hext.authorAt (authorAt_lt hk)]
      exact hk
  refine ⟨h.guarded, hseen, ?_, ?_, ?_, ?_, ?_⟩
  · simpa only [ne_eq, hat] using h.unsent
  · simpa only [hat] using h.sent
  · simpa only [hat] using h.once
  · intro k hk
    rw [hat] at hk
    exact (h.allowed k hk).mono hext (authorAt_lt hk)
  · intro entry hentry
    obtain ⟨k, m, record, hk, hkm, hm, hrecord, hdecode⟩ := h.shown entry hentry
    refine ⟨k, m, record, (hat k).2 hk, hkm, ?_, ?_, hdecode⟩
    · exact Nat.le_trans hm hext.length_le
    · rw [hext.contactsAt hm]
      exact hrecord

/-- The call that takes the step. -/
theorem Good.own {t' : Task} (h : Good x i s t) (hmoved : Moved x i s t (s', t')) :
    Good x i s' t' := by
  cases hmoved with
  | plain _ _ hinitial hchanges hcall hguard hseen hunsent hsent hshown =>
      have hold := h.same hinitial hchanges
      refine ⟨hguard, ?_, ?_, ?_, hold.once, ?_, ?_⟩
      · rw [hcall]
        exact hseen.mono hinitial hchanges
      · intro hto
        exact hold.unsent (hunsent hto)
      · intro hto
        exact hold.sent (hsent hto)
      · rw [hcall]
        exact hold.allowed
      · intro entry hentry
        rcases hshown entry hentry with hbefore | ⟨hfrom, record, hrecord, hdecode⟩
        · exact hold.shown entry hbefore
        · -- read in this step, and the change of the call is in the past
          obtain ⟨k, hk⟩ := hold.sent hfrom
          refine ⟨k, s'.changes.length, record, hk, authorAt_lt hk, Nat.le_refl _, ?_, hdecode⟩
          have hext := Extends.of_same hinitial hchanges
          rw [hchanges, hext.contactsAt (Nat.le_refl _)]
          exact hrecord
  | wrote _ _ contacts hinitial hchanges hcall hguard hheld hfrom hunsent hrelies hshown
      hallowed =>
      have hnone := h.unsent hfrom
      have hat : ∀ k, authorAt s' k = some (some i) ↔ k = s.changes.length := by
        intro k
        rw [authorAt_append hchanges]
        constructor
        · intro hk
          split at hk
          · assumption
          · exact absurd hk (hnone k)
        · intro hk
          rw [if_pos hk]
      refine ⟨hguard, seen_of_not_relies hrelies, ?_, ?_, ?_, ?_, ?_⟩
      · intro hto
        rw [hunsent] at hto
        cases hto
      · intro _
        exact ⟨s.changes.length, (hat _).2 rfl⟩
      · intro k k' hk hk'
        rw [(hat k).1 hk, (hat k').1 hk']
      · intro k hk
        rw [(hat k).1 hk, hcall]
        exact hallowed
      · intro entry hentry
        rw [hshown] at hentry
        cases hentry

/-- A call that relies on what it has seen holds the lock. -/
theorem Good.guard_of_relies {u : Task} {j : Nat} (h : Good x j s u)
    (hrelies : u.phase.relies = true) : u.guard = true := by
  apply h.guarded
  obtain ⟨call, phase, guard⟩ := u
  cases phase with
  | noting fresh => rfl
  | sending existing => rfl
  | _ => cases hrelies

/-- **No step of another call comes between what a call has seen and its request.** -/
theorem Good.others {t' u : Task} {j : Nat} (h : Good x j s u) (hji : j ≠ i)
    (hexclusive : t.guard = true → u.guard = true → j = i) (hmoved : Moved x i s t (s', t')) :
    Good x j s' u := by
  cases hmoved with
  | plain _ _ hinitial hchanges => exact h.same hinitial hchanges
  | wrote _ _ contacts hinitial hchanges hcall hguard hheld =>
      have hrelies : u.phase.relies = false := by
        cases hrelies : u.phase.relies with
        | false => rfl
        | true => exact absurd (hexclusive hheld (h.guard_of_relies hrelies)) hji
      apply h.append hinitial hchanges
      · intro heq
        exact hji (Option.some.inj heq).symm
      · exact seen_of_not_relies hrelies

theorem Good.outside {u : Task} {j : Nat} (h : Good x j s u) (e : Outside) :
    Good x j (outside e s) u := by
  cases e with
  | tick milliseconds => exact h.same rfl rfl
  | edit contacts =>
      have hchanges : (Store.outside (.edit contacts) s).changes =
          s.changes ++ [⟨none, contacts⟩] := rfl
      have hinitial : (Store.outside (.edit contacts) s).initial = s.initial := rfl
      apply h.append hinitial hchanges
      · intro heq
        cases heq
      · exact h.seen.edit hinitial hchanges

theorem good_begin (hnew : ∀ k, authorAt s k ≠ some (some i)) (call : Call) :
    Good x i s (begin call) := by
  have hphase : (begin call).phase.relies = false ∧ (begin call).phase.sent = false ∧
      (begin call).phase.shown = none ∧ (begin call).needsGuard = false := by
    cases call with
    | list => exact ⟨rfl, rfl, rfl, rfl⟩
    | get uid => exact ⟨rfl, rfl, rfl, rfl⟩
    | delete uid p => exact ⟨rfl, rfl, rfl, rfl⟩
    | put uid vcard p =>
        unfold begin Task.needsGuard
        dsimp only
        split
        · exact ⟨rfl, rfl, rfl, rfl⟩
        · split
          · exact ⟨rfl, rfl, rfl, rfl⟩
          · exact ⟨rfl, rfl, rfl, rfl⟩
  obtain ⟨hrelies, hsent, hshown, hneeds⟩ := hphase
  refine ⟨?_, seen_of_not_relies hrelies, fun _ => hnew, ?_, ?_, ?_, ?_⟩
  · intro h
    rw [hneeds] at h
    cases h
  · intro h
    rw [hsent] at h
    cases h
  · intro k k' hk
    exact absurd hk (hnew k)
  · intro k hk
    exact absurd hk (hnew k)
  · intro entry h
    rw [hshown] at h
    cases h

/-! ## The lock -/

/-- A step that neither takes nor gives back the lock. -/
theorem keeps_stay {u : Shared} {t' : Task} (hlock : u.writeLock = s.writeLock)
    (hguard : t'.guard = t.guard) :
    Keeps Shared.writeLock (fun t : Task => t.guard = true) i s t u t' := by
  apply Keeps.stay hlock
  rw [hguard]

theorem finish_keeps {u : Shared} (hlock : u.writeLock = s.writeLock) (answer : Answer) :
    Keeps Shared.writeLock (fun t : Task => t.guard = true) i s t (finish u t answer).1
      (finish u t answer).2 := by
  unfold finish
  cases hguard : t.guard with
  | false =>
      apply Keeps.stay
      · simpa using hlock
      · simp [hguard]
  | true =>
      apply Keeps.release
      · exact hguard
      · rfl
      · simp

theorem decideOn_keeps {u : Shared} (hlock : u.writeLock = s.writeLock)
    (existing : Option ContactEntry) :
    Keeps Shared.writeLock (fun t : Task => t.guard = true) i s t (decideOn u t existing).1
      (decideOn u t existing).2 := by
  unfold decideOn
  split
  · split
    · exact finish_keeps hlock _
    · exact keeps_stay hlock rfl
  · split
    · exact finish_keeps hlock _
    · split
      · exact finish_keeps hlock _
      · exact keeps_stay hlock rfl
  · exact keeps_stay hlock rfl
  · exact keeps_stay hlock rfl

theorem listed_keeps {u : Shared} (hlock : u.writeLock = s.writeLock)
    (entries : List ContactEntry) :
    Keeps Shared.writeLock (fun t : Task => t.guard = true) i s t (listed u t entries).1
      (listed u t entries).2 := by
  have hcurrent : ∀ p cached, Keeps Shared.writeLock (fun t : Task => t.guard = true) i s t
      (current u t p cached).1 (current u t p cached).2 := by
    intro p cached
    unfold current
    split
    · exact decideOn_keeps hlock _
    · split
      · exact decideOn_keeps hlock _
      · exact keeps_stay hlock rfl
  unfold listed
  split
  · exact finish_keeps hlock _
  · exact finish_keeps hlock _
  · exact hcurrent _ _
  · exact hcurrent _ _

theorem request_keeps (after : Option Contacts) (next : Phase) :
    Keeps Shared.writeLock (fun t : Task => t.guard = true) i s t
      (request x i c s t after next).1 (request x i c s t after next).2 := by
  unfold request
  split
  · exact finish_keeps rfl _
  · dsimp only
    split
    · exact finish_keeps rfl _
    · split
      · apply finish_keeps
        rfl
      · split
        · apply finish_keeps
          rfl
        · exact keeps_stay rfl rfl

theorem send_keeps (existing : Option ContactEntry) :
    Keeps Shared.writeLock (fun t : Task => t.guard = true) i s t (send x i c s t existing).1
      (send x i c s t existing).2 := by
  unfold send
  split
  · split
    · exact finish_keeps rfl _
    · split
      · exact request_keeps _ _
      · exact request_keeps _ _
  · exact request_keeps _ _
  · exact keeps_stay rfl rfl

theorem advance_keeps :
    Keeps Shared.writeLock (fun t : Task => t.guard = true) i s t (advance x i c s t).1
      (advance x i c s t).2 := by
  unfold advance
  split
  · split
    · rename_i hfree
      exact Keeps.take hfree rfl rfl
    · exact keeps_stay rfl rfl
  · unfold look
    split
    · split
      · exact listed_keeps rfl _
      · exact keeps_stay rfl rfl
    · exact keeps_stay rfl rfl
  · exact finish_keeps rfl _
  · unfold pageStep
    dsimp only
    split
    · split
      · exact keeps_stay rfl rfl
      · exact keeps_stay rfl rfl
    · exact keeps_stay rfl rfl
  · apply listed_keeps
    rfl
  · exact finish_keeps rfl _
  · split
    · exact finish_keeps rfl _
    · exact keeps_stay rfl rfl
  · apply decideOn_keeps
    rfl
  · exact send_keeps _
  · exact finish_keeps rfl _
  · split
    · exact finish_keeps rfl _
    · exact keeps_stay rfl rfl
    · exact keeps_stay rfl rfl
  · apply finish_keeps
    rfl
  · apply finish_keeps
    rfl
  · apply finish_keeps
    rfl
  · exact keeps_stay rfl rfl

/-- `write_lock` is a lock among the calls. -/
theorem lockProgram (x : StoreCrates) :
    LockProgram (program x) Shared.writeLock (fun t => t.guard = true) where
  initial call := by
    intro h
    cases h
  run i c s t := by
    show Keeps _ _ i s t (run x i c s t).1 (run x i c s t).2
    unfold run
    split
    · exact keeps_stay rfl rfl
    · exact send_keeps _
    · split
      · exact finish_keeps rfl _
      · exact advance_keeps
  outside e s := by
    cases e with
    | tick milliseconds => rfl
    | edit contacts => rfl

/-! ## Runs -/

/-- The store after a run, from the contacts that the server has at its start. -/
def after (x : StoreCrates) (contacts : Contacts) (clock : Nat)
    (events : List (Event Call Choice Outside)) : System Shared Task :=
  exec (program x).step (System.start ⟨contacts, [], none, none, clock⟩) events

/-- The invariant of a run. -/
structure Sound (x : StoreCrates) (s : System Shared Task) : Prop where
  locked : Locked Shared.writeLock (fun t : Task => t.guard = true) s
  attributed : ∀ k i, authorAt s.shared k = some (some i) → i < s.tasks.length
  good : ∀ i t, s.tasks[i]? = some t → Good x i s.shared t

variable {w : System Shared Task}

theorem Sound.call (h : Sound x w) (call : Call) : Sound x ((program x).step w (.call call)) := by
  refine ⟨(lockProgram x).step h.locked _, ?_, ?_⟩
  · intro k i hk
    exact Nat.lt_of_lt_of_le (h.attributed k i hk) (length_step_le w (.call call))
  · intro i t ht
    rcases task_call_cases ht with hold | ⟨rfl, rfl⟩
    · exact h.good i t hold
    · -- the place of the new call is no author yet
      apply good_begin
      intro k hk
      exact Nat.lt_irrefl _ (h.attributed k _ hk)

theorem Sound.run (h : Sound x w) {i : Nat} {t : Task} (c : Choice)
    (ht : w.tasks[i]? = some t) : Sound x ((program x).step w (.run i c)) := by
  have hgood := h.good i t ht
  have hmoved : Moved x i w.shared t (Store.run x i c w.shared t) := run_moved hgood
  have hself := task_step_run (P := program x) c ht
  have hshared : ((program x).step w (.run i c)).shared = (Store.run x i c w.shared t).1 := by
    rw [step_run c ht]
    rfl
  refine ⟨(lockProgram x).step h.locked _, ?_, ?_⟩
  · intro k j hk
    have hlength := length_step_le (P := program x) w (.run i c)
    obtain ⟨hi, -⟩ := List.getElem?_eq_some_iff.1 ht
    rw [hshared] at hk
    revert hk
    generalize Store.run x i c w.shared t = r at hmoved
    cases hmoved with
    | plain s' t' hinitial hchanges =>
        intro hk
        have hold : authorAt w.shared k = some (some j) := by
          rw [← hk]
          unfold authorAt
          rw [hchanges]
        exact Nat.lt_of_lt_of_le (h.attributed k j hold) hlength
    | wrote s' t' contacts hinitial hchanges =>
        intro hk
        rw [authorAt_append hchanges] at hk
        split at hk
        · obtain rfl := Option.some.inj (Option.some.inj hk)
          exact Nat.lt_of_lt_of_le hi hlength
        · exact Nat.lt_of_lt_of_le (h.attributed k j hk) hlength
  · intro j u hu
    rw [hshared]
    by_cases hj : j = i
    · subst hj
      rw [hself] at hu
      obtain rfl := Option.some.inj hu
      exact hgood.own hmoved
    · rw [task_step_other c hj] at hu
      apply (h.good j u hu).others hj _ hmoved
      intro hti huj
      exact h.locked.unique hu ht huj hti

theorem Sound.step (h : Sound x w) (e : Event Call Choice Outside) :
    Sound x ((program x).step w e) := by
  cases e with
  | call call => exact h.call call
  | run i c =>
      cases ht : w.tasks[i]? with
      | none => rwa [step_run_none c ht]
      | some t => exact h.run c ht
  | outside e =>
      refine ⟨(lockProgram x).step h.locked _, ?_, ?_⟩
      · intro k i hk
        apply h.attributed k i
        cases e with
        | tick milliseconds => exact hk
        | edit contacts =>
            have hchanges : (Store.outside (.edit contacts) w.shared).changes =
                w.shared.changes ++ [⟨none, contacts⟩] := rfl
            rw [show ((program x).step w (.outside (.edit contacts))).shared =
              Store.outside (.edit contacts) w.shared from rfl, authorAt_append hchanges] at hk
            split at hk
            · cases hk
            · exact hk
      · intro i t ht
        exact (h.good i t ht).outside e

theorem sound_after (x : StoreCrates) (contacts : Contacts) (clock : Nat)
    (events : List (Event Call Choice Outside)) : Sound x (after x contacts clock events) := by
  refine exec_invariant (I := Sound x) ?_ ?_ (guarded_true _ _ events)
  · intro s e h _
    exact h.step e
  · refine ⟨locked_start rfl, ?_, ?_⟩
    · intro k i hk
      cases hk
    · intro i t ht
      cases ht

/-- **Conditional writes of the contacts store.** In every run of any calls beside other clients'
changes, each change of a call is one that the call may make: with preconditions it replaces or
deletes a contact only in a version that it has read under its uid, that the preconditions allow,
and after which only other clients have changed anything; a request with `If-Match` creates no
contact. A call makes at most one change, one that is answered without a write none, and one that
is answered as stored or deleted exactly one, where what it shows as stored was read afterwards. -/
theorem conditional_writes (x : StoreCrates) (contacts : Contacts) (clock : Nat)
    (events : List (Event Call Choice Outside)) :
    let w := after x contacts clock events
    (∀ k i, authorAt w.shared k = some (some i) →
      ∃ t, w.tasks[i]? = some t ∧ Allowed x w.shared k t.call) ∧
    ∀ i t, w.tasks[i]? = some t →
      (∀ k k', authorAt w.shared k = some (some i) → authorAt w.shared k' = some (some i) →
        k = k') ∧
      (t.phase.unsent = true → ∀ k, authorAt w.shared k ≠ some (some i)) ∧
      (t.phase.sent = true → ∃ k, authorAt w.shared k = some (some i)) ∧
      ∀ entry, t.phase.shown = some entry → ∃ k m record,
        authorAt w.shared k = some (some i) ∧ k < m ∧ m ≤ w.shared.changes.length ∧
          recordOf (w.shared.contactsAt m) entry.contactId = some record ∧
            decodeRecord x record = .ok entry := by
  intro w
  have hsound : Sound x w := sound_after x contacts clock events
  constructor
  · intro k i hk
    have hlt := hsound.attributed k i hk
    have ht : w.tasks[i]? = some w.tasks[i] := List.getElem?_eq_getElem hlt
    exact ⟨w.tasks[i], ht, (hsound.good i _ ht).allowed k hk⟩
  · intro i t ht
    have hgood := hsound.good i t ht
    exact ⟨hgood.once, hgood.unsent, hgood.sent, hgood.shown⟩

end AsterBridge.Dav.Store
