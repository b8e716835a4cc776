import AsterBridge.Crypto.PinRuns
import AsterBridge.Lib.Table

/-!
# Concurrent reads and writes of pins

The database steps of `seal_internal_body` and `accept_recipient_key`. A send reads the pin
of each recipient, and writes the changed pins after it has sealed the message. Nothing
holds the row in between.
-/

set_option autoImplicit false

namespace AsterBridge.Crypto

open AsterBridge.Lib AsterBridge.Lib.Unicode AsterBridge.Lib.Runs

/-- `pin_to_save` -/
def pinToSave (evaluated existing : Option RecipientPin) (hosted : Bool) : Option RecipientPin :=
  match evaluated with
  | some pin => some { pin with hosted := pin.hosted || hosted }
  | none =>
      (existing.filter fun pin => hosted && !pin.hosted).map fun pin => { pin with hosted := true }

/-- A call of `recipient_pin_put` that is still to come, with the row that the call has read. -/
structure PinWrite where
  key : String
  read : Option RecipientPin
  pin : RecipientPin

/-- What a caller asks for: a message for internal recipients, or the acceptance of a key. -/
inductive Request where
  | sealBody (internal : List String)
  | accept (address : String) (owner : Option String) (confirmed : String)

/-- A call in flight. A send routes its recipients one by one, then saves the pins that have
changed; a refused recipient ends it, after the flag is written. An acceptance reads, then
writes. -/
inductive Call where
  | routing (todo : List String) (pending : List PinWrite)
  | saving (pending : List PinWrite)
  | refusing (write : PinWrite)
  | accepting (address : String) (owner : Option String) (confirmed : String)
  | confirming (write : PinWrite) (fingerprint : String)
  | done

/-- The call of a request, before its first step. -/
def Request.call : Request → Call
  | .sealBody internal => .routing internal []
  | .accept address owner confirmed => .accepting address owner confirmed

/-- The pins and the calls in flight. -/
structure PinSystem where
  pins : Table String RecipientPin
  calls : Nat → Call

/-- The calls of `requests`, before their first steps. -/
def PinSystem.start (pins : Table String RecipientPin) (requests : Nat → Request) : PinSystem :=
  ⟨pins, fun i => (requests i).call⟩

/-- A step of one call: the evaluation of its next recipient, with the keys the server
publishes; the end of the sealing; a write, which may fail; the read of an acceptance; or the
end of the call by an error or a cancellation. -/
inductive PinAction where
  | route (i : Nat) (bundle : Option PrekeyBundle) (owner : Option String) (hostedNow : Bool)
  | sealed (i : Nat) (ok : Bool)
  | write (i : Nat) (ok : Bool)
  | acceptRead (i : Nat)
  | fail (i : Nat)

namespace PinSystem

def setCall (s : PinSystem) (i : Nat) (call : Call) : PinSystem :=
  { s with calls := Function.update s.calls i call }

/-- `recipient_pin_put` -/
def put (s : PinSystem) (w : PinWrite) (ok : Bool) : PinSystem :=
  { s with pins := if ok then s.pins.upsert w.key w.pin else s.pins }

variable (x : Crates) (T : CaseTables) (accountId : String)

/-- The pass of the loop of `seal_internal_body_with` for one address. -/
def routeOne (s : PinSystem) (address : String) (todo : List String) (pending : List PinWrite)
    (bundle : Option PrekeyBundle) (owner : Option String) (hostedNow : Bool) : Call :=
  let key := pinId x T accountId address
  let existing := s.pins.get? key
  let evaluation := evaluateRecipient x T address bundle owner existing
  match evaluation.outcome with
  | .ok _ =>
      .routing todo (pending ++
        ((pinToSave evaluation.pin existing hostedNow).map fun pin => ⟨key, existing, pin⟩).toList)
  | .error _ =>
      match evaluation.pin with
      | some pin => .refusing ⟨key, existing, pin⟩
      | none => .done

/-- The read of `accept_recipient_key`. -/
def acceptOne (s : PinSystem) (address : String) (owner : Option String) (confirmed : String) :
    Call :=
  match confirmedFingerprint x T owner confirmed with
  | none => .done
  | some fingerprint =>
      let key := pinId x T accountId address
      let existing := s.pins.get? key
      .confirming ⟨key, existing, acceptedPin (existing.getD .default) fingerprint⟩ fingerprint

/-- The write that call `i` makes next. -/
def nextWrite (s : PinSystem) (i : Nat) : Option PinWrite :=
  match s.calls i with
  | .saving (w :: _) => some w
  | .refusing w => some w
  | .confirming w _ => some w
  | _ => none

/-- A call after its next write. -/
def afterWrite (call : Call) (ok : Bool) : Call :=
  match call with
  | .saving (_ :: ws) => if ok then .saving ws else .done
  | _ => .done

/-- **One database step of one call.** -/
def step (s : PinSystem) : PinAction → PinSystem
  | .route i bundle owner hostedNow =>
      match s.calls i with
      | .routing (address :: todo) pending =>
          s.setCall i (s.routeOne x T accountId address todo pending bundle owner hostedNow)
      | _ => s
  | .sealed i ok =>
      match s.calls i with
      | .routing [] pending => s.setCall i (if ok then .saving pending else .done)
      | _ => s
  | .write i ok =>
      match s.nextWrite i with
      | some w => (s.put w ok).setCall i (afterWrite (s.calls i) ok)
      | none => s
  | .acceptRead i =>
      match s.calls i with
      | .accepting address owner confirmed =>
          s.setCall i (s.acceptOne x T accountId address owner confirmed)
      | _ => s
  | .fail i => s.setCall i .done

/-- The stored pin of `key`. -/
def pinAt (s : PinSystem) (key : String) : RecipientPin := pinOf (s.pins.get? key)

/-! ## Conditions on a step -/

/-- Nothing that the stored pin forbids was set after the row was read. -/
structure NotRaised (read stored : RecipientPin) : Prop where
  flagged : stored.flagged = true → read.flagged = true
  epoch : stored.bindingEpoch ≤ read.bindingEpoch
  seen : stored.pqSeen = true → read.pqSeen = true
  hosted : stored.hosted = true → read.hosted = true

instance (read stored : RecipientPin) : Decidable (NotRaised read stored) :=
  decidable_of_iff
    ((stored.flagged = true → read.flagged = true) ∧ stored.bindingEpoch ≤ read.bindingEpoch ∧
      (stored.pqSeen = true → read.pqSeen = true) ∧ (stored.hosted = true → read.hosted = true))
    ⟨fun h => ⟨h.1, h.2.1, h.2.2.1, h.2.2.2⟩, fun h => ⟨h.flagged, h.epoch, h.seen, h.hosted⟩⟩

/-- No other write has raised the row between the read and the write of the call. -/
def Undisturbed (s : PinSystem) : PinAction → Prop
  | .write i _ => ∀ w ∈ s.nextWrite i, NotRaised (pinOf w.read) (s.pinAt w.key)
  | _ => True

instance (s : PinSystem) (a : PinAction) : Decidable (s.Undisturbed a) := by
  unfold Undisturbed
  split
  · infer_instance
  · infer_instance

/-- The write of an acceptance that has read a flagged pin. -/
def AcceptsFlagged (key : String) (s : PinSystem) : PinAction → Prop
  | .write i _ =>
      match s.calls i with
      | .confirming w _ => w.key = key ∧ (pinOf w.read).flagged = true
      | _ => False
  | _ => False

/-- The write of an acceptance of another account key. -/
def AcceptsChanged (key : String) (s : PinSystem) : PinAction → Prop
  | .write i _ =>
      match s.calls i with
      | .confirming w fingerprint => w.key = key ∧ (pinOf w.read).replacesOwner fingerprint = true
      | _ => False
  | _ => False

instance (key : String) (s : PinSystem) (a : PinAction) : Decidable (AcceptsFlagged key s a) := by
  unfold AcceptsFlagged
  split
  · split
    · infer_instance
    · infer_instance
  · infer_instance

/-! ## What a call writes -/

/-- A pin that a send writes, beside the pin that it has read. -/
structure SendWrite (w : PinWrite) : Prop where
  flagged : (pinOf w.read).flagged = true → w.pin.flagged = true
  epoch : (pinOf w.read).bindingEpoch ≤ w.pin.bindingEpoch
  seen : (pinOf w.read).pqSeen = true → w.pin.pqSeen = true
  hosted : (pinOf w.read).hosted = true → w.pin.hosted = true

/-- The writes that a call still makes follow from what it has read. -/
def CallGood : Call → Prop
  | .routing _ pending => ∀ w ∈ pending, SendWrite w
  | .saving pending => ∀ w ∈ pending, SendWrite w
  | .refusing w => SendWrite w
  | .confirming w fingerprint => w.pin = acceptedPin (pinOf w.read) fingerprint
  | _ => True

variable {x : Crates} {T : CaseTables} {accountId : String}

theorem changedPin_eq {existing : Option RecipientPin} {pin pin' : RecipientPin}
    (h : changedPin existing pin = some pin') : pin' = pin := by
  unfold changedPin at h
  split at h
  · exact absurd h (by simp)
  · exact (Option.some.inj h).symm

/-- What an evaluation returns to be stored raises the pin that was read. -/
theorem sendWrite_of_exit {existing : Option RecipientPin} {bundle : Option PrekeyBundle}
    {owner : Option String} {e : Evaluation} (h : Exit x existing bundle owner e)
    {pin : RecipientPin} (hpin : e.pin = some pin) (key : String) :
    SendWrite ⟨key, existing, pin⟩ := by
  cases h with
  | flagged error =>
      obtain rfl := changedPin_eq hpin
      exact ⟨fun _ => rfl, le_rfl, id, id⟩
  | refused error => exact absurd hpin (by simp)
  | ratchet bundle' covers current target trusted binding follows chosen =>
      obtain rfl := changedPin_eq hpin
      refine ⟨fun hflag => absurd (trusted.notFlagged.symm.trans hflag) (by simp),
        follows.epoch_le, fun hseen => ?_, id⟩
      simp only [verifiedPin, hseen, Bool.true_or]
  | accountKey current trusted unbound epoch unseen =>
      obtain rfl := changedPin_eq hpin
      exact ⟨id, le_rfl, id, id⟩

/-- `pin_to_save` adds nothing but the mark of a hosted recipient. -/
theorem sendWrite_pinToSave {evaluated existing : Option RecipientPin} {hosted : Bool}
    {pin : RecipientPin} {key : String} (h : pinToSave evaluated existing hosted = some pin)
    (hevaluated : ∀ pin, evaluated = some pin → SendWrite ⟨key, existing, pin⟩) :
    SendWrite ⟨key, existing, pin⟩ := by
  cases evaluated with
  | some evaluated =>
      obtain rfl := Option.some.inj h
      have hgood := hevaluated evaluated rfl
      refine ⟨hgood.flagged, hgood.epoch, hgood.seen, fun hhosted => ?_⟩
      exact Bool.or_eq_true_iff.2 (Or.inl (hgood.hosted hhosted))
  | none =>
      obtain ⟨read, hread, rfl⟩ := Option.map_eq_some_iff.1 h
      obtain rfl := (Option.filter_eq_some_iff.1 hread).1
      exact ⟨id, le_rfl, id, fun _ => rfl⟩

theorem callGood_routeOne (s : PinSystem) {address : String} {todo : List String}
    {pending : List PinWrite} (hpending : ∀ w ∈ pending, SendWrite w)
    (bundle : Option PrekeyBundle) (owner : Option String) (hostedNow : Bool) :
    CallGood (s.routeOne x T accountId address todo pending bundle owner hostedNow) := by
  have hexit := evaluateRecipient_exit x T address bundle owner
    (s.pins.get? (pinId x T accountId address))
  unfold routeOne
  dsimp only
  split
  · intro w hw
    rcases List.mem_append.1 hw with hold | hnew
    · exact hpending w hold
    · obtain ⟨pin, hpin, rfl⟩ := Option.map_eq_some_iff.1 (Option.mem_toList.1 hnew)
      exact sendWrite_pinToSave hpin fun pin hsome => sendWrite_of_exit hexit hsome _
  · split
    · rename_i pin hpin
      exact sendWrite_of_exit hexit hpin _
    · trivial

theorem callGood_afterWrite {call : Call} (h : CallGood call) (ok : Bool) :
    CallGood (afterWrite call ok) := by
  unfold afterWrite
  split
  · split
    · exact fun w hw => h w (List.mem_cons_of_mem _ hw)
    · trivial
  · trivial

theorem callGood_setCall {s : PinSystem} {call : Call} {i : Nat} (h : ∀ j, CallGood (s.calls j))
    (hcall : CallGood call) (j : Nat) : CallGood ((s.setCall i call).calls j) := by
  simp only [setCall]
  by_cases hj : j = i
  · rw [hj, Function.update_self]
    exact hcall
  · rw [Function.update_of_ne hj]
    exact h j

theorem step_callGood (s : PinSystem) (a : PinAction) (h : ∀ j, CallGood (s.calls j)) :
    ∀ j, CallGood ((s.step x T accountId a).calls j) := by
  cases a with
  | route i bundle owner hostedNow =>
      simp only [step]
      split
      · rename_i address todo pending hcall
        have hpending : CallGood (.routing (address :: todo) pending) := hcall ▸ h i
        exact callGood_setCall h (s.callGood_routeOne hpending bundle owner hostedNow)
      · exact h
  | sealed i ok =>
      simp only [step]
      split
      · rename_i pending hcall
        have hpending : CallGood (.routing [] pending) := hcall ▸ h i
        apply callGood_setCall h
        split
        · exact hpending
        · trivial
      · exact h
  | write i ok =>
      simp only [step]
      split
      · exact callGood_setCall (s := s.put _ ok) h (callGood_afterWrite (h i) ok)
      · exact h
  | acceptRead i =>
      simp only [step]
      split
      · apply callGood_setCall h
        unfold acceptOne
        split
        · trivial
        · rfl
      · exact h
  | fail i => exact callGood_setCall h trivial

/-- A pin changes by the write of a call. -/
theorem step_pinAt (x : Crates) (T : CaseTables) (accountId : String) (s : PinSystem)
    (a : PinAction) (key : String) :
    (s.step x T accountId a).pinAt key = s.pinAt key ∨
      ∃ i ok w, a = .write i ok ∧ s.nextWrite i = some w ∧ w.key = key ∧
        (s.step x T accountId a).pinAt key = w.pin := by
  cases a with
  | write i ok =>
      simp only [step]
      split
      · rename_i w hw
        cases ok with
        | false => exact Or.inl rfl
        | true =>
            by_cases hkey : w.key = key
            · refine Or.inr ⟨i, true, w, rfl, hw, hkey, ?_⟩
              simp [pinAt, put, setCall, hkey]
            · have hne : key ≠ w.key := fun h => hkey h.symm
              exact Or.inl (by simp [pinAt, put, setCall, hne])
      · exact Or.inl rfl
  | route i bundle owner hostedNow =>
      simp only [step]
      split <;> exact Or.inl rfl
  | sealed i ok =>
      simp only [step]
      split <;> exact Or.inl rfl
  | acceptRead i =>
      simp only [step]
      split <;> exact Or.inl rfl
  | fail i => exact Or.inl rfl

/-- The next write is that of a send, or that of an acceptance. -/
theorem nextWrite_good {s : PinSystem} {i : Nat} {w : PinWrite} (h : CallGood (s.calls i))
    (hw : s.nextWrite i = some w) :
    SendWrite w ∨ ∃ fingerprint, s.calls i = .confirming w fingerprint ∧
      w.pin = acceptedPin (pinOf w.read) fingerprint := by
  unfold nextWrite at hw
  split at hw
  · rename_i ws hcall
    obtain rfl := Option.some.inj hw
    rw [hcall] at h
    exact Or.inl (h _ List.mem_cons_self)
  · rename_i hcall
    obtain rfl := Option.some.inj hw
    rw [hcall] at h
    exact Or.inl h
  · rename_i fingerprint hcall
    obtain rfl := Option.some.inj hw
    rw [hcall] at h
    exact Or.inr ⟨fingerprint, hcall, h⟩
  · exact absurd hw (by simp)

/-! ## What an undisturbed step keeps -/

section Kept

variable {s : PinSystem} {a : PinAction} {key : String}

theorem step_seen (h : ∀ j, CallGood (s.calls j)) (hok : s.Undisturbed a)
    (hseen : (s.pinAt key).pqSeen = true) : ((s.step x T accountId a).pinAt key).pqSeen = true := by
  obtain hsame | ⟨i, ok, w, rfl, hw, rfl, hpin⟩ :=
    step_pinAt x T accountId s a key
  · rwa [hsame]
  · rw [hpin]
    have hread := (hok w hw).seen hseen
    rcases nextWrite_good (h i) hw with hsend | ⟨fingerprint, -, haccepted⟩
    · exact hsend.seen hread
    · rwa [haccepted]

theorem step_hosted (h : ∀ j, CallGood (s.calls j)) (hok : s.Undisturbed a)
    (hhosted : (s.pinAt key).hosted = true) :
    ((s.step x T accountId a).pinAt key).hosted = true := by
  obtain hsame | ⟨i, ok, w, rfl, hw, rfl, hpin⟩ :=
    step_pinAt x T accountId s a key
  · rwa [hsame]
  · rw [hpin]
    have hread := (hok w hw).hosted hhosted
    rcases nextWrite_good (h i) hw with hsend | ⟨fingerprint, -, haccepted⟩
    · exact hsend.hosted hread
    · rwa [haccepted]

theorem step_epoch (h : ∀ j, CallGood (s.calls j)) (hok : s.Undisturbed a)
    (hkeeps : ¬ AcceptsChanged key s a) :
    (s.pinAt key).bindingEpoch ≤ ((s.step x T accountId a).pinAt key).bindingEpoch := by
  obtain hsame | ⟨i, ok, w, rfl, hw, rfl, hpin⟩ :=
    step_pinAt x T accountId s a key
  · rw [hsame]
  · rw [hpin]
    refine (hok w hw).epoch.trans ?_
    rcases nextWrite_good (h i) hw with hsend | ⟨fingerprint, hcall, haccepted⟩
    · exact hsend.epoch
    · have hsame : (pinOf w.read).replacesOwner fingerprint = false := by
        rw [← Bool.not_eq_true]
        intro hchanged
        apply hkeeps
        simp only [AcceptsChanged, hcall]
        exact ⟨trivial, hchanged⟩
      simp only [haccepted, acceptedPin, hsame, Bool.false_eq_true, if_false, le_refl]

theorem step_flag (h : ∀ j, CallGood (s.calls j)) (hok : s.Undisturbed a)
    (hnone : ¬ AcceptsFlagged key s a) (hflagged : (s.pinAt key).flagged = true) :
    ((s.step x T accountId a).pinAt key).flagged = true := by
  obtain hsame | ⟨i, ok, w, rfl, hw, rfl, hpin⟩ :=
    step_pinAt x T accountId s a key
  · rwa [hsame]
  · rw [hpin]
    have hread := (hok w hw).flagged hflagged
    rcases nextWrite_good (h i) hw with hsend | ⟨fingerprint, hcall, -⟩
    · exact hsend.flagged hread
    · apply absurd _ hnone
      simp only [AcceptsFlagged, hcall]
      exact ⟨trivial, hread⟩

end Kept

/-- The pin of `key` after the steps `after`, beside the pin before them. -/
structure PinKept (x : Crates) (T : CaseTables) (accountId key : String) (s : PinSystem)
    (after : List PinAction) : Prop where
  flagged : Guarded (step x T accountId) (fun s a => ¬ AcceptsFlagged key s a) s after →
    (s.pinAt key).flagged = true → ((exec (step x T accountId) s after).pinAt key).flagged = true
  epoch : Guarded (step x T accountId) (fun s a => ¬ AcceptsChanged key s a) s after →
    (s.pinAt key).bindingEpoch ≤ ((exec (step x T accountId) s after).pinAt key).bindingEpoch
  seen : (s.pinAt key).pqSeen = true →
    ((exec (step x T accountId) s after).pinAt key).pqSeen = true
  hosted : (s.pinAt key).hosted = true →
    ((exec (step x T accountId) s after).pinAt key).hosted = true

theorem callGood_start (pins : Table String RecipientPin) (requests : Nat → Request) (j : Nat) :
    CallGood ((start pins requests).calls j) := by
  simp only [start]
  cases requests j with
  | sealBody internal => exact fun w hw => absurd hw List.not_mem_nil
  | accept address owner confirmed => trivial

/-- **Concurrent sends and acceptances do not undo a pin**, where no write finds a row that was
raised after it was read. -/
theorem undisturbed_writes_keep_pins (x : Crates) (T : CaseTables) (accountId key : String)
    (pins : Table String RecipientPin) (requests : Nat → Request) (before after : List PinAction)
    (hrun : Guarded (step x T accountId) Undisturbed (start pins requests) (before ++ after)) :
    PinKept x T accountId key (exec (step x T accountId) (start pins requests) before) after := by
  obtain ⟨hbefore, hafter⟩ := (guarded_append _ _ _ _ _).1 hrun
  have hgood : ∀ j, CallGood ((exec (step x T accountId) (start pins requests) before).calls j) :=
    exec_invariant (I := fun s => ∀ j, CallGood (s.calls j)) (fun s a h _ => s.step_callGood a h)
      (callGood_start pins requests) hbefore
  generalize exec (step x T accountId) (start pins requests) before = s at hgood hafter
  have hkeep : ∀ s a, (∀ j, CallGood (s.calls j)) → ∀ j, CallGood ((step x T accountId s a).calls j) :=
    fun s a h => s.step_callGood a h
  refine ⟨fun hnone hflagged => ?_, fun hkeeps => ?_, fun hseen => ?_, fun hhosted => ?_⟩
  · exact (exec_invariant
      (I := fun s => (∀ j, CallGood (s.calls j)) ∧ (s.pinAt key).flagged = true)
      (fun s a h hok => ⟨hkeep s a h.1, step_flag h.1 hok.1 hok.2 h.2⟩)
      ⟨hgood, hflagged⟩ (hafter.and hnone)).2
  · exact exec_relation (R := fun s t => (s.pinAt key).bindingEpoch ≤ (t.pinAt key).bindingEpoch)
      (I := fun s => ∀ j, CallGood (s.calls j)) (fun _ => le_rfl) (fun _ _ _ => le_trans)
      (fun s a h _ => hkeep s a h) (fun s a h hok => step_epoch h hok.1 hok.2) hgood
      (hafter.and hkeeps)
  · exact (exec_invariant
      (I := fun s => (∀ j, CallGood (s.calls j)) ∧ (s.pinAt key).pqSeen = true)
      (fun s a h hok => ⟨hkeep s a h.1, step_seen h.1 hok h.2⟩) ⟨hgood, hseen⟩ hafter).2
  · exact (exec_invariant
      (I := fun s => (∀ j, CallGood (s.calls j)) ∧ (s.pinAt key).hosted = true)
      (fun s a h hok => ⟨hkeep s a h.1, step_hosted h.1 hok h.2⟩) ⟨hgood, hhosted⟩ hafter).2

/-! ## The flag that is lost -/

/-- Two account keys and their fingerprints. -/
def twoKeys : Crates where
  base64Decode _ := none
  sha256 _ := Vector.replicate 32 0
  verifyCleartextSignature _ _ := none
  publicKeyFingerprintHex key :=
    if key = "first" then some "c5df" else if key = "second" then some "21ab" else none
  upper c := [c.toUpper]

/-- Everyone writes to one recipient. -/
def toBob (_ : Nat) : Request := .sealBody ["bob@astermail.org"]

/-- The row of the recipient. -/
def bobKey : String := pinId twoKeys .ascii "account" "bob@astermail.org"

/-- One send to a new recipient, from its read to its write. -/
def oneSend : List PinAction := [.route 1 none (some "first") false, .sealed 1 true, .write 1 true]

/-- **Two sends to a new recipient read no pin.** One of them pins the account key; a third send
finds another key and flags the pin. Then the first one writes the pin that it made before. -/
theorem flag_is_undone : ¬ ∀ (x : Crates) (T : CaseTables) (accountId key : String)
    (pins : Table String RecipientPin) (requests : Nat → Request) (before after : List PinAction),
    PinKept x T accountId key (exec (step x T accountId) (start pins requests) before) after := by
  intro h
  have hkept := (h twoKeys .ascii "account" bobKey .empty toBob
    (.route 0 none (some "first") false :: oneSend ++
      [.route 2 none (some "second") false, .write 2 true])
    [.sealed 0 true, .write 0 true]).flagged (by decide +kernel) (by decide +kernel)
  exact absurd hkept (by decide +kernel)

/-- A send after the first one keeps the pin, and flags it. -/
theorem undisturbed_two_sends : PinKept twoKeys .ascii "account" bobKey
    (exec (step twoKeys .ascii "account") (start .empty toBob) oneSend)
    [.route 2 none (some "second") false, .write 2 true] :=
  undisturbed_writes_keep_pins twoKeys .ascii "account" bobKey .empty toBob oneSend
    [.route 2 none (some "second") false, .write 2 true] (by decide +kernel)

end PinSystem

end AsterBridge.Crypto
