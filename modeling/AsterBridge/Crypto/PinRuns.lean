import AsterBridge.Crypto.RecipientTrust
import AsterBridge.Lib.Runs

/-!
# Pins over runs

The evaluations and acceptances of one recipient, one after another. `Exit` says what an
evaluation can do; the invariant `PinGood` and the two orders on pins follow from it.
-/

set_option autoImplicit false

namespace AsterBridge.Crypto

open AsterBridge.Lib AsterBridge.Lib.Text AsterBridge.Lib.Unicode AsterBridge.Lib.Runs

variable {x : Crates} {T : CaseTables}

/-! ## Facts about verified bundles -/

/-- The hexadecimal text of a digest is not empty. -/
theorem hex_ne_empty (digest : Vector UInt8 32) : hex digest.toList ≠ "" := by
  have hlength : digest.toList.length = 32 := digest.length_toList
  cases hlist : digest.toList with
  | nil => simp [hlist] at hlength
  | cons b bytes =>
      intro h
      have hchars := congrArg String.toList h
      simp [hex] at hchars

theorem canonicalNumber_pos {value : List Char} {n : Int} (h : canonicalNumber value = some n) :
    1 ≤ n := by
  unfold canonicalNumber at h
  split at h
  · exact absurd h (by simp)
  · simpa using Option.filter_eq_some_iff.1 h |>.2

/-- A signed binding has a positive epoch and a fingerprint. -/
theorem signedV3_good {bundle : PrekeyBundle} {text : List Char} {signed : SignedBinding}
    (h : signedV3 x bundle text = some signed) : 1 ≤ signed.epoch ∧ signed.fingerprint ≠ "" := by
  obtain ⟨rest, -, hrest⟩ := Option.bind_eq_some_iff.1 h
  split at hrest
  · split at hrest
    · exact absurd hrest (by simp)
    · obtain ⟨version, -, hversion⟩ := Option.bind_eq_some_iff.1 hrest
      obtain ⟨epoch, hepoch, rfl⟩ := Option.map_eq_some_iff.1 hversion
      exact ⟨canonicalNumber_pos hepoch, hex_ne_empty _⟩
  · exact absurd hrest (by simp)

theorem verifyBundle_signed {bundle : PrekeyBundle} {owner : Option String} {covers : Bool}
    {signed : SignedBinding} (h : verifyBundle x bundle owner = .verified covers (some signed)) :
    1 ≤ signed.epoch ∧ signed.fingerprint ≠ "" := by
  unfold verifyBundle at h
  split at h
  · exact absurd h (by simp)
  · split at h
    · exact absurd h (by simp)
    · split at h
      · exact absurd h (by simp)
      · dsimp only at h
        split at h
        · rename_i signed' hsigned
          obtain ⟨-, rfl⟩ : _ ∧ signed' = signed := by simpa using h
          exact signedV3_good hsigned
        · split at h
          · exact absurd h (by simp)
          · split at h <;> exact absurd h (by simp)

/-- A published fingerprint is that of a key. -/
theorem exists_of_keyFingerprint {owner : Option String} {current : String}
    (h : keyFingerprint x owner = some current) :
    ∃ key, x.publicKeyFingerprintHex key = some current := by
  obtain ⟨key, -, hkey⟩ := Option.bind_eq_some_iff.1 h
  exact ⟨key, hkey⟩

/-- What the chosen post-quantum target says about the bundle. -/
structure PqChosen (advertises covers : Bool) (target : Option PqTarget) : Prop where
  covered : covers = true → ∃ pq, target = some pq ∧ pq.signed = true
  advertised : advertises = true → ∃ pq, target = some pq
  signed : ∀ pq, target = some pq → pq.signed = true → advertises = true

theorem choosePqTarget_chosen {covers : Bool} {address : String} {identity : Option Bytes}
    {oneTime : Option (Bytes × Int32)} {target : Option PqTarget}
    (h : choosePqTarget covers address identity oneTime = .ok target) :
    PqChosen identity.isSome covers target := by
  have hsized : ∀ {key}, sized identity = some key → identity.isSome = true := by
    intro key hkey
    rw [(Option.filter_eq_some_iff.1 hkey).1]
    rfl
  unfold choosePqTarget at h
  dsimp only at h
  split at h
  · split at h
    · rename_i hcovers key hkey
      obtain rfl := Except.ok.inj h
      exact ⟨fun _ => ⟨_, rfl, rfl⟩, fun _ => ⟨_, rfl⟩, fun _ _ _ => hsized hkey⟩
    · exact absurd h (by simp)
  · rename_i hcovers
    have hfalse : ∀ pq : PqTarget, covers = true → ∃ q, some pq = some q ∧ q.signed = true :=
      fun _ htrue => absurd htrue hcovers
    split at h
    · obtain rfl := Except.ok.inj h
      exact ⟨hfalse _, fun _ => ⟨_, rfl⟩, by simp⟩
    · obtain rfl := Except.ok.inj h
      exact ⟨hfalse _, fun _ => ⟨_, rfl⟩, by simp⟩
    · split at h
      · exact absurd h (by simp)
      · rename_i hnone
        obtain rfl := Except.ok.inj h
        simp only [Bool.or_eq_true, not_or, Bool.not_eq_true] at hnone
        refine ⟨fun htrue => absurd htrue hcovers, fun htrue => ?_, by simp⟩
        exact absurd (hnone.1.symm.trans htrue) (by simp)

theorem mapM_isSome {ε α β : Type} {f : α → Except ε β} {a : Option α} {b : Option β}
    (h : a.mapM f = .ok b) : b.isSome = a.isSome := by
  cases a with
  | none =>
      obtain rfl : none = b := Except.ok.inj h
      rfl
  | some a =>
      cases hf : f a with
      | error e => simp [hf, Functor.map, Except.map] at h
      | ok v =>
          simp only [Option.mapM_some, hf, Functor.map, Except.map, Except.ok.injEq] at h
          rw [← h]
          rfl

theorem selectPqTarget_chosen {bundle : PrekeyBundle} {covers : Bool} {address : String}
    {target : Option PqTarget} (h : selectPqTarget x bundle covers address = .ok target) :
    PqChosen (advertisedPqIdentityKey bundle).isSome covers target := by
  unfold selectPqTarget at h
  cases hidentity : (advertisedPqIdentityKey bundle).mapM fun key =>
      decodeKey x address key "post-quantum identity key" with
  | error e => simp [hidentity, bind, Except.bind] at h
  | ok identity =>
      rw [hidentity] at h
      simp only [bind, Except.bind] at h
      split at h
      · exact absurd h (by simp)
      · rw [← mapM_isSome hidentity]
        exact choosePqTarget_chosen h

theorem ratchetTarget_chosen {address : String} {bundle : PrekeyBundle} {covers : Bool}
    {target : RatchetTarget} (h : ratchetTarget x address bundle covers = .ok target) :
    PqChosen (advertisedPqIdentityKey bundle).isSome covers target.pqTarget := by
  simp only [ratchetTarget, bind, Except.bind] at h
  split at h
  · exact absurd h (by simp)
  · split at h
    · exact absurd h (by simp)
    · split at h
      · exact absurd h (by simp)
      · rename_i pqTarget hpq
        obtain rfl := Except.ok.inj h
        exact selectPqTarget_chosen hpq

/-! ## The exits of an evaluation -/

/-- The pin of a row. -/
def pinOf (existing : Option RecipientPin) : RecipientPin := existing.getD .default

/-- The row after an evaluation: a returned pin is stored. -/
def Evaluation.store (evaluation : Evaluation) (existing : Option RecipientPin) :
    Option RecipientPin :=
  evaluation.pin.or existing

/-- The signed binding of a verified bundle. -/
def signedBinding (x : Crates) (bundle : Option PrekeyBundle) (owner : Option String) :
    Option SignedBinding :=
  match bundle.map fun bundle => verifyBundle x bundle owner with
  | some (.verified _ signed) => signed
  | _ => none

/-- The pin is not flagged, and the published account key has the fingerprint `current`, which
is the pinned one if there is one. -/
structure Trusted (x : Crates) (base : RecipientPin) (owner : Option String) (current : String) :
    Prop where
  notFlagged : base.flagged = false
  published : keyFingerprint x owner = some current
  pinned : base.ownerFingerprint ≠ "" →
    eqIgnoreAsciiCase base.ownerFingerprint.toList current.toList = true

/-- The bundle may follow the pin: it is neither stale nor a downgrade. -/
structure Follows (base : RecipientPin) (advertises covers : Bool) (signed : Option SignedBinding) :
    Prop where
  current : bindingIsStale base signed = false
  pq : base.pqFingerprint ≠ "" → covers = true
  seen : base.pqSeen = true → advertises = true

/-- What an evaluation can do. -/
inductive Exit (x : Crates) (existing : Option RecipientPin) (bundle : Option PrekeyBundle)
    (owner : Option String) : Evaluation → Prop
  | flagged (error : BridgeError) :
      Exit x existing bundle owner
        ⟨changedPin existing { pinOf existing with flagged := true }, .error error⟩
  | refused (error : BridgeError) : Exit x existing bundle owner ⟨none, .error error⟩
  | ratchet (bundle' : PrekeyBundle) (covers : Bool) (current : String)
      (target : RatchetTarget) (trusted : Trusted x (pinOf existing) owner current)
      (binding : ∀ signed, signedBinding x bundle owner = some signed →
        1 ≤ signed.epoch ∧ signed.fingerprint ≠ "")
      (follows : Follows (pinOf existing) (advertisedPqIdentityKey bundle').isSome covers
        (signedBinding x bundle owner))
      (chosen : PqChosen (advertisedPqIdentityKey bundle').isSome covers target.pqTarget) :
      Exit x existing bundle owner
        ⟨changedPin existing (verifiedPin x (pinOf existing) bundle'
            (signedBinding x bundle owner) current target),
          .ok (.ratchet target)⟩
  | accountKey (current : String) (trusted : Trusted x (pinOf existing) owner current)
      (unbound : signedBinding x bundle owner = none)
      (epoch : ¬ 0 < (pinOf existing).bindingEpoch) (unseen : (pinOf existing).pqSeen = false) :
      Exit x existing bundle owner
        ⟨changedPin existing { pinOf existing with ownerFingerprint := current }, .ok .accountKey⟩

theorem evaluateVerified_exit {existing : Option RecipientPin} {bundle : PrekeyBundle}
    {owner : Option String} {covers : Bool} {signed : Option SignedBinding} {current : String}
    (address : String) (trusted : Trusted x (pinOf existing) owner current)
    (hverdict : verifyBundle x bundle owner = .verified covers signed) :
    Exit x existing (some bundle) owner
      (evaluateVerified x address bundle covers signed current existing) := by
  have hsigned : signedBinding x (some bundle) owner = signed := by
    simp only [signedBinding, Option.map_some, hverdict]
  unfold evaluateVerified
  dsimp only
  split
  · apply Exit.refused
  · rename_i hstale
    split
    · apply Exit.refused
    · rename_i hdown
      split
      · apply Exit.refused
      · rename_i target htarget
        have follows : Follows (pinOf existing) (advertisedPqIdentityKey bundle).isSome covers
            (signedBinding x (some bundle) owner) := by
          rw [hsigned]
          simp only [Bool.or_eq_true, Bool.and_eq_true, Bool.not_eq_true', not_or, not_and,
            Bool.not_eq_false] at hdown
          refine ⟨eq_false_of_ne_true hstale, fun hpq => hdown.1 ?_, hdown.2⟩
          simpa [pinOf] using hpq
        have htargetChosen := ratchetTarget_chosen htarget
        have chosen : PqChosen (advertisedPqIdentityKey bundle).isSome covers
            (boundTarget (pinOf existing) signed target).pqTarget := htargetChosen
        rw [← hsigned] at chosen ⊢
        refine Exit.ratchet bundle covers current _ trusted (fun signed' hsome => ?_) follows chosen
        rw [hsigned] at hsome
        exact verifyBundle_signed (hsome ▸ hverdict)

theorem evaluateUnverified_exit {existing : Option RecipientPin} {bundle : Option PrekeyBundle}
    {owner : Option String} {current : String} (address : String)
    (trusted : Trusted x (pinOf existing) owner current)
    (hunbound : signedBinding x bundle owner = none) :
    Exit x existing bundle owner (evaluateUnverified address current existing) := by
  unfold evaluateUnverified
  dsimp only
  split
  · apply Exit.refused
  · rename_i hepoch
    split
    · apply Exit.refused
    · rename_i hseen
      exact Exit.accountKey current trusted hunbound hepoch (eq_false_of_ne_true hseen)

/-- **Every evaluation leaves through one of the exits.** -/
theorem evaluateRecipient_exit (x : Crates) (T : CaseTables) (address : String)
    (bundle : Option PrekeyBundle) (owner : Option String) (existing : Option RecipientPin) :
    Exit x existing bundle owner (evaluateRecipient x T address bundle owner existing) := by
  unfold evaluateRecipient
  dsimp only
  split
  · apply Exit.flagged
  · rename_i hok
    simp only [not_or, Bool.not_eq_true] at hok
    obtain ⟨-, howner, hflagged⟩ := hok
    split
    · apply Exit.refused
    · rename_i current hcurrent
      have trusted : Trusted x (pinOf existing) owner current := by
        refine ⟨hflagged, hcurrent, fun hpinned => ?_⟩
        have hsome : owner.isSome = true := by
          cases owner with
          | none => exact absurd hcurrent (by simp [keyFingerprint])
          | some key => rfl
        simp only [ownerChanged, hsome, hcurrent, Bool.true_and, Option.any_some,
          Bool.and_eq_false_iff, Bool.not_eq_false', String.isEmpty_iff] at howner
        exact howner.resolve_left hpinned
      split
      · rename_i bundle' covers signed hverdict
        refine evaluateVerified_exit address trusted ?_
        simpa using hverdict
      · rename_i hother
        refine evaluateUnverified_exit address trusted ?_
        unfold signedBinding
        split
        · rename_i covers signed hverdict
          obtain ⟨bundle', rfl, -⟩ := Option.map_eq_some_iff.1 hverdict
          exact absurd hverdict (hother bundle' covers signed rfl)
        · rfl

/-! ## What a step keeps -/

/-- What every stored pin satisfies: a signed epoch comes with its binding, a pinned
post-quantum key was seen, and the owner fingerprint is that of a key. -/
structure PinGood (x : Crates) (p : RecipientPin) : Prop where
  binding : 0 < p.bindingEpoch → p.bindingFingerprint ≠ ""
  pq : p.pqFingerprint ≠ "" → p.pqSeen = true
  owner : p.ownerFingerprint ≠ "" → ∃ key, x.publicKeyFingerprintHex key = some p.ownerFingerprint

theorem pinGood_default (x : Crates) : PinGood x .default := by
  refine ⟨fun h => ?_, fun h => absurd rfl h, fun h => absurd rfl h⟩
  exact absurd h (by decide)

/-- The post-quantum facts of `p` hold of `q` too. -/
structure Protects (p q : RecipientPin) : Prop where
  seen : p.pqSeen = true → q.pqSeen = true
  pq : p.pqFingerprint ≠ "" → q.pqFingerprint ≠ ""

/-- The binding of `q` is that of `p` or a later one. -/
structure Advances (p q : RecipientPin) : Prop where
  epoch : p.bindingEpoch ≤ q.bindingEpoch
  binding : p.bindingEpoch = q.bindingEpoch → 0 < p.bindingEpoch →
    p.bindingFingerprint = q.bindingFingerprint

theorem Protects.refl (p : RecipientPin) : Protects p p := ⟨id, id⟩

theorem Protects.trans {p q r : RecipientPin} (h : Protects p q) (h' : Protects q r) :
    Protects p r :=
  ⟨fun hp => h'.seen (h.seen hp), fun hp => h'.pq (h.pq hp)⟩

theorem Advances.refl (p : RecipientPin) : Advances p p := ⟨le_rfl, fun _ _ => rfl⟩

theorem Advances.trans {p q r : RecipientPin} (h : Advances p q) (h' : Advances q r) :
    Advances p r := by
  refine ⟨h.epoch.trans h'.epoch, fun heq hpos => ?_⟩
  have hpq : p.bindingEpoch = q.bindingEpoch := le_antisymm h.epoch (heq ▸ h'.epoch)
  exact (h.binding hpq hpos).trans (h'.binding (hpq ▸ heq) (hpq ▸ hpos))

theorem store_changedPin (existing : Option RecipientPin) (pin : RecipientPin)
    (outcome : Except BridgeError SendRoute) :
    Evaluation.store ⟨changedPin existing pin, outcome⟩ existing = some pin := by
  unfold changedPin Evaluation.store
  split
  · rename_i h
    exact h
  · rfl

@[simp] theorem pinOf_some (p : RecipientPin) : pinOf (some p) = p := rfl

/-- A binding that is not stale has no smaller epoch. -/
theorem Follows.epoch_le {base : RecipientPin} {advertises covers : Bool}
    {signed : Option SignedBinding} (h : Follows base advertises covers signed) :
    base.bindingEpoch ≤ (signed.map SignedBinding.epoch).getD base.bindingEpoch := by
  have hcurrent := h.current
  cases signed with
  | none => exact le_rfl
  | some signed =>
      simp only [bindingIsStale, Bool.or_eq_false_iff, decide_eq_false_iff_not, not_lt] at hcurrent
      exact hcurrent.1

/-- A binding that is not stale stands in front of the pinned one. -/
theorem Follows.advances {base : RecipientPin} {advertises covers : Bool}
    {signed : Option SignedBinding} (h : Follows base advertises covers signed)
    (hgood : PinGood x base) {pin : RecipientPin}
    (hepoch : pin.bindingEpoch = (signed.map SignedBinding.epoch).getD base.bindingEpoch)
    (hbinding : pin.bindingFingerprint =
      (signed.map SignedBinding.fingerprint).getD base.bindingFingerprint) :
    Advances base pin := by
  refine ⟨hepoch ▸ h.epoch_le, fun heq hpos => ?_⟩
  have hcurrent := h.current
  cases signed with
  | none => exact hbinding.symm
  | some signed =>
      simp only [bindingIsStale, Bool.or_eq_false_iff, Bool.and_eq_false_iff,
        beq_eq_false_iff_ne, Bool.not_eq_false', String.isEmpty_iff,
        bne_eq_false_iff_eq] at hcurrent
      simp only [Option.map_some, Option.getD_some] at hepoch hbinding
      rw [hbinding]
      rcases hcurrent.2 with (hne | hempty) | hsame
      · exact absurd (heq.trans hepoch).symm hne
      · exact absurd hempty (hgood.binding hpos)
      · exact hsame.symm

section Exits

variable {existing : Option RecipientPin} {bundle : Option PrekeyBundle} {owner : Option String}
  {e : Evaluation}

theorem Exit.good (h : Exit x existing bundle owner e) (hgood : PinGood x (pinOf existing)) :
    PinGood x (pinOf (e.store existing)) := by
  cases h with
  | flagged error =>
      rw [store_changedPin]
      exact ⟨hgood.binding, hgood.pq, hgood.owner⟩
  | refused error => exact hgood
  | ratchet bundle' covers current target trusted binding follows chosen =>
      rw [store_changedPin]
      refine ⟨fun hpos => ?_, fun hpq => ?_, fun _ => exists_of_keyFingerprint trusted.published⟩
      · simp only [pinOf_some, verifiedPin] at hpos ⊢
        cases hsigned : signedBinding x bundle owner with
        | none =>
            rw [hsigned] at hpos
            exact hgood.binding hpos
        | some signed => exact (binding signed hsigned).2
      · simp only [pinOf_some, verifiedPin] at hpq ⊢
        cases htarget : target.pqTarget.filter PqTarget.signed with
        | none =>
            rw [htarget] at hpq
            exact absurd rfl hpq
        | some pq =>
            obtain ⟨hsome, hsigned⟩ := Option.filter_eq_some_iff.1 htarget
            rw [chosen.signed pq hsome hsigned, Bool.or_true]
  | accountKey current trusted unbound epoch unseen =>
      rw [store_changedPin]
      exact ⟨hgood.binding, hgood.pq, fun _ => exists_of_keyFingerprint trusted.published⟩

theorem Exit.protects (h : Exit x existing bundle owner e) :
    Protects (pinOf existing) (pinOf (e.store existing)) := by
  cases h with
  | flagged error =>
      rw [store_changedPin]
      exact ⟨id, id⟩
  | refused error => exact .refl _
  | ratchet bundle' covers current target trusted binding follows chosen =>
      rw [store_changedPin]
      refine ⟨fun hseen => ?_, fun hpq => ?_⟩
      · simp only [pinOf_some, verifiedPin, hseen, Bool.true_or]
      · obtain ⟨pq, htarget, hsigned⟩ := chosen.covered (follows.pq hpq)
        simp only [pinOf_some, verifiedPin, htarget, Option.filter_some, hsigned, if_true,
          Option.map_some, Option.getD_some]
        exact hex_ne_empty _
  | accountKey current trusted unbound epoch unseen =>
      rw [store_changedPin]
      exact ⟨id, id⟩

theorem Exit.advances (h : Exit x existing bundle owner e) (hgood : PinGood x (pinOf existing)) :
    Advances (pinOf existing) (pinOf (e.store existing)) := by
  cases h with
  | flagged error =>
      rw [store_changedPin]
      exact ⟨le_rfl, fun _ _ => rfl⟩
  | refused error => exact .refl _
  | ratchet bundle' covers current target trusted binding follows chosen =>
      rw [store_changedPin]
      apply follows.advances hgood
      · rfl
      · rfl
  | accountKey current trusted unbound epoch unseen =>
      rw [store_changedPin]
      exact ⟨le_rfl, fun _ _ => rfl⟩

/-- A successful evaluation trusts the published account key. -/
theorem Exit.trusted (h : Exit x existing bundle owner e) {route : SendRoute}
    (hok : e.outcome = .ok route) : ∃ current, Trusted x (pinOf existing) owner current := by
  cases h with
  | flagged error => exact absurd hok (by simp)
  | refused error => exact absurd hok (by simp)
  | ratchet bundle' covers current target trusted binding follows chosen => exact ⟨current, trusted⟩
  | accountKey current trusted unbound epoch unseen => exact ⟨current, trusted⟩

/-- After a post-quantum key was seen, a successful evaluation has a post-quantum target. -/
theorem Exit.seen (h : Exit x existing bundle owner e) {route : SendRoute}
    (hok : e.outcome = .ok route) (hseen : (pinOf existing).pqSeen = true) :
    ∃ target pq, route = .ratchet target ∧ target.pqTarget = some pq := by
  cases h with
  | flagged error => exact absurd hok (by simp)
  | refused error => exact absurd hok (by simp)
  | ratchet bundle' covers current target trusted binding follows chosen =>
      obtain ⟨pq, htarget⟩ := chosen.advertised (follows.seen hseen)
      exact ⟨target, pq, (Except.ok.inj hok).symm, htarget⟩
  | accountKey current trusted unbound epoch unseen => exact absurd (unseen ▸ hseen) (by simp)

/-- After a signed post-quantum key was pinned, the target is a signed one. -/
theorem Exit.pinned (h : Exit x existing bundle owner e) {route : SendRoute}
    (hok : e.outcome = .ok route) (hgood : PinGood x (pinOf existing))
    (hpq : (pinOf existing).pqFingerprint ≠ "") :
    ∃ target pq, route = .ratchet target ∧ target.pqTarget = some pq ∧ pq.signed = true := by
  cases h with
  | flagged error => exact absurd hok (by simp)
  | refused error => exact absurd hok (by simp)
  | ratchet bundle' covers current target trusted binding follows chosen =>
      obtain ⟨pq, htarget, hsigned⟩ := chosen.covered (follows.pq hpq)
      exact ⟨target, pq, (Except.ok.inj hok).symm, htarget, hsigned⟩
  | accountKey current trusted unbound epoch unseen =>
      exact absurd (unseen ▸ hgood.pq hpq) (by simp)

/-- A successful evaluation has a binding if an epoch is pinned, and the row has that binding
afterwards. -/
theorem Exit.bound (h : Exit x existing bundle owner e) {route : SendRoute}
    (hok : e.outcome = .ok route) :
    match signedBinding x bundle owner with
    | none => (pinOf existing).bindingEpoch ≤ 0
    | some signed => (pinOf (e.store existing)).bindingEpoch = signed.epoch ∧
        (pinOf (e.store existing)).bindingFingerprint = signed.fingerprint := by
  cases h with
  | flagged error => exact absurd hok (by simp)
  | refused error => exact absurd hok (by simp)
  | ratchet bundle' covers current target trusted binding follows chosen =>
      rw [store_changedPin]
      have hcurrent := follows.current
      cases hsigned : signedBinding x bundle owner with
      | none => simpa [hsigned, bindingIsStale] using hcurrent
      | some signed => exact ⟨rfl, rfl⟩
  | accountKey current trusted unbound epoch unseen =>
      rw [unbound]
      exact not_lt.1 epoch

/-- A refusal changes at most the flag. -/
theorem Exit.refusal (h : Exit x existing bundle owner e) {error : BridgeError}
    (herror : e.outcome = .error error) :
    e.store existing = existing ∨
      e.store existing = some { pinOf existing with flagged := true } := by
  cases h with
  | flagged error => exact Or.inr (store_changedPin _ _ _)
  | refused error => exact Or.inl rfl
  | ratchet bundle' covers current target trusted binding follows chosen =>
      exact absurd herror (by simp)
  | accountKey current trusted unbound epoch unseen => exact absurd herror (by simp)

end Exits

/-! ## Runs -/

/-- A call about the recipient. -/
inductive Action where
  | evaluate (address : String) (bundle : Option PrekeyBundle) (owner : Option String)
  | accept (owner : Option String) (confirmed : String)

/-- The row after a call. -/
def step (x : Crates) (T : CaseTables) (row : Option RecipientPin) : Action → Option RecipientPin
  | .evaluate address bundle owner => (evaluateRecipient x T address bundle owner row).store row
  | .accept owner confirmed => (acceptRecipientKey x T owner confirmed row).2

/-- The fingerprint that a call accepts. -/
def Action.accepted (x : Crates) (T : CaseTables) : Action → Option String
  | .evaluate _ _ _ => none
  | .accept owner confirmed => confirmedFingerprint x T owner confirmed

/-- The call accepts no key. -/
def NoAcceptance (x : Crates) (T : CaseTables) (_ : Option RecipientPin) (a : Action) : Prop :=
  a.accepted x T = none

/-- The call accepts no key other than the pinned one. -/
def KeepsOwner (x : Crates) (T : CaseTables) (row : Option RecipientPin) (a : Action) : Prop :=
  ∀ fingerprint, a.accepted x T = some fingerprint →
    (pinOf row).replacesOwner fingerprint = false

theorem step_accept (row : Option RecipientPin) (owner : Option String) (confirmed : String) :
    (step x T row (.accept owner confirmed) = row ∧
        confirmedFingerprint x T owner confirmed = none) ∨
      ∃ current, confirmedFingerprint x T owner confirmed = some current ∧
        keyFingerprint x owner = some current ∧
        step x T row (.accept owner confirmed) = some (acceptedPin (pinOf row) current) := by
  simp only [step, acceptRecipientKey]
  cases h : confirmedFingerprint x T owner confirmed with
  | none => exact Or.inl ⟨rfl, rfl⟩
  | some current => exact Or.inr ⟨current, rfl, (Option.filter_eq_some_iff.1 h).1, rfl⟩

theorem acceptedPin_good {p : RecipientPin} {current : String} (h : PinGood x p)
    (hkey : ∃ key, x.publicKeyFingerprintHex key = some current) :
    PinGood x (acceptedPin p current) := by
  refine ⟨fun hpos => ?_, h.pq, fun _ => hkey⟩
  simp only [acceptedPin] at hpos ⊢
  split at hpos
  · exact absurd hpos (lt_irrefl 0)
  · rename_i hsame
    rw [if_neg hsame]
    exact h.binding hpos

theorem step_good (row : Option RecipientPin) (a : Action) (h : PinGood x (pinOf row)) :
    PinGood x (pinOf (step x T row a)) := by
  cases a with
  | evaluate address bundle owner => exact (evaluateRecipient_exit x T address bundle owner row).good h
  | accept owner confirmed =>
      obtain ⟨hrow, -⟩ | ⟨current, -, hkey, hrow⟩ := step_accept row owner confirmed
      · rwa [hrow]
      · rw [hrow]
        exact acceptedPin_good h (exists_of_keyFingerprint hkey)

/-- No call takes the post-quantum facts back, an acceptance included. -/
theorem step_protects (row : Option RecipientPin) (a : Action) :
    Protects (pinOf row) (pinOf (step x T row a)) := by
  cases a with
  | evaluate address bundle owner =>
      exact (evaluateRecipient_exit x T address bundle owner row).protects
  | accept owner confirmed =>
      obtain ⟨hrow, -⟩ | ⟨current, -, -, hrow⟩ := step_accept row owner confirmed
      · rw [hrow]
        exact .refl _
      · rw [hrow]
        exact ⟨id, id⟩

/-- Only the acceptance of another account key takes the binding back. -/
theorem step_advances (row : Option RecipientPin) (a : Action) (h : PinGood x (pinOf row))
    (hkeeps : KeepsOwner x T row a) : Advances (pinOf row) (pinOf (step x T row a)) := by
  cases a with
  | evaluate address bundle owner =>
      exact (evaluateRecipient_exit x T address bundle owner row).advances h
  | accept owner confirmed =>
      obtain ⟨hrow, -⟩ | ⟨current, haccepted, -, hrow⟩ := step_accept row owner confirmed
      · rw [hrow]
        exact .refl _
      · have hsame := hkeeps current haccepted
        rw [hrow]
        simp only [pinOf_some, acceptedPin, hsame, Bool.false_eq_true, if_false]
        exact ⟨le_rfl, fun _ _ => rfl⟩

/-- Only an acceptance takes the flag back. -/
theorem step_flagged (row : Option RecipientPin) (a : Action) (h : (pinOf row).flagged = true)
    (hnone : NoAcceptance x T row a) : (pinOf (step x T row a)).flagged = true := by
  cases a with
  | evaluate address bundle owner =>
      have hexit := evaluateRecipient_exit x T address bundle owner row
      cases houtcome : (evaluateRecipient x T address bundle owner row).outcome with
      | ok route =>
          obtain ⟨current, htrusted⟩ := hexit.trusted houtcome
          exact absurd (htrusted.notFlagged ▸ h) (by simp)
      | error e =>
          simp only [step]
          rcases hexit.refusal houtcome with hsame | hflag
          · rwa [hsame]
          · rw [hflag]
            rfl
  | accept owner confirmed =>
      obtain ⟨hrow, -⟩ | ⟨current, haccepted, -⟩ := step_accept row owner confirmed
      · rwa [hrow]
      · exact absurd (hnone.symm.trans haccepted) (by simp)

/-- What a row `s`, the calls `after` it, and the row `t` after these say about every further
evaluation. -/
structure NeverWeakens (x : Crates) (T : CaseTables) (s t : Option RecipientPin)
    (after : List Action) : Prop where
  flagged : Guarded (step x T) (NoAcceptance x T) s after → (pinOf s).flagged = true →
    ∀ address bundle owner, ∃ error,
      (evaluateRecipient x T address bundle owner t).outcome = .error error
  owner : ∀ address bundle owner route,
    (evaluateRecipient x T address bundle owner t).outcome = .ok route →
    ∃ key current, owner = some key ∧ x.publicKeyFingerprintHex key = some current ∧
      ((pinOf t).ownerFingerprint ≠ "" →
        eqIgnoreAsciiCase (pinOf t).ownerFingerprint.toList current.toList = true ∧
        -- where two fingerprints never differ in case alone
        ((∀ k k' f f', x.publicKeyFingerprintHex k = some f →
            x.publicKeyFingerprintHex k' = some f' →
            eqIgnoreAsciiCase f.toList f'.toList = true → f = f') →
          current = (pinOf t).ownerFingerprint))
  pinned : (pinOf s).pqFingerprint ≠ "" → ∀ address bundle owner route,
    (evaluateRecipient x T address bundle owner t).outcome = .ok route →
    ∃ target pq, route = .ratchet target ∧ target.pqTarget = some pq ∧ pq.signed = true
  seen : (pinOf s).pqSeen = true → ∀ address bundle owner route,
    (evaluateRecipient x T address bundle owner t).outcome = .ok route →
    ∃ target pq, route = .ratchet target ∧ target.pqTarget = some pq
  epoch : Guarded (step x T) (KeepsOwner x T) s after →
    (pinOf s).bindingEpoch ≤ (pinOf t).bindingEpoch
  binding : Guarded (step x T) (KeepsOwner x T) s after → ∀ address bundle owner route,
    (evaluateRecipient x T address bundle owner t).outcome = .ok route →
    match signedBinding x bundle owner with
    | none => (pinOf s).bindingEpoch ≤ 0
    | some signed => (pinOf s).bindingEpoch ≤ signed.epoch ∧
        ((pinOf s).bindingEpoch = signed.epoch →
          (pinOf s).bindingFingerprint = signed.fingerprint)
  refused : ∀ address bundle owner error,
    (evaluateRecipient x T address bundle owner t).outcome = .error error →
    (evaluateRecipient x T address bundle owner t).store t = t ∨
      (evaluateRecipient x T address bundle owner t).store t =
        some { pinOf t with flagged := true }

theorem signedBinding_good {bundle : Option PrekeyBundle} {owner : Option String}
    {signed : SignedBinding} (h : signedBinding x bundle owner = some signed) :
    1 ≤ signed.epoch := by
  unfold signedBinding at h
  split at h
  · rename_i covers signed' hverdict
    obtain ⟨bundle', -, hverified⟩ := Option.map_eq_some_iff.1 hverdict
    obtain rfl : signed' = some signed := h
    exact (verifyBundle_signed hverified).1
  · exact absurd h (by simp)

end AsterBridge.Crypto
