import AsterBridge.Ports.Config

/-!
# The plan of the ports

`pick_startup_port`, `pick_available_port` and `pick_free_port_avoiding` of `port_picker.rs`,
`plan_ports` and `BoundPorts::apply_to_config` of `runtime.rs`. The other programs of the
computer decide what each attempt gives. A startup pick knows no other port: when its own port
is taken between the probe and the bind it moves, also onto a port of another service.
-/

set_option autoImplicit false

namespace AsterBridge.Ports

/-! ## Attempts -/

/-- `Occupant` -/
inductive Occupant where
  | free
  | asterBridge
  | unidentified
  | unreachable
deriving DecidableEq

/-- What `TcpListener::bind` gives: a listener, `AddrInUse`, or another error with its text. -/
inductive BindOutcome where
  | bound
  | addrInUse
  | failed (text : String)
deriving DecidableEq

/-- The outcomes of all attempts on the loopback host: of a probe and of a bind, by the number
of the attempt and the port. -/
structure Network where
  probe : Nat → Port → Occupant
  bind : Nat → Port → BindOutcome

/-- A port or a message, and the number of the next attempt. -/
abbrev Pick (α : Type) := Except String α × Nat

/-! ## Pickers -/

/-- `MAX_PROBE_STEPS` -/
def maxProbeSteps : Nat := 20

/-- `OCCUPANT_RECHECKS` -/
def occupantRechecks : Nat := 3

/-- `MAX_ALTERNATE_ROUNDS` -/
def maxAlternateRounds : Nat := 10

/-- The loop of `pick_available_port` over the offsets that are left. -/
def pickAvailableFrom (net : Network) (preferred : Port) : List Nat → Nat → Pick Port
  | [], t =>
      (.error ("no free port within " ++ toString maxProbeSteps ++ " of " ++
        toString preferred.val), t)
  | offset :: rest, t =>
      match checkedAdd preferred offset with
      | some candidate =>
          if 1024 ≤ candidate.val then
            match net.bind t candidate with
            | .bound => (.ok candidate, t + 1)
            | .addrInUse => pickAvailableFrom net preferred rest (t + 1)
            | .failed text =>
                (.error ("bind probe failed on 127.0.0.1:" ++ toString candidate.val ++ ": " ++
                  text), t + 1)
          else pickAvailableFrom net preferred rest t
      | none => pickAvailableFrom net preferred rest t

/-- `pick_available_port` on the loopback host. -/
def pickAvailablePort (net : Network) (preferred : Port) (t : Nat) : Pick Port :=
  pickAvailableFrom net preferred (List.range (maxProbeSteps + 1)) t

/-- The message of `pick_startup_port_for`. -/
def pickStartupPortFor (preferred : Port) : Occupant → String
  | .asterBridge => "Port " ++ toString preferred.val ++
      " is already in use by another copy of Aster Bridge. Quit the other copy, then start " ++
      "Aster Bridge again."
  | _ => "Port " ++ toString preferred.val ++
      " is already in use by another program. Quit that program, or choose a different port " ++
      "in Settings, then start Aster Bridge again."

/-- The rechecks of `pick_startup_port`. -/
def recheck (net : Network) (preferred : Port) : Nat → Nat → Pick Port
  | 0, t => (.error (pickStartupPortFor preferred .unreachable), t)
  | rounds + 1, t =>
      match net.probe t preferred with
      | .free => pickAvailablePort net preferred (t + 1)
      | .unreachable => recheck net preferred rounds (t + 1)
      | other => (.error (pickStartupPortFor preferred other), t + 1)

/-- `pick_startup_port` -/
def pickStartupPort (net : Network) (preferred : Port) (t : Nat) : Pick Port :=
  match net.probe t preferred with
  | .free => pickAvailablePort net preferred (t + 1)
  | .unreachable => recheck net preferred occupantRechecks (t + 1)
  | other => (.error (pickStartupPortFor preferred other), t + 1)

/-- The loop of `pick_free_port_avoiding`. -/
def pickFreeRounds (net : Network) (preferred : Port) (avoid : List Port) :
    Nat → Port → Nat → Pick Port
  | 0, _, t => (.error ("no free port near " ++ toString preferred.val), t)
  | rounds + 1, start, t =>
      match pickAvailablePort net start t with
      | (.error e, t) => (.error e, t)
      | (.ok candidate, t) =>
          if candidate ∈ avoid then
            match checkedAdd candidate 1 with
            | some next => pickFreeRounds net preferred avoid rounds next t
            | none => (.error ("no free port above " ++ toString preferred.val), t)
          else (.ok candidate, t)

/-- `pick_free_port_avoiding` -/
def pickFreePortAvoiding (net : Network) (preferred : Port) (avoid : List Port) (t : Nat) :
    Pick Port :=
  pickFreeRounds net preferred avoid maxAlternateRounds preferred t

/-! ## The plan -/

/-- `BoundPorts`; 0 for a service that does not listen. -/
structure BoundPorts where
  imap : Port
  smtp : Port
  jmap : Port
  carddav : Port
  imaps : Port
  smtps : Port
  pop3 : Port
  pop3s : Port
deriving DecidableEq

/-- The port that a service listens on. -/
def BoundPorts.port (b : BoundPorts) : Service → Port
  | .imap => b.imap
  | .imaps => b.imaps
  | .smtp => b.smtp
  | .smtps => b.smtps
  | .jmap => b.jmap
  | .pop3 => b.pop3
  | .pop3s => b.pop3s
  | .carddav => b.carddav

/-- `update` of `apply_to_config`, and whether it changed the slot. -/
def updateSlot (slot value : Port) : Port × Bool :=
  if value ≠ 0 ∧ slot ≠ value then (value, true) else (slot, false)

/-- `BoundPorts::apply_to_config` -/
def BoundPorts.applyToConfig (b : BoundPorts) (c : BridgeConfig) : BridgeConfig × Bool :=
  let (imapPort, imapDirty) := updateSlot c.imapPort b.imap
  let (smtpPort, smtpDirty) := updateSlot c.smtpPort b.smtp
  let (jmapPort, jmapDirty) := updateSlot c.jmapPort b.jmap
  let (carddavPort, carddavDirty) := updateSlot c.carddavPort b.carddav
  ({ c with imapPort, smtpPort, jmapPort, carddavPort },
    imapDirty || smtpDirty || jmapDirty || carddavDirty)

/-- `StartError::PortUnavailable` -/
structure StartError where
  service : Service
  port : Port
  message : String
  heldByBridge : Bool

/-- `port_error` -/
def portError {α : Type} (net : Network) (service : Service) (port : Port) (message : String)
    (t : Nat) : Except StartError α × Nat :=
  (.error ⟨service, port, message, net.probe t port == .asterBridge⟩, t + 1)

/-- `PortPlan` -/
structure PortPlan where
  ports : BoundPorts
  jmapEnabled : Bool
  carddavEnabled : Bool

/-- `pick_free` of `plan_ports`; `chosen` is what it has taken so far. -/
def pickFree (net : Network) (c : BridgeConfig) (chosen : List Port) (preferred : Port) (t : Nat) :
    Pick Port :=
  let configured := [c.imapPort, c.smtpPort, c.imapImplicitTlsPort, c.smtpImplicitTlsPort,
    c.jmapPort, c.pop3Port, c.pop3sPort, c.carddavPort]
  pickFreePortAvoiding net preferred (configured.filter (· ≠ preferred) ++ chosen) t

/-- A pick that is made only for a service that is on. -/
def pickWhen (enabled : Bool) (pick : Nat → Pick Port) (t : Nat) : Pick (Option Port) :=
  if enabled then ((pick t).1.map some, (pick t).2) else (.ok none, t)

/-- A failed pick switches the listener off. -/
def orOff : Pick (Option Port) → Option Port × Nat
  | (.ok picked, t) => (picked, t)
  | (.error _, t) => (none, t)

/-- `plan_ports`, starting with the attempt `t`. -/
def planPorts (net : Network) (c : BridgeConfig) (tls : Bool) (t : Nat) :
    Except StartError PortPlan × Nat :=
  match pickStartupPort net c.imapPort t with
  | (.error e, t) => portError net .imap c.imapPort e t
  | (.ok imap, t) =>
  match pickStartupPort net c.smtpPort t with
  | (.error e, t) => portError net .smtp c.smtpPort e t
  | (.ok smtp, t) =>
  match pickWhen c.jmapEnabled (pickFree net c [imap, smtp] c.jmapPort) t with
  | (.error e, t) => portError net .jmap c.jmapPort e t
  | (.ok jmap, t) =>
  match orOff (pickWhen c.carddavEnabled
    (pickFree net c ([imap, smtp] ++ jmap.toList) c.carddavPort) t) with
  | (carddav, t) =>
  match orOff (pickWhen tls (pickStartupPort net c.imapImplicitTlsPort) t) with
  | (imaps, t) =>
  match orOff (pickWhen tls (pickStartupPort net c.smtpImplicitTlsPort) t) with
  | (smtps, t) =>
  match orOff (pickWhen true
    (pickFree net c ([imap, smtp] ++ jmap.toList ++ carddav.toList) c.pop3Port) t) with
  | (pop3, t) =>
  match orOff (pickWhen tls (pickFree net c
    ([imap, smtp] ++ jmap.toList ++ carddav.toList ++ pop3.toList) c.pop3sPort) t) with
  | (pop3s, t) =>
    let ports : BoundPorts :=
      { imap, smtp, jmap := jmap.getD 0, carddav := carddav.getD 0, imaps := imaps.getD 0,
        smtps := smtps.getD 0, pop3 := pop3.getD 0, pop3s := pop3s.getD 0 }
    (.ok ⟨ports, c.jmapEnabled, c.carddavEnabled && ports.carddav != 0⟩, t)

/-- The services whose port `pick_startup_port` picks. -/
def startupServices : List Service := [.imap, .smtp, .imaps, .smtps]

/-- The services whose port `pick_free` picks, in its order. -/
def freeServices : List Service := [.jmap, .carddav, .pop3, .pop3s]

/-! ## What a pick gives -/

section Picks

variable {net : Network} {c : BridgeConfig} {preferred p : Port} {t t' : Nat}

/-- Between the attempts `t` and `t'` the port was bound. -/
structure Took (net : Network) (t t' : Nat) (p : Port) : Prop where
  valid : 1024 ≤ p.val
  bound : ∃ u, t ≤ u ∧ u < t' ∧ net.bind u p = .bound

theorem Took.mono {u u' : Nat} (h : Took net t t' p) (hstart : u ≤ t) (hend : t' ≤ u') :
    Took net u u' p := by
  obtain ⟨v, hv, hv', hbound⟩ := h.bound
  exact ⟨h.valid, v, hstart.trans hv, lt_of_lt_of_le hv' hend, hbound⟩

/-- A pick that goes on in time and gives a port that it has bound. -/
def Honest (net : Network) (pick : Nat → Pick Port) : Prop :=
  ∀ t, t ≤ (pick t).2 ∧ ∀ p, (pick t).1 = .ok p → Took net t (pick t).2 p

theorem honest_pickAvailableFrom (preferred : Port) (offsets : List Nat) :
    Honest net (pickAvailableFrom net preferred offsets) := by
  induction offsets with
  | nil => exact fun t => ⟨le_rfl, fun p hp => nomatch hp⟩
  | cons offset rest ih =>
    intro t
    rw [pickAvailableFrom]
    split
    case h_2 => exact ih t
    case h_1 candidate _ =>
      split
      case isFalse => exact ih t
      case isTrue hvalid =>
        cases hbind : net.bind t candidate with
        | failed text => exact ⟨Nat.le_succ t, fun p hp => nomatch hp⟩
        | bound =>
          refine ⟨Nat.le_succ t, fun p hp => ?_⟩
          obtain rfl : candidate = p := Except.ok.inj hp
          exact ⟨hvalid, t, le_rfl, Nat.lt_succ_self t, hbind⟩
        | addrInUse =>
          obtain ⟨hle, htook⟩ := ih (t + 1)
          exact ⟨(Nat.le_succ t).trans hle, fun p hp => (htook p hp).mono (Nat.le_succ t) le_rfl⟩

theorem honest_pickAvailablePort (preferred : Port) :
    Honest net (pickAvailablePort net preferred) :=
  honest_pickAvailableFrom preferred _

/-- An attempt before an honest pick leaves it honest. -/
theorem Honest.later {pick : Nat → Pick Port} (h : Honest net pick) (t : Nat) :
    t ≤ (pick (t + 1)).2 ∧ ∀ p, (pick (t + 1)).1 = .ok p → Took net t (pick (t + 1)).2 p := by
  obtain ⟨hle, htook⟩ := h (t + 1)
  exact ⟨(Nat.le_succ t).trans hle, fun p hp => (htook p hp).mono (Nat.le_succ t) le_rfl⟩

theorem honest_recheck (preferred : Port) (rounds : Nat) :
    Honest net (recheck net preferred rounds) := by
  induction rounds with
  | zero => exact fun t => ⟨le_rfl, fun p hp => nomatch hp⟩
  | succ rounds ih =>
    intro t
    rw [recheck]
    split
    · exact (honest_pickAvailablePort preferred).later t
    · exact ih.later t
    · exact ⟨Nat.le_succ t, fun p hp => nomatch hp⟩

theorem honest_pickStartupPort (preferred : Port) :
    Honest net (pickStartupPort net preferred) := by
  intro t
  unfold pickStartupPort
  split
  · exact (honest_pickAvailablePort preferred).later t
  · exact (honest_recheck preferred occupantRechecks).later t
  · exact ⟨Nat.le_succ t, fun p hp => nomatch hp⟩

/-- A free pick is honest and avoids its list. -/
theorem pickFreeRounds_spec (preferred : Port) (avoid : List Port) (rounds : Nat) (start : Port)
    (t : Nat) : t ≤ (pickFreeRounds net preferred avoid rounds start t).2 ∧
      ∀ p, (pickFreeRounds net preferred avoid rounds start t).1 = .ok p →
        p ∉ avoid ∧ Took net t (pickFreeRounds net preferred avoid rounds start t).2 p := by
  induction rounds generalizing start t with
  | zero => exact ⟨le_rfl, fun p hp => nomatch hp⟩
  | succ rounds ih =>
    have hfirst := @honest_pickAvailablePort net start t
    rw [pickFreeRounds]
    split
    case h_1 e t' hpick =>
      rw [hpick] at hfirst
      exact ⟨hfirst.1, fun p hp => nomatch hp⟩
    case h_2 candidate t' hpick =>
      rw [hpick] at hfirst
      split
      case isFalse hnot =>
        refine ⟨hfirst.1, fun p hp => ?_⟩
        obtain rfl : candidate = p := Except.ok.inj hp
        exact ⟨hnot, hfirst.2 candidate rfl⟩
      case isTrue =>
        split
        case h_2 => exact ⟨hfirst.1, fun p hp => nomatch hp⟩
        case h_1 next _ =>
          obtain ⟨hle, hspec⟩ := ih next t'
          refine ⟨le_trans hfirst.1 hle, fun p hp => ?_⟩
          obtain ⟨hnot, htook⟩ := hspec p hp
          exact ⟨hnot, htook.mono hfirst.1 le_rfl⟩

/-- What `pick_free` avoids. -/
theorem pickFree_spec {chosen : List Port} {s : Service} (hinj : Function.Injective c.port)
    (h : (pickFree net c chosen (c.port s) t).1 = .ok p) :
    p ∉ chosen ∧ ∀ s', s' ≠ s → p ≠ c.port s' := by
  obtain ⟨hnot, -⟩ := (pickFreeRounds_spec _ _ _ _ t).2 p h
  rw [List.mem_append, not_or] at hnot
  refine ⟨hnot.2, fun s' hne heq => hnot.1 (List.mem_filter.2 ⟨?_, ?_⟩)⟩
  · rw [heq]
    cases s' <;> simp [BridgeConfig.port]
  · exact decide_eq_true fun hsame => hne (hinj (heq.symm.trans hsame))

theorem honest_pickFree (chosen : List Port) (preferred : Port) :
    Honest net (pickFree net c chosen preferred) := fun t =>
  ⟨(pickFreeRounds_spec _ _ _ _ t).1, fun p hp => ((pickFreeRounds_spec _ _ _ _ t).2 p hp).2⟩

/-- No program takes a port of `c` from a startup pick: where its probe has found the port free,
the bind right after it does not find it in use. -/
def Undisturbed (net : Network) (c : BridgeConfig) : Prop :=
  ∀ s ∈ startupServices, ∀ t,
    net.probe t (c.port s) = .free → net.bind (t + 1) (c.port s) ≠ .addrInUse

theorem pickAvailablePort_own (hvalid : 1024 ≤ preferred.val)
    (hbind : net.bind t preferred ≠ .addrInUse)
    (h : (pickAvailablePort net preferred t).1 = .ok p) : p = preferred := by
  have hzero : checkedAdd preferred 0 = some preferred := by
    unfold checkedAdd
    exact dif_pos preferred.isLt
  have hrange : List.range (maxProbeSteps + 1) = 0 :: (List.range maxProbeSteps).map (· + 1) :=
    List.range_succ_eq_map
  rw [pickAvailablePort, hrange, pickAvailableFrom, hzero] at h
  dsimp only at h
  rw [if_pos hvalid] at h
  cases hout : net.bind t preferred with
  | bound =>
    rw [hout] at h
    exact (Except.ok.inj h).symm
  | addrInUse => exact absurd hout hbind
  | failed text =>
    rw [hout] at h
    exact nomatch h

theorem recheck_own (hvalid : 1024 ≤ preferred.val)
    (hundisturbed : ∀ t, net.probe t preferred = .free → net.bind (t + 1) preferred ≠ .addrInUse)
    (rounds : Nat) (h : (recheck net preferred rounds t).1 = .ok p) : p = preferred := by
  induction rounds generalizing t with
  | zero => exact nomatch h
  | succ rounds ih =>
    rw [recheck] at h
    split at h
    case h_1 hfree => exact pickAvailablePort_own hvalid (hundisturbed t hfree) h
    case h_2 => exact ih h
    case h_3 => exact nomatch h

/-- An undisturbed startup pick stays at its port. -/
theorem pickStartupPort_own (hvalid : 1024 ≤ preferred.val)
    (hundisturbed : ∀ t, net.probe t preferred = .free → net.bind (t + 1) preferred ≠ .addrInUse)
    (h : (pickStartupPort net preferred t).1 = .ok p) : p = preferred := by
  unfold pickStartupPort at h
  split at h
  case h_1 hfree => exact pickAvailablePort_own hvalid (hundisturbed t hfree) h
  case h_2 => exact recheck_own hvalid hundisturbed _ h
  case h_3 => exact nomatch h

/-- What is known of a pick that may be off. -/
theorem pickWhen_spec {enabled : Bool} {pick : Nat → Pick Port} {picked : Option Port}
    (h : Honest net pick) (hres : pickWhen enabled pick t = (.ok picked, t')) :
    t ≤ t' ∧ ∀ p, picked = some p → (pick t).1 = .ok p ∧ Took net t t' p := by
  obtain ⟨hle, htook⟩ := h t
  unfold pickWhen at hres
  split at hres
  case isFalse =>
    obtain rfl : t = t' := congrArg Prod.snd hres
    obtain rfl : none = picked := Except.ok.inj (congrArg Prod.fst hres)
    exact ⟨le_rfl, fun p hp => nomatch hp⟩
  case isTrue =>
    obtain rfl : (pick t).2 = t' := congrArg Prod.snd hres
    have hmap : (pick t).1.map some = .ok picked := congrArg Prod.fst hres
    refine ⟨hle, fun p hp => ?_⟩
    cases hpick : (pick t).1 with
    | error e =>
      rw [hpick] at hmap
      exact nomatch hmap
    | ok q =>
      rw [hpick] at hmap
      obtain rfl : q = p := Option.some.inj ((Except.ok.inj hmap).trans hp)
      exact ⟨rfl, htook q hpick⟩

theorem le_pickWhen {pick : Nat → Pick Port} (h : Honest net pick) (enabled : Bool) (t : Nat) :
    t ≤ (pickWhen enabled pick t).2 := by
  unfold pickWhen
  split
  · exact (h t).1
  · exact le_rfl

/-- What is known of a pick that may be off or fail. -/
theorem orOff_spec {enabled : Bool} {pick : Nat → Pick Port} {picked : Option Port}
    (h : Honest net pick) (hres : orOff (pickWhen enabled pick t) = (picked, t')) :
    t ≤ t' ∧ ∀ p, picked = some p → (pick t).1 = .ok p ∧ Took net t t' p := by
  have hle := le_pickWhen h enabled t
  cases hpick : pickWhen enabled pick t with
  | mk result u =>
    rw [hpick] at hres hle
    cases result with
    | error e =>
      obtain rfl : u = t' := congrArg Prod.snd hres
      obtain rfl : none = picked := congrArg Prod.fst hres
      exact ⟨hle, fun p hp => nomatch hp⟩
    | ok o =>
      obtain rfl : u = t' := congrArg Prod.snd hres
      obtain rfl : o = picked := congrArg Prod.fst hres
      exact pickWhen_spec h hpick

/-- A port that an honest pick gives. -/
theorem Honest.took {pick : Nat → Pick Port} (h : Honest net pick)
    (hres : pick t = (.ok p, t')) : t ≤ t' ∧ Took net t t' p := by
  have hpick := h t
  rw [hres] at hpick
  exact ⟨hpick.1, hpick.2 p rfl⟩

end Picks

/-! ## The plan as a whole -/

section Plan

variable {net : Network} {c : BridgeConfig} {ports : BoundPorts} {t t' : Nat}

/-- Distinct ports, each bound when it was chosen and none of another service, and a
configuration that is still accepted. -/
structure Distinct (net : Network) (c : BridgeConfig) (t t' : Nat) (ports : BoundPorts) : Prop where
  different : ∀ s s', s ≠ s' → ports.port s ≠ 0 → ports.port s ≠ ports.port s'
  bound : ∀ s, ports.port s ≠ 0 → Took net t t' (ports.port s)
  own : ∀ s s', s ≠ s' → ports.port s ≠ c.port s'
  accepted : validatePorts (ports.applyToConfig c).1 = .ok ()

/-- A configured port after the plan is applied. -/
theorem port_applyToConfig (ports : BoundPorts) (c : BridgeConfig) (s : Service) :
    (ports.applyToConfig c).1.port s = c.port s ∨
      ports.port s ≠ 0 ∧ (ports.applyToConfig c).1.port s = ports.port s := by
  have hslot : ∀ slot value : Port, (updateSlot slot value).1 = slot ∨
      value ≠ 0 ∧ (updateSlot slot value).1 = value := by
    intro slot value
    unfold updateSlot
    split
    case isTrue h => exact Or.inr ⟨h.1, rfl⟩
    case isFalse => exact Or.inl rfl
  cases s with
  | imap => exact hslot _ _
  | smtp => exact hslot _ _
  | jmap => exact hslot _ _
  | carddav => exact hslot _ _
  | imaps => exact Or.inl rfl
  | smtps => exact Or.inl rfl
  | pop3 => exact Or.inl rfl
  | pop3s => exact Or.inl rfl

/-- Picks that were bound, that are no other service's port, and that differ. -/
theorem distinct_of_picks (hc : validatePorts c = .ok ()) (picked : Service → Option Port)
    (hports : ∀ s, ports.port s = (picked s).getD 0)
    (htook : ∀ s p, picked s = some p → Took net t t' p)
    (hown : ∀ s p, picked s = some p → ∀ s', s' ≠ s → p ≠ c.port s')
    (hdifferent : ∀ s s' p, picked s = some p → picked s' = some p → s = s') :
    Distinct net c t t' ports := by
  obtain ⟨hvalid, hinj⟩ := (validatePorts_eq_ok_iff c).1 hc
  have hpicked : ∀ s, ports.port s ≠ 0 → picked s = some (ports.port s) := by
    intro s hne
    cases hp : picked s with
    | none => exact absurd ((hports s).trans (by rw [hp]; rfl)) hne
    | some p => rw [hports s, hp, Option.getD_some]
  have hdiff : ∀ s s', s ≠ s' → ports.port s ≠ 0 → ports.port s ≠ ports.port s' := by
    intro s s' hss' hne heq
    exact hss' (hdifferent s s' _ (hpicked s hne) (heq ▸ hpicked s' (heq ▸ hne)))
  have hothers : ∀ s s', s ≠ s' → ports.port s ≠ c.port s' := by
    intro s s' hss' heq
    by_cases hne : ports.port s = 0
    · have hlow := hvalid s'
      rw [← heq, hne] at hlow
      exact absurd hlow (by decide)
    · exact hown s _ (hpicked s hne) s' hss'.symm heq
  refine ⟨hdiff, fun s hne => htook s _ (hpicked s hne), hothers, ?_⟩
  refine (validatePorts_eq_ok_iff _).2 ⟨fun s => ?_, fun s s' heq => ?_⟩
  · rcases port_applyToConfig ports c s with hs | ⟨hne, hs⟩
    · exact hs ▸ hvalid s
    · exact hs ▸ (htook s _ (hpicked s hne)).valid
  · by_contra hss'
    rcases port_applyToConfig ports c s with hs | ⟨hne, hs⟩
    · rcases port_applyToConfig ports c s' with hs' | ⟨hne', hs'⟩
      · exact hss' (hinj (hs.symm.trans (heq.trans hs')))
      · exact hothers s' s (Ne.symm hss') (hs'.symm.trans (heq.symm.trans hs))
    · rcases port_applyToConfig ports c s' with hs' | ⟨hne', hs'⟩
      · exact hothers s s' hss' (hs.symm.trans (heq.trans hs'))
      · exact hdiff s s' hss' hne (hs.symm.trans (heq.trans hs'))

/-- The picks of a plan. -/
structure Picks where
  imap : Port
  smtp : Port
  jmap : Option Port
  carddav : Option Port
  imaps : Option Port
  smtps : Option Port
  pop3 : Option Port
  pop3s : Option Port

/-- The pick of a service. -/
def Picks.port (k : Picks) : Service → Option Port
  | .imap => some k.imap
  | .imaps => k.imaps
  | .smtp => some k.smtp
  | .smtps => k.smtps
  | .jmap => k.jmap
  | .pop3 => k.pop3
  | .pop3s => k.pop3s
  | .carddav => k.carddav

/-- What `pick_free` had taken before a service. -/
def Picks.before (k : Picks) : Service → List Port
  | .carddav => [k.imap, k.smtp] ++ k.jmap.toList
  | .pop3 => [k.imap, k.smtp] ++ k.jmap.toList ++ k.carddav.toList
  | .pop3s => [k.imap, k.smtp] ++ k.jmap.toList ++ k.carddav.toList ++ k.pop3.toList
  | _ => [k.imap, k.smtp]

/-- How the ports of a plan were picked between the attempts `t` and `t'`. -/
structure Planned (net : Network) (c : BridgeConfig) (t t' : Nat) (k : Picks)
    (ports : BoundPorts) : Prop where
  ports : ∀ s, ports.port s = (k.port s).getD 0
  took : ∀ s p, k.port s = some p → Took net t t' p
  startup : ∀ s ∈ startupServices, ∀ p, k.port s = some p →
    ∃ u, (pickStartupPort net (c.port s) u).1 = .ok p
  free : ∀ s ∈ freeServices, ∀ p, k.port s = some p →
    ∃ u, (pickFree net c (k.before s) (c.port s) u).1 = .ok p

/-- What `plan_ports` has picked when it succeeds. -/
theorem exists_planned {tls : Bool} {plan : PortPlan}
    (h : planPorts net c tls t = (.ok plan, t')) : ∃ k, Planned net c t t' k plan.ports := by
  unfold planPorts at h
  split at h
  case h_1 => exact nomatch h
  case h_2 imap t₁ himap =>
  split at h
  case h_1 => exact nomatch h
  case h_2 smtp t₂ hsmtp =>
  split at h
  case h_1 => exact nomatch h
  case h_2 jmap t₃ hjmap =>
  split at h
  rename_i carddav t₄ hcarddav
  split at h
  rename_i imaps t₅ himaps
  split at h
  rename_i smtps t₆ hsmtps
  split at h
  rename_i pop3 t₇ hpop3
  split at h
  rename_i pop3s t₈ hpop3s
  obtain rfl : t₈ = t' := congrArg Prod.snd h
  have hports : _ = plan.ports := congrArg PortPlan.ports (Except.ok.inj (congrArg Prod.fst h))
  -- what each attempt gives, in their order
  obtain ⟨hle₁, himapTook⟩ := (honest_pickStartupPort _).took himap
  obtain ⟨hle₂, hsmtpTook⟩ := (honest_pickStartupPort _).took hsmtp
  obtain ⟨hle₃, hjmapSpec⟩ := pickWhen_spec (honest_pickFree _ _) hjmap
  obtain ⟨hle₄, hcarddavSpec⟩ := orOff_spec (honest_pickFree _ _) hcarddav
  obtain ⟨hle₅, himapsSpec⟩ := orOff_spec (honest_pickStartupPort _) himaps
  obtain ⟨hle₆, hsmtpsSpec⟩ := orOff_spec (honest_pickStartupPort _) hsmtps
  obtain ⟨hle₇, hpop3Spec⟩ := orOff_spec (honest_pickFree _ _) hpop3
  obtain ⟨hle₈, hpop3sSpec⟩ := orOff_spec (honest_pickFree _ _) hpop3s
  refine ⟨⟨imap, smtp, jmap, carddav, imaps, smtps, pop3, pop3s⟩, ?_, ?_, ?_, ?_⟩
  · intro s
    rw [← hports]
    cases s <;> rfl
  · intro s p hp
    cases s with
    | imap =>
      obtain rfl : imap = p := Option.some.inj hp
      exact himapTook.mono le_rfl (by omega)
    | smtp =>
      obtain rfl : smtp = p := Option.some.inj hp
      exact hsmtpTook.mono (by omega) (by omega)
    | jmap => exact (hjmapSpec p hp).2.mono (by omega) (by omega)
    | carddav => exact (hcarddavSpec p hp).2.mono (by omega) (by omega)
    | imaps => exact (himapsSpec p hp).2.mono (by omega) (by omega)
    | smtps => exact (hsmtpsSpec p hp).2.mono (by omega) (by omega)
    | pop3 => exact (hpop3Spec p hp).2.mono (by omega) (by omega)
    | pop3s => exact (hpop3sSpec p hp).2.mono (by omega) le_rfl
  · intro s hs p hp
    rcases List.mem_cons.1 hs with rfl | hs
    · exact ⟨t, (congrArg Prod.fst himap).trans (congrArg Except.ok (Option.some.inj hp))⟩
    rcases List.mem_cons.1 hs with rfl | hs
    · exact ⟨t₁, (congrArg Prod.fst hsmtp).trans (congrArg Except.ok (Option.some.inj hp))⟩
    rcases List.mem_cons.1 hs with rfl | hs
    · exact ⟨t₄, (himapsSpec p hp).1⟩
    · rw [List.mem_singleton.1 hs] at hp ⊢
      exact ⟨t₅, (hsmtpsSpec p hp).1⟩
  · intro s hs p hp
    rcases List.mem_cons.1 hs with rfl | hs
    · exact ⟨t₂, (hjmapSpec p hp).1⟩
    rcases List.mem_cons.1 hs with rfl | hs
    · exact ⟨t₃, (hcarddavSpec p hp).1⟩
    rcases List.mem_cons.1 hs with rfl | hs
    · exact ⟨t₆, (hpop3Spec p hp).1⟩
    · rw [List.mem_singleton.1 hs] at hp ⊢
      exact ⟨t₇, (hpop3sSpec p hp).1⟩

/-- A service picked by `pick_free` has what the services before it picked in its list. -/
theorem mem_before (k : Picks) : freeServices.Pairwise fun s s' =>
    ∀ p, k.port s = some p → p ∈ k.before s' := by
  have hin : ∀ {o : Option Port} {p : Port}, o = some p → p ∈ o.toList :=
    fun h => Option.mem_toList.2 h
  refine List.Pairwise.cons ?_ (List.Pairwise.cons ?_ (List.Pairwise.cons ?_
    (List.pairwise_singleton _ _)))
  · intro s hs p hp
    rcases List.mem_cons.1 hs with rfl | hs
    · exact List.mem_append_right _ (hin hp)
    rcases List.mem_cons.1 hs with rfl | hs
    · exact List.mem_append_left _ (List.mem_append_right _ (hin hp))
    · rw [List.mem_singleton.1 hs]
      exact List.mem_append_left _ (List.mem_append_left _ (List.mem_append_right _ (hin hp)))
  · intro s hs p hp
    rcases List.mem_cons.1 hs with rfl | hs
    · exact List.mem_append_right _ (hin hp)
    · rw [List.mem_singleton.1 hs]
      exact List.mem_append_left _ (List.mem_append_right _ (hin hp))
  · intro s hs p hp
    rw [List.mem_singleton.1 hs]
    exact List.mem_append_right _ (hin hp)

/-- **An undisturbed plan keeps the ports apart.** -/
theorem planPorts_distinct {tls : Bool} {plan : PortPlan} (hc : validatePorts c = .ok ())
    (hundisturbed : Undisturbed net c) (h : planPorts net c tls t = (.ok plan, t')) :
    Distinct net c t t' plan.ports := by
  obtain ⟨hvalid, hinj⟩ := (validatePorts_eq_ok_iff c).1 hc
  obtain ⟨k, hk⟩ := exists_planned h
  have hside : ∀ s : Service, s ∈ startupServices ∨ s ∈ freeServices := fun s => by
    cases s <;> decide
  have hstay : ∀ s ∈ startupServices, ∀ p, k.port s = some p → p = c.port s := by
    intro s hs p hp
    obtain ⟨u, hpick⟩ := hk.startup s hs p hp
    exact pickStartupPort_own (hvalid s) (hundisturbed s hs) hpick
  have hfree : ∀ s ∈ freeServices, ∀ p, k.port s = some p →
      p ∉ k.before s ∧ ∀ s', s' ≠ s → p ≠ c.port s' := by
    intro s hs p hp
    obtain ⟨u, hpick⟩ := hk.free s hs p hp
    exact pickFree_spec hinj hpick
  have hown : ∀ s p, k.port s = some p → ∀ s', s' ≠ s → p ≠ c.port s' := by
    intro s p hp s' hne
    rcases hside s with hs | hs
    · exact fun heq => hne (hinj (heq.symm.trans (hstay s hs p hp)))
    · exact (hfree s hs p hp).2 s' hne
  have hapart : freeServices.Pairwise fun s s' => ∀ p, k.port s = some p → k.port s' ≠ some p :=
    (mem_before k).imp_of_mem fun _ hs' hin p hp hp' => (hfree _ hs' p hp').1 (hin p hp)
  refine distinct_of_picks hc k.port hk.ports hk.took hown ?_
  intro s s' p hp hp'
  by_contra hne
  rcases hside s with hs | hs
  · exact hown s' p hp' s hne (hstay s hs p hp)
  · rcases hside s' with hs' | hs'
    · exact hown s p hp s' (Ne.symm hne) (hstay s' hs' p hp')
    · have hsymm : Std.Symm fun s s' => ∀ p, k.port s = some p → k.port s' ≠ some p :=
        ⟨fun a b hab q hb ha => hab q ha hb⟩
      exact hapart.forall hs hs' hne p hp hp'

/-- **Ports stay distinct** as long as no program takes a startup port between its probe and
its bind. A repair ends in every case; a plan that succeeds keeps the ports apart. -/
theorem ports_stay_distinct (saved c : BridgeConfig) (net : Network) (tls : Bool) (t : Nat)
    (hc : validatePorts c = .ok ()) (hundisturbed : Undisturbed net c) :
    (∀ fuel, 16 < fuel → ∃ c' reset, repairPorts fuel saved = some (c', reset) ∧
      Repaired saved c') ∧
    ∀ plan t', planPorts net c tls t = (.ok plan, t') → Distinct net c t t' plan.ports :=
  ⟨fun _ hfuel => repairPorts_spec saved hfuel,
    fun _ _ hplan => planPorts_distinct hc hundisturbed hplan⟩

/-- A computer on which every port is free. -/
def idle : Network := ⟨fun _ _ => .free, fun _ _ => .bound⟩

theorem ports_stay_distinct_idle :
    (∀ fuel, 16 < fuel → ∃ c' reset, repairPorts fuel { BridgeConfig.default with
      jmapPort := 1081 } = some (c', reset) ∧
        Repaired { BridgeConfig.default with jmapPort := 1081 } c') ∧
    ∀ plan t', planPorts idle BridgeConfig.default true 0 = (.ok plan, t') →
      Distinct idle BridgeConfig.default 0 t' plan.ports :=
  ports_stay_distinct { BridgeConfig.default with jmapPort := 1081 } BridgeConfig.default idle true
    0 ((validatePorts_eq_ok_iff _).2 ⟨default_valid, fun s s' h => by
      revert h
      cases s <;> cases s' <;> decide⟩) fun _ _ _ _ => nofun

/-- IMAP and SMTP at neighbouring ports. -/
def neighbours : BridgeConfig := { BridgeConfig.default with smtpPort := 1144 }

/-- A program takes the port of IMAP just after the probe and leaves it again. -/
def passing : Network := ⟨fun _ _ => .free, fun t _ => if t = 1 then .addrInUse else .bound⟩

/-- IMAP moves onto the port of SMTP, which SMTP then gets as well. -/
theorem imap_moves_onto_smtp : validatePorts neighbours = .ok () ∧
    ∃ plan t', planPorts passing neighbours false 0 = (.ok plan, t') ∧
      ¬ Distinct passing neighbours 0 t' plan.ports ∧
      validatePorts (plan.ports.applyToConfig neighbours).1 ≠ .ok () := by
  refine ⟨(validatePorts_eq_ok_iff _).2 ⟨fun s => by cases s <;> decide, fun s s' h => by
    revert h
    cases s <;> cases s' <;> decide⟩, ⟨⟨1144, 1144, 1080, 1081, 0, 0, 1110, 0⟩, true, true⟩, 8,
    rfl, ?_, ?_⟩
  · intro h
    exact h.different .imap .smtp (by decide) (by decide) rfl
  · intro haccepted
    have hinj := ((validatePorts_eq_ok_iff _).1 haccepted).2
    exact absurd (@hinj .imap .smtp rfl) (by decide)

end Plan

end AsterBridge.Ports
