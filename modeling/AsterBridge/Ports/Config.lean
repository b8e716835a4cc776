import Mathlib.Data.List.Infix
import Mathlib.Data.List.Nodup
import Mathlib.Data.List.Sort
import Mathlib.Tactic

/-!
# The configured ports

`shared_port`, `validate_ports` and `repair_ports` of `config.rs`. A configuration has one port
for each of the eight services; a repair keeps one holder of each valid value and moves the
others to free defaults.
-/

set_option autoImplicit false

namespace AsterBridge.Ports

/-! ## Ports and services -/

/-- `u16` -/
abbrev Port := Fin 65536

instance neZeroPort : NeZero 65536 := ⟨by decide⟩

instance lawfulBEqPort : LawfulBEq Port := inferInstance

/-- `checked_add` -/
def checkedAdd (p : Port) (n : Nat) : Option Port :=
  if h : p.val + n < 65536 then some ⟨p.val + n, h⟩ else none

/-- The services of `Service` that listen on a port. -/
inductive Service where
  | imap
  | imaps
  | smtp
  | smtps
  | jmap
  | pop3
  | pop3s
  | carddav
deriving DecidableEq, Repr

/-- The order of the ports in `validate_ports` and `repair_ports`. -/
def slots : List Service := [.imap, .imaps, .smtp, .smtps, .jmap, .pop3, .pop3s, .carddav]

/-- The name of a slot in the messages. -/
def Service.slotName : Service → String
  | .imap => "imap_port"
  | .imaps => "imap_implicit_tls_port"
  | .smtp => "smtp_port"
  | .smtps => "smtp_implicit_tls_port"
  | .jmap => "jmap_port"
  | .pop3 => "pop3_port"
  | .pop3s => "pop3s_port"
  | .carddav => "carddav_port"

theorem mem_slots (s : Service) : s ∈ slots := by cases s <;> decide

theorem slots_nodup : slots.Nodup := by decide

/-- `BridgeConfig`, its ports and the services that may be off. -/
structure BridgeConfig where
  imapPort : Port
  smtpPort : Port
  jmapPort : Port
  jmapEnabled : Bool
  imapImplicitTlsPort : Port
  smtpImplicitTlsPort : Port
  pop3Port : Port
  pop3sPort : Port
  carddavPort : Port
  carddavEnabled : Bool
deriving DecidableEq

namespace BridgeConfig

/-- `BridgeConfig::default` -/
def default : BridgeConfig where
  imapPort := 1143
  smtpPort := 1025
  jmapPort := 1080
  jmapEnabled := true
  imapImplicitTlsPort := 1993
  smtpImplicitTlsPort := 1465
  pop3Port := 1110
  pop3sPort := 1995
  carddavPort := 1081
  carddavEnabled := true

/-- The port of a service. -/
def port (c : BridgeConfig) : Service → Port
  | .imap => c.imapPort
  | .imaps => c.imapImplicitTlsPort
  | .smtp => c.smtpPort
  | .smtps => c.smtpImplicitTlsPort
  | .jmap => c.jmapPort
  | .pop3 => c.pop3Port
  | .pop3s => c.pop3sPort
  | .carddav => c.carddavPort

/-- The assignment to the port of a service. -/
def setPort (c : BridgeConfig) (s : Service) (p : Port) : BridgeConfig :=
  match s with
  | .imap => { c with imapPort := p }
  | .imaps => { c with imapImplicitTlsPort := p }
  | .smtp => { c with smtpPort := p }
  | .smtps => { c with smtpImplicitTlsPort := p }
  | .jmap => { c with jmapPort := p }
  | .pop3 => { c with pop3Port := p }
  | .pop3s => { c with pop3sPort := p }
  | .carddav => { c with carddavPort := p }

@[simp] theorem port_setPort (c : BridgeConfig) (s : Service) (p : Port) :
    (c.setPort s p).port s = p := by
  cases s <;> rfl

@[simp] theorem port_setPort_of_ne (c : BridgeConfig) {s s' : Service} (p : Port) (h : s' ≠ s) :
    (c.setPort s p).port s' = c.port s' := by
  cases s <;> cases s' <;> first | rfl | exact absurd rfl h

end BridgeConfig

/-! ## Validation -/

/-- `windows(2).find(|w| w[0] == w[1])`: the first value beside an equal one. -/
def firstRepeat : List Port → Option Port
  | a :: b :: rest => if a = b then some a else firstRepeat (b :: rest)
  | _ => none

/-- `shared_port` -/
def sharedPort (c : BridgeConfig) : Option Port :=
  firstRepeat ((slots.map c.port).mergeSort (· ≤ ·))

/-- `validate_ports` -/
def validatePorts (c : BridgeConfig) : Except String Unit :=
  match slots.find? fun s => (c.port s).val < 1024 with
  | some s =>
      .error (s.slotName ++ " must be >= 1024 (got " ++ toString (c.port s).val ++ ")")
  | none =>
      match sharedPort c with
      | some p => .error ("port " ++ toString p.val ++ " is assigned to multiple protocols")
      | none => .ok ()

/-- A sorted list in which no neighbours are equal has no duplicates. -/
theorem firstRepeat_eq_none_iff {l : List Port} (hsorted : l.Pairwise (· ≤ ·)) :
    firstRepeat l = none ↔ l.Nodup := by
  induction l with
  | nil => simp [firstRepeat]
  | cons a l ih =>
    obtain ⟨hleast, hrest⟩ := List.pairwise_cons.1 hsorted
    cases l with
    | nil => simp [firstRepeat]
    | cons b l =>
      rw [firstRepeat, List.nodup_cons, ← ih hrest]
      split
      case isTrue heq =>
        constructor
        · exact (nomatch ·)
        · rintro ⟨hnot, -⟩
          exact absurd (heq ▸ List.mem_cons_self) hnot
      case isFalse hne =>
        refine (and_iff_right ?_).symm
        -- whatever stands after `b` is no smaller than `b`, and `a` is smaller
        intro hmem
        rcases List.mem_cons.1 hmem with heq | hlater
        · exact hne heq
        · have hab := hleast b List.mem_cons_self
          have hba := (List.pairwise_cons.1 hrest).1 a hlater
          exact hne (le_antisymm hab hba)

theorem sharedPort_eq_none_iff (c : BridgeConfig) :
    sharedPort c = none ↔ Function.Injective c.port := by
  have hsorted : ((slots.map c.port).mergeSort (· ≤ ·)).Pairwise (· ≤ ·) := by
    have htrans : ∀ a b d : Port, decide (a ≤ b) = true → decide (b ≤ d) = true →
        decide (a ≤ d) = true := fun a b d hab hbd =>
      decide_eq_true ((of_decide_eq_true hab).trans (of_decide_eq_true hbd))
    have htotal : ∀ a b : Port, (decide (a ≤ b) || decide (b ≤ a)) = true := fun a b =>
      Bool.or_eq_true_iff.2 ((le_total a b).imp decide_eq_true decide_eq_true)
    have h := List.pairwise_mergeSort htrans htotal (slots.map c.port)
    simpa using h
  rw [sharedPort, firstRepeat_eq_none_iff hsorted,
    (List.mergeSort_perm _ _).nodup_iff]
  constructor
  · intro hnodup s s' heq
    exact List.inj_on_of_nodup_map hnodup (mem_slots s) (mem_slots s') heq
  · exact fun hinj => slots_nodup.map hinj

/-- What `validate_ports` accepts. -/
theorem validatePorts_eq_ok_iff (c : BridgeConfig) : validatePorts c = .ok () ↔
    (∀ s, 1024 ≤ (c.port s).val) ∧ Function.Injective c.port := by
  rw [← sharedPort_eq_none_iff, validatePorts]
  cases hlow : slots.find? fun s => decide ((c.port s).val < 1024) with
  | some s =>
    have hs : (c.port s).val < 1024 := by
      have h := List.find?_some hlow
      exact of_decide_eq_true h
    constructor
    · exact (nomatch ·)
    · rintro ⟨hvalid, -⟩
      exact absurd (hvalid s) (Nat.not_le.2 hs)
  | none =>
    have hvalid : ∀ s, 1024 ≤ (c.port s).val := fun s => by
      have h := List.find?_eq_none.1 hlow s (mem_slots s)
      exact Nat.not_lt.1 fun hlt => h (decide_eq_true hlt)
    cases hshared : sharedPort c with
    | some p => exact iff_of_false (nomatch ·) fun h => nomatch h.2
    | none => exact iff_of_true rfl ⟨hvalid, rfl⟩

/-! ## Repair -/

/-- `checked_add(1).unwrap_or(1024).max(1024)` -/
def bump (candidate : Port) : Port := max ((checkedAdd candidate 1).getD 1024) 1024

/-- The loop that looks for a candidate that is not used. -/
def nextFree (used : List Port) : Nat → Port → Option Port
  | 0, _ => none
  | fuel + 1, candidate =>
      if candidate ∈ used then nextFree used fuel (bump candidate) else some candidate

/-- `owner`: of the services that share a value, the one whose default it is, else the first. -/
def owner (c : BridgeConfig) (s : Service) : Option Service :=
  let sharing := slots.filter fun s' => c.port s' = c.port s
  (sharing.find? fun s' => c.port s' = BridgeConfig.default.port s').or sharing.head?

/-- `keep` -/
def keep (c : BridgeConfig) (s : Service) : Bool :=
  !decide ((c.port s).val < 1024) && owner c s == some s

/-- What the loop of `repair_ports` changes. -/
structure Repair where
  config : BridgeConfig
  used : List Port
  reset : List String

/-- One slot of the loop. -/
def repairStep (kept : Service → Bool) (fuel : Nat) (r : Repair) (s : Service) : Option Repair :=
  if kept s then some r
  else
    (nextFree r.used fuel (BridgeConfig.default.port s)).map fun candidate =>
      ⟨r.config.setPort s candidate, r.used ++ [candidate], r.reset ++ [s.slotName]⟩

/-- The loop over the slots that are left. -/
def repairSlots (kept : Service → Bool) (fuel : Nat) : List Service → Repair → Option Repair
  | [], r => some r
  | s :: rest, r => (repairStep kept fuel r s).bind (repairSlots kept fuel rest)

/-- `repair_ports`: the configuration and the names of the slots that were reset. -/
def repairPorts (fuel : Nat) (c : BridgeConfig) : Option (BridgeConfig × List String) :=
  (repairSlots (keep c) fuel slots ⟨c, (slots.filter (keep c)).map c.port, []⟩).map fun r =>
    (r.config, r.reset)

/-! ### The search for a candidate -/

/-- The ports from 1024 on form a cycle. -/
theorem bump_val {candidate : Port} (h : 1024 ≤ candidate.val) :
    (bump candidate).val = 1024 + (candidate.val - 1024 + 1) % 64512 := by
  unfold bump checkedAdd
  split
  case isTrue hsmall =>
    have hmax : max (⟨candidate.val + 1, hsmall⟩ : Port) 1024 = ⟨candidate.val + 1, hsmall⟩ :=
      max_eq_left (Fin.le_def.2 (by change 1024 ≤ candidate.val + 1; omega))
    rw [Option.getD_some, hmax]
    change candidate.val + 1 = _
    omega
  case isFalse hlast =>
    rw [Option.getD_none, max_self]
    change 1024 = _
    omega

theorem bump_iterate_val {candidate : Port} (h : 1024 ≤ candidate.val) (k : Nat) :
    (bump^[k] candidate).val = 1024 + (candidate.val - 1024 + k) % 64512 := by
  induction k with
  | zero =>
    have hlt := candidate.isLt
    change candidate.val = _
    omega
  | succ k ih =>
    rw [Function.iterate_succ_apply', bump_val (by omega), ih]
    omega

/-- A search that finds nothing has seen only used ports. -/
theorem iterate_mem_of_nextFree {used : List Port} {fuel : Nat} {candidate : Port}
    (h : nextFree used fuel candidate = none) (k : Nat) (hk : k < fuel) :
    bump^[k] candidate ∈ used := by
  induction fuel generalizing candidate k with
  | zero => exact absurd hk (Nat.not_lt_zero k)
  | succ fuel ih =>
    rw [nextFree] at h
    split at h
    case isFalse => exact nomatch h
    case isTrue hused =>
      cases k with
      | zero => exact hused
      | succ k =>
        rw [Function.iterate_succ_apply]
        exact ih h k (Nat.lt_of_succ_lt_succ hk)

/-- **The search ends**: with fewer used ports than steps, a free one is met. -/
theorem exists_nextFree {used : List Port} {fuel : Nat} {candidate : Port}
    (hvalid : 1024 ≤ candidate.val) (hfuel : used.length < fuel) (hshort : used.length < 64512) :
    ∃ p, nextFree used fuel candidate = some p := by
  by_contra hnone
  have hfound : nextFree used fuel candidate = none :=
    Option.eq_none_iff_forall_ne_some.2 fun p hp => hnone ⟨p, hp⟩
  -- the first `used.length + 1` candidates are different, and all of them are used
  let seen := (List.range (used.length + 1)).map fun k => bump^[k] candidate
  have hnodup : seen.Nodup := by
    refine List.Nodup.map_on ?_ List.nodup_range
    intro k hk k' hk' heq
    have hval := congrArg Fin.val heq
    rw [bump_iterate_val hvalid, bump_iterate_val hvalid] at hval
    rw [List.mem_range] at hk hk'
    omega
  have hsub : seen ⊆ used := by
    intro p hp
    obtain ⟨k, hk, rfl⟩ := List.mem_map.1 hp
    rw [List.mem_range] at hk
    exact iterate_mem_of_nextFree hfound k (by omega)
  have hlen := (hnodup.subperm hsub).length_le
  simp only [seen, List.length_map, List.length_range] at hlen
  omega

theorem nextFree_spec {used : List Port} {fuel : Nat} {candidate p : Port}
    (hvalid : 1024 ≤ candidate.val) (h : nextFree used fuel candidate = some p) :
    p ∉ used ∧ 1024 ≤ p.val := by
  induction fuel generalizing candidate with
  | zero => exact nomatch h
  | succ fuel ih =>
    rw [nextFree] at h
    split at h
    case isTrue =>
      refine ih ?_ h
      rw [bump_val hvalid]
      omega
    case isFalse hnot =>
      obtain rfl := Option.some.inj h
      exact ⟨hnot, hvalid⟩

theorem default_valid (s : Service) : 1024 ≤ (BridgeConfig.default.port s).val := by
  cases s <;> decide

/-! ### The loop -/

section Loop

variable {c : BridgeConfig} {kept : Service → Bool} {fuel : Nat} {pending : List Service}
  {r r' : Repair}

/-- What holds in the loop while the slots of `pending` are left: the ports that are settled
are valid, different and used, and the others and those kept are as they were. -/
structure Settled (c : BridgeConfig) (kept : Service → Bool) (pending : List Service)
    (r : Repair) : Prop where
  used : ∀ s, kept s = true ∨ s ∉ pending → r.config.port s ∈ r.used
  valid : ∀ s, kept s = true ∨ s ∉ pending → 1024 ≤ (r.config.port s).val
  distinct : ∀ s s', kept s = true ∨ s ∉ pending → kept s' = true ∨ s' ∉ pending →
    r.config.port s = r.config.port s' → s = s'
  same : ∀ s, kept s = true → r.config.port s = c.port s
  enabled : r.config.jmapEnabled = c.jmapEnabled ∧ r.config.carddavEnabled = c.carddavEnabled

theorem Settled.step {s : Service} (h : Settled c kept (s :: pending) r)
    (hstep : repairStep kept fuel r s = some r') : Settled c kept pending r' := by
  unfold repairStep at hstep
  split at hstep
  case isTrue hkept =>
    obtain rfl := Option.some.inj hstep
    have hback : ∀ t, kept t = true ∨ t ∉ pending → kept t = true ∨ t ∉ s :: pending := by
      rintro t (ht | ht)
      · exact Or.inl ht
      · by_cases hts : t = s
        · exact Or.inl (hts ▸ hkept)
        · exact Or.inr fun hmem => (List.mem_cons.1 hmem).elim hts ht
    exact ⟨fun t ht => h.used t (hback t ht), fun t ht => h.valid t (hback t ht),
      fun t t' ht ht' => h.distinct t t' (hback t ht) (hback t' ht'), h.same, h.enabled⟩
  case isFalse hreset =>
    obtain ⟨candidate, hfound, rfl⟩ := Option.map_eq_some_iff.1 hstep
    obtain ⟨hfree, hvalid⟩ := nextFree_spec (default_valid s) hfound
    have hback : ∀ t, t ≠ s → (kept t = true ∨ t ∉ pending) →
        kept t = true ∨ t ∉ s :: pending := by
      rintro t hts (ht | ht)
      · exact Or.inl ht
      · exact Or.inr fun hmem => (List.mem_cons.1 hmem).elim hts ht
    refine ⟨?_, ?_, ?_, ?_, ?_⟩
    · intro t ht
      by_cases hts : t = s
      · rw [hts, BridgeConfig.port_setPort]
        exact List.mem_append_right _ (List.mem_singleton.2 rfl)
      · rw [BridgeConfig.port_setPort_of_ne _ _ hts]
        exact List.mem_append_left _ (h.used t (hback t hts ht))
    · intro t ht
      by_cases hts : t = s
      · rwa [hts, BridgeConfig.port_setPort]
      · rw [BridgeConfig.port_setPort_of_ne _ _ hts]
        exact h.valid t (hback t hts ht)
    · intro t t' ht ht' heq
      by_cases hts : t = s
      · by_cases hts' : t' = s
        · rw [hts, hts']
        · rw [hts, BridgeConfig.port_setPort, BridgeConfig.port_setPort_of_ne _ _ hts'] at heq
          exact absurd (h.used t' (hback t' hts' ht')) (heq ▸ hfree)
      · by_cases hts' : t' = s
        · rw [hts', BridgeConfig.port_setPort, BridgeConfig.port_setPort_of_ne _ _ hts] at heq
          exact absurd (h.used t (hback t hts ht)) (heq ▸ hfree)
        · rw [BridgeConfig.port_setPort_of_ne _ _ hts,
            BridgeConfig.port_setPort_of_ne _ _ hts'] at heq
          exact h.distinct t t' (hback t hts ht) (hback t' hts' ht') heq
    · intro t ht
      have hts : t ≠ s := fun heq => hreset (heq ▸ ht)
      rw [BridgeConfig.port_setPort_of_ne _ _ hts]
      exact h.same t ht
    · cases s <;> exact h.enabled

/-- A slot adds at most one used port, and it never runs out of steps. -/
theorem exists_repairStep (s : Service) (hfuel : r.used.length < fuel)
    (hshort : r.used.length < 64512) : ∃ r', repairStep kept fuel r s = some r' ∧
      r'.used.length ≤ r.used.length + 1 := by
  unfold repairStep
  split
  case isTrue => exact ⟨r, rfl, Nat.le_succ _⟩
  case isFalse =>
    obtain ⟨p, hp⟩ := exists_nextFree (default_valid s) hfuel hshort
    refine ⟨_, by rw [hp]; rfl, ?_⟩
    rw [List.length_append, List.length_singleton]

theorem exists_repairSlots (h : Settled c kept pending r)
    (hfuel : r.used.length + pending.length < fuel)
    (hshort : r.used.length + pending.length < 64512) :
    ∃ r', repairSlots kept fuel pending r = some r' ∧ Settled c kept [] r' := by
  induction pending generalizing r with
  | nil => exact ⟨r, rfl, h⟩
  | cons s pending ih =>
    rw [List.length_cons] at hfuel hshort
    obtain ⟨next, hstep, hlen⟩ := @exists_repairStep kept fuel r s
      (by omega) (by omega)
    obtain ⟨last, hrun, hlast⟩ := ih (h.step hstep) (by omega) (by omega)
    exact ⟨last, by rw [repairSlots, hstep, Option.bind_some, hrun], hlast⟩

end Loop

/-! ### The repaired configuration -/

section Owner

variable {c : BridgeConfig} {s s' : Service}

theorem owner_congr (h : c.port s = c.port s') : owner c s = owner c s' := by
  unfold owner
  rw [h]

/-- Every value has an owner among those that hold it. -/
theorem exists_owner (c : BridgeConfig) (s : Service) :
    ∃ o, owner c s = some o ∧ c.port o = c.port s := by
  unfold owner
  dsimp only
  cases hdefault : (slots.filter fun s' => c.port s' = c.port s).find? fun s' =>
      c.port s' = BridgeConfig.default.port s' with
  | some o =>
    have hmem := List.mem_filter.1 (List.mem_of_find?_eq_some hdefault)
    exact ⟨o, rfl, of_decide_eq_true hmem.2⟩
  | none =>
    have hs : s ∈ slots.filter fun s' => c.port s' = c.port s :=
      List.mem_filter.2 ⟨mem_slots s, decide_eq_true rfl⟩
    obtain ⟨o, rest, hlist⟩ := List.exists_cons_of_ne_nil (List.ne_nil_of_mem hs)
    have ho : o ∈ slots.filter fun s' => c.port s' = c.port s := hlist ▸ List.mem_cons_self
    rw [hlist]
    exact ⟨o, rfl, of_decide_eq_true (List.mem_filter.1 ho).2⟩

theorem keep_iff : keep c s = true ↔ 1024 ≤ (c.port s).val ∧ owner c s = some s := by
  simp [keep]

theorem eq_of_keep (hs : keep c s = true) (hs' : keep c s' = true)
    (h : c.port s = c.port s') : s = s' := by
  have howner := (keep_iff.1 hs).2.symm.trans ((owner_congr h).trans (keep_iff.1 hs').2)
  exact Option.some.inj howner

theorem settled_start (c : BridgeConfig) :
    Settled c (keep c) slots ⟨c, (slots.filter (keep c)).map c.port, []⟩ := by
  have hkept : ∀ s, keep c s = true ∨ s ∉ slots → keep c s = true := fun s hs =>
    hs.resolve_right fun hnot => hnot (mem_slots s)
  refine ⟨?_, ?_, ?_, fun _ _ => rfl, rfl, rfl⟩
  · intro s hs
    exact List.mem_map_of_mem (List.mem_filter.2 ⟨mem_slots s, hkept s hs⟩)
  · intro s hs
    exact (keep_iff.1 (hkept s hs)).1
  · intro s s' hs hs' heq
    exact eq_of_keep (hkept s hs) (hkept s' hs') heq

end Owner

/-- What a repair of `c` may give: a configuration that is accepted, with other ports only
where they were too low or shared, and one holder of each valid value left. -/
structure Repaired (c c' : BridgeConfig) : Prop where
  accepted : validatePorts c' = .ok ()
  changed : ∀ s, c'.port s ≠ c.port s →
    (c.port s).val < 1024 ∨ ∃ s', s' ≠ s ∧ c.port s' = c.port s
  oneKept : ∀ p : Port, 1024 ≤ p.val → (∃ s, c.port s = p) →
    ∃! s, c.port s = p ∧ c'.port s = p
  enabled : c'.jmapEnabled = c.jmapEnabled ∧ c'.carddavEnabled = c.carddavEnabled

/-- **A repair ends and gives a valid configuration.** Sixteen used ports at most are met. -/
theorem repairPorts_spec (c : BridgeConfig) {fuel : Nat} (hfuel : 16 < fuel) :
    ∃ c' reset, repairPorts fuel c = some (c', reset) ∧ Repaired c c' := by
  have hused : ((slots.filter (keep c)).map c.port).length ≤ 8 := by
    rw [List.length_map]
    exact List.length_filter_le _ _
  have hslots : slots.length = 8 := rfl
  obtain ⟨r, hrun, hr⟩ := @exists_repairSlots c (keep c) fuel slots _ (settled_start c)
    (by dsimp only; omega) (by dsimp only; omega)
  have hall : ∀ s, keep c s = true ∨ s ∉ ([] : List Service) := fun _ => Or.inr List.not_mem_nil
  have hinj : Function.Injective r.config.port := fun s s' heq =>
    hr.distinct s s' (hall s) (hall s') heq
  refine ⟨r.config, r.reset, by rw [repairPorts, hrun]; rfl, ?_, ?_, ?_, hr.enabled⟩
  · exact (validatePorts_eq_ok_iff _).2 ⟨fun s => hr.valid s (hall s), hinj⟩
  · intro s hchanged
    have hnot : keep c s ≠ true := fun hkeep => hchanged (hr.same s hkeep)
    obtain ⟨o, howner, hport⟩ := exists_owner c s
    by_cases hlow : (c.port s).val < 1024
    · exact Or.inl hlow
    · refine Or.inr ⟨o, fun heq => hnot ?_, hport⟩
      exact keep_iff.2 ⟨Nat.not_lt.1 hlow, heq ▸ howner⟩
  · rintro p hp ⟨s, hs⟩
    obtain ⟨o, howner, hport⟩ := exists_owner c s
    have hkeep : keep c o = true :=
      keep_iff.2 ⟨hport ▸ hs ▸ hp, (owner_congr hport).trans howner⟩
    have ho : c.port o = p ∧ r.config.port o = p :=
      ⟨hport.trans hs, (hr.same o hkeep).trans (hport.trans hs)⟩
    exact ⟨o, ho, fun t ht => hinj (ht.2.trans ho.2.symm)⟩

end AsterBridge.Ports
