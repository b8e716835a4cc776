import AsterBridge.Crypto.InternalSend

/-!
# Who reads which body

`payload_recipients` keeps one of the addresses that are equal but for case;
`split_recipients_with` parts these into the ones everyone sees and the hidden ones;
`seal_shared_and_hidden` seals one body for the former and one for each of the latter.
-/

set_option autoImplicit false

namespace AsterBridge.Crypto

open AsterBridge.Lib AsterBridge.Lib.Text AsterBridge.Lib.Unicode

/-! ## Addresses that are equal but for case -/

theorem sameAddress_iff {a b : String} :
    sameAddress a b = true ↔ a.toList.map Char.toLower = b.toList.map Char.toLower := by
  simp [sameAddress, eqIgnoreAsciiCase]

theorem sameAddress_refl (a : String) : sameAddress a a = true := sameAddress_iff.2 rfl

theorem sameAddress_symm {a b : String} (h : sameAddress a b = true) : sameAddress b a = true :=
  sameAddress_iff.2 (sameAddress_iff.1 h).symm

theorem sameAddress_trans {a b c : String} (h : sameAddress a b = true)
    (h' : sameAddress b c = true) : sameAddress a c = true :=
  sameAddress_iff.2 ((sameAddress_iff.1 h).trans (sameAddress_iff.1 h'))

theorem lowered_of_sameAddress (T : CaseTables) {a b : String} (h : sameAddress a b = true) :
    lowered T a = lowered T b := by
  rw [lowered, lowered, T.toLowercase_congr (sameAddress_iff.1 h)]

theorem isEmpty_of_sameAddress {a b : String} (h : sameAddress a b = true) :
    a.isEmpty = b.isEmpty := by
  have hlength := congrArg List.length (sameAddress_iff.1 h)
  simp only [List.length_map] at hlength
  rw [Bool.eq_iff_iff, String.isEmpty_iff, String.isEmpty_iff, ← String.toList_eq_nil_iff,
    ← String.toList_eq_nil_iff, ← List.length_eq_zero_iff, ← List.length_eq_zero_iff, hlength]

@[simp] theorem trimmed_trimmed (a : String) : trimmed (trimmed a) = trimmed a := by
  simp [trimmed]

section FirstOfEach

variable {l out : List String} {a : String}

/-- The loop of `payload_recipients` from the addresses `out`. -/
def firstOfEachFrom (out l : List String) : List String :=
  l.foldl (fun out address => if out.any (sameAddress · address) then out else out ++ [address]) out

theorem mem_firstOfEachFrom_of_mem (h : a ∈ out) : a ∈ firstOfEachFrom out l := by
  induction l generalizing out with
  | nil => exact h
  | cons b l ih =>
      simp only [firstOfEachFrom, List.foldl_cons] at ih ⊢
      split
      · exact ih h
      · exact ih (List.mem_append_left _ h)

theorem mem_of_mem_firstOfEachFrom (h : a ∈ firstOfEachFrom out l) : a ∈ out ∨ a ∈ l := by
  induction l generalizing out with
  | nil => exact Or.inl h
  | cons b l ih =>
      simp only [firstOfEachFrom, List.foldl_cons] at ih h
      split at h
      · exact (ih h).imp_right (List.mem_cons_of_mem b)
      · rcases ih h with hout | hl
        · rcases List.mem_append.1 hout with hold | hnew
          · exact Or.inl hold
          · exact Or.inr (List.mem_singleton.1 hnew ▸ List.mem_cons_self)
        · exact Or.inr (List.mem_cons_of_mem b hl)

theorem firstOfEachFrom_cover (ha : a ∈ l) :
    ∃ b ∈ firstOfEachFrom out l, sameAddress b a = true := by
  induction l generalizing out with
  | nil => exact absurd ha List.not_mem_nil
  | cons c l ih =>
      rcases List.mem_cons.1 ha with rfl | htail
      · -- the address is taken, or is added now
        simp only [firstOfEachFrom, List.foldl_cons]
        split
        · rename_i hany
          obtain ⟨b, hb, hsame⟩ := List.any_eq_true.1 hany
          exact ⟨b, mem_firstOfEachFrom_of_mem hb, hsame⟩
        · refine ⟨a, mem_firstOfEachFrom_of_mem ?_, sameAddress_refl a⟩
          exact List.mem_append_right _ (List.mem_singleton.2 rfl)
      · simp only [firstOfEachFrom, List.foldl_cons]
        exact ih htail

theorem firstOfEachFrom_pairwise (h : out.Pairwise fun a b => sameAddress a b = false) :
    (firstOfEachFrom out l).Pairwise fun a b => sameAddress a b = false := by
  induction l generalizing out with
  | nil => exact h
  | cons c l ih =>
      simp only [firstOfEachFrom, List.foldl_cons] at ih ⊢
      split
      · exact ih h
      · rename_i hnone
        apply ih
        refine List.pairwise_append.2 ⟨h, List.pairwise_singleton _ _, ?_⟩
        intro a ha b hb
        obtain rfl := List.mem_singleton.1 hb
        simp only [List.any_eq_true, not_exists, not_and, Bool.not_eq_true] at hnone
        exact hnone a ha

end FirstOfEach

/-! ## The split of a payload -/

section Split

variable {T : CaseTables} {payload : Json} {hosted : HostedRecipients} {a b : String}

theorem trimmed_of_mem_fieldAddresses {field : String} (h : a ∈ fieldAddresses payload field) :
    trimmed a = a := by
  obtain ⟨hmap, -⟩ := List.mem_filter.1 h
  obtain ⟨text, -, rfl⟩ := List.mem_map.1 hmap
  exact trimmed_trimmed text

/-- An address is listed in a field. -/
def Listed (payload : Json) (fields : List String) (a : String) : Prop :=
  ∃ field ∈ fields, ∃ b ∈ fieldAddresses payload field, sameAddress b a = true

theorem Listed.congr {fields : List String} (h : Listed payload fields a)
    (hsame : sameAddress a b = true) : Listed payload fields b := by
  obtain ⟨field, hfield, c, hc, hca⟩ := h
  exact ⟨field, hfield, c, hc, sameAddress_trans hca hsame⟩

/-- `listed_in` says whether a trimmed address is listed. -/
theorem listedIn_iff {fields : List String} (htrim : trimmed a = a) (hne : a.isEmpty = false) :
    listedIn payload fields a = true ↔ Listed payload fields a := by
  simp only [listedIn, List.any_eq_true, htrim]
  constructor
  · rintro ⟨field, hfield, text, htext, hsame⟩
    refine ⟨field, hfield, trimmed text, List.mem_filter.2 ⟨List.mem_map_of_mem htext, ?_⟩, hsame⟩
    rw [isEmpty_of_sameAddress hsame, hne]
    rfl
  · rintro ⟨field, hfield, b, hb, hsame⟩
    obtain ⟨text, htext, rfl⟩ := List.mem_map.1 (List.mem_filter.1 hb).1
    exact ⟨field, hfield, text, htext, hsame⟩

theorem isAster_congr (ha : trimmed a = a) (hb : trimmed b = b) (h : sameAddress a b = true) :
    isAster T hosted a = isAster T hosted b := by
  have htrim : ∀ {c : String}, trimmed c = c → trim c.toList = c.toList := fun {c} hc => by
    simpa [trimmed] using congrArg String.toList hc
  have hinternal : isInternalAddress T a = isInternalAddress T b := by
    simp only [isInternalAddress, htrim ha, htrim hb, T.toLowercase_congr (sameAddress_iff.1 h)]
  have hhosted : hosted.contains a = hosted.contains b := by
    simp only [HostedRecipients.contains, ha, hb, sameAddress, eqIgnoreAsciiCase,
      sameAddress_iff.1 h]
  rw [isAster, isAster, hinternal, hhosted]

/-- A recipient of the payload, as `payload_recipients` gives it. -/
theorem mem_payloadRecipients (h : a ∈ payloadRecipients payload) :
    trimmed a = a ∧ a.isEmpty = false ∧
      ∃ field ∈ ["to", "cc", "bcc"], a ∈ fieldAddresses payload field := by
  rcases mem_of_mem_firstOfEachFrom h with hnil | hlist
  · exact absurd hnil List.not_mem_nil
  · obtain ⟨field, hfield, hmem⟩ := List.mem_flatMap.1 hlist
    refine ⟨trimmed_of_mem_fieldAddresses hmem, ?_, field, hfield, hmem⟩
    simpa using (List.mem_filter.1 hmem).2

theorem payloadRecipients_cover {field : String} (hfield : field ∈ ["to", "cc", "bcc"])
    (h : a ∈ fieldAddresses payload field) :
    ∃ b ∈ payloadRecipients payload, sameAddress b a = true :=
  firstOfEachFrom_cover (List.mem_flatMap.2 ⟨field, hfield, h⟩)

/-- The internal recipients are those listed anywhere. -/
theorem mem_internal (h : a ∈ (splitRecipientsWith T payload hosted).internal) :
    trimmed a = a ∧ a.isEmpty = false ∧ isAster T hosted a = true ∧
      ∃ field ∈ ["to", "cc", "bcc"], a ∈ fieldAddresses payload field := by
  obtain ⟨hmem, haster⟩ := List.mem_filter.1 h
  obtain ⟨htrim, hne, hfield⟩ := mem_payloadRecipients hmem
  exact ⟨htrim, hne, haster, hfield⟩

theorem internal_cover {field : String} (hfield : field ∈ ["to", "cc", "bcc"])
    (h : a ∈ fieldAddresses payload field) (haster : isAster T hosted a = true) :
    ∃ b ∈ (splitRecipientsWith T payload hosted).internal, sameAddress b a = true := by
  obtain ⟨b, hb, hsame⟩ := payloadRecipients_cover hfield h
  refine ⟨b, List.mem_filter.2 ⟨hb, ?_⟩, hsame⟩
  rw [isAster_congr (mem_payloadRecipients hb).1 (trimmed_of_mem_fieldAddresses h) hsame]
  exact haster

/-- The internal recipients that are listed as blind copies alone. -/
def BlindOnly (payload : Json) (a : String) : Prop :=
  Listed payload ["bcc"] a ∧ ¬ Listed payload ["to", "cc"] a

/-- An internal recipient is hidden if it is a blind copy alone, whichever spelling of its
address is in `hidden`. -/
theorem hidden_iff (h : a ∈ (splitRecipientsWith T payload hosted).internal) :
    (splitRecipientsWith T payload hosted).hidden.any (sameAddress · a) = true ↔
      BlindOnly payload a := by
  have hblind : ∀ {c}, c ∈ (splitRecipientsWith T payload hosted).internal →
      (c ∈ (splitRecipientsWith T payload hosted).hidden ↔ BlindOnly payload c) := by
    intro c hc
    obtain ⟨htrim, hne, -⟩ := mem_internal hc
    have hmem : c ∈ (splitRecipientsWith T payload hosted).hidden ↔
        (listedIn payload ["bcc"] c && !listedIn payload ["to", "cc"] c) = true := by
      refine List.mem_filter.trans ⟨And.right, fun hlisted => ⟨hc, hlisted⟩⟩
    rw [hmem, Bool.and_eq_true, Bool.not_eq_true', ← Bool.not_eq_true, listedIn_iff htrim hne,
      listedIn_iff htrim hne]
    rfl
  rw [List.any_eq_true]
  constructor
  · rintro ⟨c, hc, hsame⟩
    have hblindC := (hblind (List.mem_filter.1 hc).1).1 hc
    exact ⟨hblindC.1.congr hsame, fun hvisible => hblindC.2 (hvisible.congr (sameAddress_symm hsame))⟩
  · exact fun hblindA => ⟨a, (hblind h).2 hblindA, sameAddress_refl a⟩

end Split

/-! ## Sealed bodies -/

section Sealed

variable {T : CaseTables} {ρ : Type} {k : Sealer ρ}

/-- Whom a sealed body is for: an envelope names the recipients, with a message to the keys of
each; an armored text is for their account keys. -/
def SealedBody.SealedFor (T : CaseTables) (k : Sealer ρ) (rs : List RoutedRecipient) :
    SealedBody ρ → Prop
  | .envelope _ entries =>
      (∀ name, name ∈ entries.map Prod.fst ↔ ∃ r ∈ rs, lowered T r.address = name) ∧
        ∀ e ∈ entries, ∃ r ∈ rs, ∃ target, lowered T r.address = e.1 ∧
          r.route = .ratchet target ∧ k.bootstrap target = .ok e.2
  | .armored keys text => rs.map RoutedRecipient.accountKey = keys.map some ∧ k.armor keys = .ok text

theorem mem_insertEntry {β : Type} {map : List (String × β)} {entry e : String × β} :
    e ∈ insertEntry map entry ↔ (e ∈ map ∧ e.1 ≠ entry.1) ∨ e = entry := by
  simp [insertEntry, List.mem_append, List.mem_filter]

/-- A map made by insertions has the inserted keys, and nothing but inserted entries. -/
theorem foldl_insertEntry {β : Type} (map entries : List (String × β)) :
    (∀ name, name ∈ (entries.foldl insertEntry map).map Prod.fst ↔
        name ∈ map.map Prod.fst ∨ name ∈ entries.map Prod.fst) ∧
      ∀ e ∈ entries.foldl insertEntry map, e ∈ map ∨ e ∈ entries := by
  induction entries generalizing map with
  | nil => exact ⟨fun name => by simp, fun e he => Or.inl he⟩
  | cons entry entries ih =>
      obtain ⟨hkeys, hentries⟩ := ih (insertEntry map entry)
      have hinsert : ∀ name, name ∈ (insertEntry map entry).map Prod.fst ↔
          name ∈ map.map Prod.fst ∨ name = entry.1 := by
        intro name
        simp only [List.mem_map, mem_insertEntry]
        constructor
        · rintro ⟨e, ⟨hold, -⟩ | rfl, rfl⟩
          · exact Or.inl ⟨e, hold, rfl⟩
          · exact Or.inr rfl
        · rintro (⟨e, he, rfl⟩ | rfl)
          · by_cases hname : e.1 = entry.1
            · exact ⟨entry, Or.inr rfl, hname.symm⟩
            · exact ⟨e, Or.inl ⟨he, hname⟩, rfl⟩
          · exact ⟨entry, Or.inr rfl, rfl⟩
      refine ⟨fun name => ?_, fun e he => ?_⟩
      · rw [List.foldl_cons, hkeys, hinsert, List.map_cons, List.mem_cons, or_assoc]
      · rcases hentries e he with hold | hnew
        · rcases mem_insertEntry.1 hold with ⟨hmap, -⟩ | rfl
          · exact Or.inl hmap
          · exact Or.inr List.mem_cons_self
        · exact Or.inr (List.mem_cons_of_mem _ hnew)

/-- Each message of an envelope is for the recipient it stands beside. -/
theorem ratchetMessages_some {rs : List RoutedRecipient} {messages : List (String × ρ)}
    (h : ratchetMessages T k rs = .ok (some messages)) :
    messages.map Prod.fst = rs.map (fun r => lowered T r.address) ∧
      ∀ e ∈ messages, ∃ r ∈ rs, ∃ target, lowered T r.address = e.1 ∧
        r.route = .ratchet target ∧ k.bootstrap target = .ok e.2 := by
  induction rs generalizing messages with
  | nil =>
      obtain rfl : [] = messages := Option.some.inj (Except.ok.inj h)
      exact ⟨rfl, fun e he => absurd he List.not_mem_nil⟩
  | cons r rs ih =>
      unfold ratchetMessages at h
      split at h
      · exact absurd h (by simp)
      · rename_i target hroute
        split at h
        · exact absurd h (by simp)
        · rename_i message hmessage
          split at h
          · exact absurd h (by simp)
          · rename_i rest hrest
            obtain ⟨tail, rfl, rfl⟩ := Option.map_eq_some_iff.1 (Except.ok.inj h)
            obtain ⟨hnames, hall⟩ := ih hrest
            refine ⟨by rw [List.map_cons, List.map_cons, hnames], fun e he => ?_⟩
            rcases List.mem_cons.1 he with rfl | htail
            · exact ⟨r, List.mem_cons_self, target, rfl, hroute, hmessage⟩
            · obtain ⟨r', hr', hfor⟩ := hall e htail
              exact ⟨r', List.mem_cons_of_mem _ hr', hfor⟩

theorem mapM_recipientAccountKey {rs : List RoutedRecipient} {keys : List String}
    (h : rs.mapM recipientAccountKey = .ok keys) :
    rs.map RoutedRecipient.accountKey = keys.map some := by
  induction rs generalizing keys with
  | nil =>
      obtain rfl : [] = keys := Except.ok.inj h
      rfl
  | cons r rs ih =>
      simp only [List.mapM_cons, bind, Except.bind, recipientAccountKey] at h
      split at h
      · exact absurd h (by simp)
      · rename_i key hkey
        split at h
        · exact absurd h (by simp)
        · rename_i rest hrest
          obtain rfl : key :: rest = keys := Except.ok.inj h
          rw [List.map_cons, List.map_cons, ih hrest]
          split at hkey
          · rename_i key' hsome
            rw [hsome, Except.ok.inj hkey]
          · exact absurd hkey (by simp)

/-- **A sealed body is for the recipients it was sealed for.** -/
theorem sealRouted_sealedFor {rs : List RoutedRecipient} {body : SealedBody ρ}
    (h : sealRouted T k rs = .ok body) : body.SealedFor T k rs := by
  unfold sealRouted at h
  split at h
  · exact absurd h (by simp)
  · rename_i envelope henvelope
    obtain rfl := Except.ok.inj h
    unfold sealRatchetEnvelope at henvelope
    split at henvelope
    · exact absurd henvelope (by simp)
    · exact absurd henvelope (by simp)
    · exact absurd henvelope (by simp)
    · rename_i first rest hmessages
      obtain rfl := Option.some.inj (Except.ok.inj henvelope)
      obtain ⟨hnames, hall⟩ := ratchetMessages_some hmessages
      obtain ⟨hkeys, hentries⟩ := foldl_insertEntry [] (first :: rest)
      refine ⟨fun name => ?_, fun e he => ?_⟩
      · rw [hkeys, hnames]
        simp
      · exact hall e ((hentries e he).resolve_left List.not_mem_nil)
  · split at h
    · split at h
      · exact absurd h (by simp)
      · rename_i keys hkeys
        cases harmor : k.armor keys with
        | error e => simp [harmor, Except.map] at h
        | ok text =>
            rw [harmor] at h
            obtain rfl := Except.ok.inj h
            exact ⟨mapM_recipientAccountKey hkeys, harmor⟩
    · exact absurd h (by simp)

theorem sealEach_sealedFor {rs : List RoutedRecipient} {bodies : List (String × SealedBody ρ)}
    (h : sealEach T k rs = .ok bodies) :
    bodies.map Prod.fst = rs.map RoutedRecipient.address ∧
      ∀ e ∈ bodies, ∃ r ∈ rs, r.address = e.1 ∧ e.2.SealedFor T k [r] := by
  induction rs generalizing bodies with
  | nil =>
      obtain rfl : [] = bodies := Except.ok.inj h
      exact ⟨rfl, fun e he => absurd he List.not_mem_nil⟩
  | cons r rs ih =>
      unfold sealEach at h
      split at h
      · exact absurd h (by simp)
      · rename_i body hbody
        cases hrest : sealEach T k rs with
        | error e => simp [hrest, Except.map] at h
        | ok rest =>
            rw [hrest] at h
            obtain rfl := Except.ok.inj h
            obtain ⟨hnames, hall⟩ := ih hrest
            refine ⟨by rw [List.map_cons, List.map_cons, hnames], fun e he => ?_⟩
            rcases List.mem_cons.1 he with rfl | htail
            · exact ⟨r, List.mem_cons_self, rfl, sealRouted_sealedFor hbody⟩
            · obtain ⟨r', hr', hfor⟩ := hall e htail
              exact ⟨r', List.mem_cons_of_mem _ hr', hfor⟩

/-- Hidden or not, the routed recipients are parted by the hidden addresses. -/
theorem sealSharedAndHidden_parts {routed : List RoutedRecipient} {hidden : List String}
    {shared : SealedBody ρ} {bodies : List (String × SealedBody ρ)}
    (h : sealSharedAndHidden T k routed hidden = .ok (shared, bodies)) :
    sealRouted T k (routed.filter fun r => !hidden.any (sameAddress · r.address)) = .ok shared ∧
      sealEach T k (routed.filter fun r => hidden.any (sameAddress · r.address)) = .ok bodies := by
  unfold sealSharedAndHidden at h
  split at h
  · rename_i hempty
    obtain rfl : hidden = [] := List.isEmpty_iff.1 hempty
    cases hshared : sealRouted T k routed with
    | error e => simp [hshared, Except.map] at h
    | ok body =>
        rw [hshared] at h
        obtain ⟨rfl, rfl⟩ := Prod.mk.inj (Except.ok.inj h)
        simp only [List.any_nil, Bool.not_false, List.filter_true, List.filter_false]
        exact ⟨hshared, rfl⟩
  · dsimp only at h
    split at h
    · exact absurd h (by simp)
    · rename_i body hbody
      cases hbodies : sealEach T k (routed.filter fun r => hidden.any (sameAddress · r.address)) with
      | error e => simp [hbodies, Except.map] at h
      | ok rest =>
          rw [hbodies] at h
          obtain ⟨rfl, rfl⟩ := Prod.mk.inj (Except.ok.inj h)
          exact ⟨hbody, rfl⟩

/-- Who reads which body of a payload. -/
structure BlindCopiesKept (T : CaseTables) (k : Sealer ρ) (payload : Json)
    (hosted : HostedRecipients) (shared : SealedBody ρ) (bodies : List (String × SealedBody ρ)) :
    Prop where
  /-- The shared body is for the internal addresses in `to` or `cc`. -/
  shared : ∃ rs, shared.SealedFor T k rs ∧ ∀ a, (∃ r ∈ rs, sameAddress r.address a = true) ↔
    ∃ b ∈ fieldAddresses payload "to" ++ fieldAddresses payload "cc",
      isAster T hosted b = true ∧ sameAddress b a = true
  /-- Each internal address that is a blind copy alone has a body of its own. -/
  hidden : ∀ a ∈ fieldAddresses payload "bcc", isAster T hosted a = true → BlindOnly payload a →
    ∃ e ∈ bodies, sameAddress e.1 a = true
  /-- A single body is for its address alone, which is a blind copy alone. -/
  single : ∀ e ∈ bodies, BlindOnly payload e.1 ∧ isAster T hosted e.1 = true ∧
    ∃ r, r.address = e.1 ∧ e.2.SealedFor T k [r]
  /-- No two single bodies are for one address. -/
  apart : bodies.Pairwise fun e e' => sameAddress e.1 e'.1 = false
  /-- In the map of the payload a single body stands under the address in lower case. -/
  map : ∀ e ∈ bodies, ∃ e' ∈ recipientBodies T bodies, e'.1 = lowered T e.1 ∧
    ∃ e'' ∈ bodies, e''.2 = e'.2 ∧ lowered T e''.1 = e'.1

theorem listed_iff {payload : Json} {fields : List String} {a : String} :
    Listed payload fields a ↔
      ∃ b ∈ fields.flatMap (fieldAddresses payload), sameAddress b a = true := by
  simp only [Listed, List.mem_flatMap]
  constructor
  · rintro ⟨field, hfield, b, hb, hsame⟩
    exact ⟨b, ⟨field, hfield, hb⟩, hsame⟩
  · rintro ⟨b, ⟨field, hfield, hb⟩, hsame⟩
    exact ⟨field, hfield, b, hb, hsame⟩

/-- An internal recipient is a blind copy alone, or listed in `to` or `cc`. -/
theorem not_blindOnly_iff {payload : Json} {hosted : HostedRecipients} {a : String}
    (h : a ∈ (splitRecipientsWith T payload hosted).internal) :
    ¬ BlindOnly payload a ↔ Listed payload ["to", "cc"] a := by
  constructor
  · intro hnot
    by_contra hvisible
    obtain ⟨-, -, -, field, hfield, hmem⟩ := mem_internal h
    have hself : Listed payload [field] a :=
      ⟨field, List.mem_singleton.2 rfl, a, hmem, sameAddress_refl a⟩
    rcases List.mem_cons.1 hfield with rfl | hfield
    · exact hvisible ⟨"to", by simp, a, hmem, sameAddress_refl a⟩
    · rcases List.mem_cons.1 hfield with rfl | hfield
      · exact hvisible ⟨"cc", by simp, a, hmem, sameAddress_refl a⟩
      · obtain rfl := List.mem_singleton.1 hfield
        exact hnot ⟨hself, hvisible⟩
  · exact fun hvisible hblind => hblind.2 hvisible

/-- The internal recipients with the routes that were found for them. -/
def routedFor (route : String → SendRoute) (accountKey : String → Option String)
    (internal : List String) : List RoutedRecipient :=
  internal.map fun address => ⟨address, route address, accountKey address⟩

/-- **Blind copies stay blind**: for every payload and every set of hosted recipients. -/
theorem sealSharedAndHidden_kept {payload : Json} {hosted : HostedRecipients}
    {route : String → SendRoute} {accountKey : String → Option String} {shared : SealedBody ρ}
    {bodies : List (String × SealedBody ρ)}
    (h : sealSharedAndHidden T k
      (routedFor route accountKey (splitRecipientsWith T payload hosted).internal)
      (splitRecipientsWith T payload hosted).hidden = .ok (shared, bodies)) :
    BlindCopiesKept T k payload hosted shared bodies := by
  obtain ⟨hshared, hbodies⟩ := sealSharedAndHidden_parts h
  obtain ⟨hnames, hsingle⟩ := sealEach_sealedFor hbodies
  have hinternal : ∀ r ∈ routedFor route accountKey (splitRecipientsWith T payload hosted).internal,
      r.address ∈ (splitRecipientsWith T payload hosted).internal := by
    intro r hr
    obtain ⟨a, ha, rfl⟩ := List.mem_map.1 hr
    exact ha
  have hrouted : ∀ a ∈ (splitRecipientsWith T payload hosted).internal,
      ∃ r ∈ routedFor route accountKey (splitRecipientsWith T payload hosted).internal,
        r.address = a := fun a ha => ⟨_, List.mem_map_of_mem ha, rfl⟩
  have hsingleBody : ∀ e ∈ bodies, BlindOnly payload e.1 ∧ isAster T hosted e.1 = true ∧
      ∃ r, r.address = e.1 ∧ e.2.SealedFor T k [r] := by
    intro e he
    obtain ⟨r, hr, haddress, hfor⟩ := hsingle e he
    obtain ⟨hmem, hhidden⟩ := List.mem_filter.1 hr
    have ha := hinternal r hmem
    exact ⟨haddress ▸ (hidden_iff ha).1 hhidden, haddress ▸ (mem_internal ha).2.2.1, r, haddress, hfor⟩
  refine ⟨⟨_, sealRouted_sealedFor hshared, fun a => ?_⟩, fun a ha haster hblind => ?_,
    hsingleBody, ?_, fun e he => ?_⟩
  · constructor
    · rintro ⟨r, hr, hsame⟩
      obtain ⟨hmem, hshown⟩ := List.mem_filter.1 hr
      have hr' := hinternal r hmem
      have hnot : ¬ BlindOnly payload r.address := by
        rw [← hidden_iff hr']
        simpa using hshown
      obtain ⟨b, hb, hbr⟩ := listed_iff.1 ((not_blindOnly_iff hr').1 hnot)
      have hb' : b ∈ fieldAddresses payload "to" ++ fieldAddresses payload "cc" := by simpa using hb
      have htrim : trimmed b = b := by
        rcases List.mem_append.1 hb' with hto | hcc
        · exact trimmed_of_mem_fieldAddresses hto
        · exact trimmed_of_mem_fieldAddresses hcc
      refine ⟨b, hb', ?_, sameAddress_trans hbr hsame⟩
      rw [isAster_congr htrim (mem_internal hr').1 hbr]
      exact (mem_internal hr').2.2.1
    · rintro ⟨b, hb, haster, hsame⟩
      have hfield : ∃ field ∈ ["to", "cc"], b ∈ fieldAddresses payload field := by
        rcases List.mem_append.1 hb with hto | hcc
        · exact ⟨"to", by simp, hto⟩
        · exact ⟨"cc", by simp, hcc⟩
      obtain ⟨field, hfield, hb⟩ := hfield
      have hfields : field ∈ ["to", "cc", "bcc"] := by
        simp only [List.mem_cons, List.not_mem_nil, or_false] at hfield ⊢
        exact hfield.elim Or.inl fun h => Or.inr (Or.inl h)
      obtain ⟨c, hc, hcb⟩ := internal_cover hfields hb haster
      obtain ⟨r, hr, rfl⟩ := hrouted c hc
      refine ⟨r, List.mem_filter.2 ⟨hr, ?_⟩, sameAddress_trans hcb hsame⟩
      rw [Bool.not_eq_true', ← Bool.not_eq_true, hidden_iff hc, not_blindOnly_iff hc]
      exact ⟨field, hfield, b, hb, sameAddress_symm hcb⟩
  · obtain ⟨c, hc, hca⟩ := internal_cover (by simp) ha haster
    have hblindC : BlindOnly payload c :=
      ⟨hblind.1.congr (sameAddress_symm hca), fun hvisible => hblind.2 (hvisible.congr hca)⟩
    obtain ⟨r, hr, rfl⟩ := hrouted c hc
    have hmem : r.address ∈ bodies.map Prod.fst := by
      rw [hnames]
      apply List.mem_map_of_mem
      exact List.mem_filter.2 ⟨hr, (hidden_iff hc).2 hblindC⟩
    obtain ⟨e, he, heq⟩ := List.mem_map.1 hmem
    exact ⟨e, he, heq ▸ hca⟩
  · -- the recipients were made different by `payload_recipients`
    have hpairwise : (bodies.map Prod.fst).Pairwise fun a b => sameAddress a b = false := by
      rw [hnames, routedFor, List.filter_map, List.map_map]
      refine List.Pairwise.map _ (fun _ _ h => h) ?_
      apply List.Pairwise.filter
      apply List.Pairwise.filter
      exact firstOfEachFrom_pairwise List.Pairwise.nil
    exact List.pairwise_map.1 hpairwise
  · have hlower : ∀ e ∈ bodies, lowered T (trimmed e.1) = lowered T e.1 := by
      intro e he
      obtain ⟨r, hr, haddress, -⟩ := hsingle e he
      rw [← haddress, (mem_internal (hinternal r (List.mem_filter.1 hr).1)).1]
    obtain ⟨hkeys, hentries⟩ :=
      foldl_insertEntry [] (bodies.map fun e => (lowered T (trimmed e.1), e.2))
    have hmap : recipientBodies T bodies =
        (bodies.map fun e => (lowered T (trimmed e.1), e.2)).foldl insertEntry [] := by
      rw [recipientBodies, List.foldl_map]
    rw [hmap]
    have hkey : lowered T e.1 ∈ ((bodies.map fun e =>
        (lowered T (trimmed e.1), e.2)).foldl insertEntry []).map Prod.fst := by
      rw [hkeys, List.map_map]
      exact Or.inr (List.mem_map.2 ⟨e, he, hlower e he⟩)
    obtain ⟨e', he', hname⟩ := List.mem_map.1 hkey
    obtain ⟨e'', he'', heq⟩ := List.mem_map.1 ((hentries e' he').resolve_left List.not_mem_nil)
    refine ⟨e', he', hname, e'', he'', ?_, ?_⟩
    · rw [← heq]
    · rw [← hlower e'' he'', ← heq]

end Sealed

end AsterBridge.Crypto
