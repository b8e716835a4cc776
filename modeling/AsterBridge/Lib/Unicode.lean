import AsterBridge.Lib.Text

/-!
# Lower case

`str::to_lowercase` over the tables of the Unicode Character Database. The tables are a
parameter with the facts about ASCII that they state; `CaseTables.ascii` is the smallest
instance. Only the final sigma looks at its neighbours, and it looks no further than a
separator (`toLowercase_separator`).
-/

set_option autoImplicit false

namespace AsterBridge.Lib.Unicode

/-- A fact about every ASCII character, from the table of them. -/
theorem ascii_forall {P : Char → Prop} (h : ∀ n : Fin 0x80, P (Char.ofNat n)) {c : Char}
    (hc : c.toNat < 0x80) : P c := by
  have hnat := h ⟨c.toNat, hc⟩
  rwa [Char.ofNat_toNat] at hnat

theorem toUpper_of_not_ascii {c : Char} (h : 0x80 ≤ c.toNat) : c.toUpper = c := by
  unfold Char.toUpper
  refine dif_neg fun hlower => ?_
  have hz : c.toNat ≤ 'z'.toNat := UInt32.le_iff_toNat_le.1 hlower.2
  have hlimit : 'z'.toNat < 0x80 := by decide
  omega

theorem toLower_of_not_isUpper {c : Char} (hc : c.toNat < 0x80) (h : c.isUpper = false) :
    c.toLower = c :=
  ascii_forall (P := fun c => c.isUpper = false → c.toLower = c) (by decide +kernel) hc h

theorem isUpper_eq (c : Char) :
    c.isUpper = decide (c.val ≥ 'A'.val ∧ c.val ≤ 'Z'.val) := rfl

theorem isLower_eq (c : Char) :
    c.isLower = (decide (c.val ≥ 'a'.val) && decide (c.val ≤ 'z'.val)) := rfl

theorem isAlpha_eq (c : Char) : c.isAlpha = (c.isUpper || c.isLower) := rfl

theorem isAlpha_toLower {c : Char} (hc : c.toNat < 0x80) : c.toLower.isAlpha = c.isAlpha :=
  ascii_forall (P := fun c => c.toLower.isAlpha = c.isAlpha) (by decide +kernel) hc

/-- Characters with one ASCII lower case are equal, or ASCII letters. -/
theorem eq_or_isAlpha_of_toLower_eq {c d : Char} (h : c.toLower = d.toLower) :
    c = d ∨ (c.toNat < 0x80 ∧ c.isAlpha = true ∧ d.toNat < 0x80 ∧ d.isAlpha = true) := by
  have hupper : ∀ c : Char, c.isUpper = true → c.toNat < 0x80 := by
    intro c hc
    simp only [isUpper_eq, decide_eq_true_eq] at hc
    exact Nat.lt_of_le_of_lt (UInt32.le_iff_toNat_le.1 hc.2) (by decide)
  have hsame : ∀ c : Char, c.isUpper = false → c.toLower = c := by
    intro c hc
    simp only [isUpper_eq, decide_eq_false_iff_not] at hc
    unfold Char.toLower
    rw [dif_neg hc]
  have hletter : ∀ c : Char, c.isUpper = true →
      c.isAlpha = true ∧ c.toLower.toNat < 0x80 ∧ c.toLower.isAlpha = true := fun c hc =>
    ascii_forall (P := fun c => c.isUpper = true →
      c.isAlpha = true ∧ c.toLower.toNat < 0x80 ∧ c.toLower.isAlpha = true)
      (by decide +kernel) (hupper c hc) hc
  cases hc : c.isUpper with
  | true =>
      refine Or.inr ⟨hupper c hc, (hletter c hc).1, ?_⟩
      cases hd : d.isUpper with
      | true => exact ⟨hupper d hd, (hletter d hd).1⟩
      | false =>
          rw [hsame d hd] at h
          exact h ▸ (hletter c hc).2
  | false =>
      cases hd : d.isUpper with
      | true =>
          rw [hsame c hc] at h
          refine Or.inr ⟨?_, ?_, hupper d hd, (hletter d hd).1⟩
          · exact h ▸ (hletter d hd).2.1
          · exact h ▸ (hletter d hd).2.2
      | false =>
          rw [hsame c hc, hsame d hd] at h
          exact Or.inl h

/-- Full lower case mapping and the properties Cased and Case_Ignorable. -/
structure CaseTables where
  lower : Char → List Char
  cased : Char → Bool
  caseIgnorable : Char → Bool
  lower_ascii : ∀ c : Char, c.toNat < 0x80 → lower c = [c.toLower]
  cased_ascii : ∀ c : Char, c.toNat < 0x80 → cased c = c.isAlpha
  caseIgnorable_ascii : ∀ c : Char, c.toNat < 0x80 →
    caseIgnorable c = ['\'', '.', ':', '^', '`'].contains c
  lower_beyond : ∀ c d : Char, 0x80 ≤ c.toNat → d ∈ lower c → d.toNat < 0x80 → d.isAlpha = true

namespace CaseTables

/-- Case for ASCII letters only. -/
def ascii : CaseTables where
  lower c := if c.toNat < 0x80 then [c.toLower] else [c]
  cased c := c.toNat < 0x80 && c.isAlpha
  caseIgnorable c := ['\'', '.', ':', '^', '`'].contains c
  lower_ascii c h := if_pos h
  cased_ascii c h := by simp [h]
  caseIgnorable_ascii _ _ := rfl
  lower_beyond c d h hd hlt := by
    rw [if_neg (Nat.not_lt.2 h)] at hd
    obtain rfl := List.mem_singleton.1 hd
    omega

variable (T : CaseTables)

/-- `case_ignorable_then_cased` -/
def caseIgnorableThenCased (cs : List Char) : Bool :=
  (cs.dropWhile T.caseIgnorable).head?.any T.cased

/-- The lower case of a sigma between the text before it, read backwards, and the text after
it. -/
def lowerSigma (before rest : List Char) : Char :=
  if T.caseIgnorableThenCased before && !T.caseIgnorableThenCased rest then 'ς' else 'σ'

/-- The loop of `to_lowercase`, after the text `before` in reverse. -/
def lowercaseFrom (before : List Char) : List Char → List Char
  | [] => []
  | c :: rest =>
      (if c = 'Σ' then [T.lowerSigma before rest] else T.lower c) ++ lowercaseFrom (c :: before) rest

/-- `to_lowercase` -/
def toLowercase (cs : List Char) : List Char := T.lowercaseFrom [] cs

/-- A character that neither has case nor is skipped in the search for one. -/
structure Separator (c : Char) : Prop where
  notCased : T.cased c = false
  notIgnorable : T.caseIgnorable c = false
  notSigma : c ≠ 'Σ'
  lower : T.lower c = [c]

/-- ASCII characters other than letters and the ignorable five are separators. -/
theorem separator_of_ascii {c : Char} (h : c.toNat < 0x80) (halpha : c.isAlpha = false)
    (hother : ['\'', '.', ':', '^', '`'].contains c = false) : T.Separator c where
  notCased := (T.cased_ascii c h).trans halpha
  notIgnorable := (T.caseIgnorable_ascii c h).trans hother
  notSigma := by
    rintro rfl
    exact absurd h (by decide)
  lower := by
    rw [T.lower_ascii c h, toLower_of_not_isUpper h]
    simp only [isAlpha_eq, Bool.or_eq_false_iff] at halpha
    exact halpha.1

variable {T} {c : Char}

/-- The search for a cased character ends at a separator. -/
theorem caseIgnorableThenCased_separator (h : T.Separator c) (xs ys : List Char) :
    T.caseIgnorableThenCased (xs ++ c :: ys) = T.caseIgnorableThenCased xs := by
  induction xs with
  | nil => simp [caseIgnorableThenCased, h.notIgnorable, h.notCased]
  | cons x xs ih =>
      simp only [caseIgnorableThenCased] at ih ⊢
      rw [List.cons_append, List.dropWhile_cons, List.dropWhile_cons]
      split
      · exact ih
      · rfl

/-- Nothing before a separator changes what follows it. -/
theorem lowercaseFrom_separator (h : T.Separator c) (zs before ys : List Char) :
    T.lowercaseFrom (zs ++ c :: before) ys = T.lowercaseFrom zs ys := by
  induction ys generalizing zs with
  | nil => rfl
  | cons y ys ih =>
      rw [lowercaseFrom, lowercaseFrom, ← List.cons_append, ih]
      simp only [lowerSigma, caseIgnorableThenCased_separator h]

/-- **Lower case splits at a separator.** -/
theorem toLowercase_separator (h : T.Separator c) (xs ys : List Char) :
    T.toLowercase (xs ++ c :: ys) = T.toLowercase xs ++ c :: T.toLowercase ys := by
  have hfrom : ∀ before, T.lowercaseFrom before (xs ++ c :: ys) =
      T.lowercaseFrom before xs ++ c :: T.toLowercase ys := by
    induction xs with
    | nil =>
        intro before
        simp only [List.nil_append, lowercaseFrom, if_neg h.notSigma, h.lower, List.cons_append]
        exact congrArg (c :: ·) (lowercaseFrom_separator h [] before ys)
    | cons x xs ih =>
        intro before
        rw [List.cons_append, lowercaseFrom, lowercaseFrom, ih]
        simp only [lowerSigma, caseIgnorableThenCased_separator h, List.append_assoc]
  exact hfrom []

/-- ASCII text has the lower case of its letters. -/
theorem toLowercase_ascii {cs : List Char} (h : ∀ c ∈ cs, c.toNat < 0x80) :
    T.toLowercase cs = cs.map Char.toLower := by
  have hfrom : ∀ before, T.lowercaseFrom before cs = cs.map Char.toLower := by
    induction cs with
    | nil =>
        intro before
        rfl
    | cons c cs ih =>
        intro before
        have hc := h c List.mem_cons_self
        have hsigma : c ≠ 'Σ' := by
          rintro rfl
          exact absurd hc (by decide)
        rw [lowercaseFrom, if_neg hsigma, T.lower_ascii c hc,
          ih fun d hd => h d (List.mem_cons_of_mem _ hd)]
        rfl
  exact hfrom []

theorem caseIgnorable_of_isAlpha (T : CaseTables) {c : Char} (hc : c.toNat < 0x80)
    (halpha : c.isAlpha = true) : T.caseIgnorable c = false := by
  rw [T.caseIgnorable_ascii c hc]
  exact ascii_forall (P := fun c => c.isAlpha = true →
    ['\'', '.', ':', '^', '`'].contains c = false) (by decide +kernel) hc halpha

/-- What `to_lowercase` reads of a character, it reads of its ASCII lower case. -/
theorem tables_congr (T : CaseTables) {c d : Char} (h : c.toLower = d.toLower) :
    T.lower c = T.lower d ∧ T.cased c = T.cased d ∧ T.caseIgnorable c = T.caseIgnorable d ∧
      (c = 'Σ' ↔ d = 'Σ') := by
  rcases eq_or_isAlpha_of_toLower_eq h with rfl | ⟨hc, hcalpha, hd, hdalpha⟩
  · exact ⟨rfl, rfl, rfl, Iff.rfl⟩
  · have hsigma : ∀ c : Char, c.toNat < 0x80 → c ≠ 'Σ' := by
      rintro c hlt rfl
      exact absurd hlt (by decide)
    refine ⟨?_, ?_, ?_, iff_of_false (hsigma c hc) (hsigma d hd)⟩
    · rw [T.lower_ascii c hc, T.lower_ascii d hd, h]
    · rw [T.cased_ascii c hc, T.cased_ascii d hd, hcalpha, hdalpha]
    · rw [caseIgnorable_of_isAlpha T hc hcalpha, caseIgnorable_of_isAlpha T hd hdalpha]

theorem caseIgnorableThenCased_congr (T : CaseTables) {xs ys : List Char}
    (h : xs.map Char.toLower = ys.map Char.toLower) :
    T.caseIgnorableThenCased xs = T.caseIgnorableThenCased ys := by
  induction xs generalizing ys with
  | nil =>
      cases ys with
      | nil => rfl
      | cons y ys => exact absurd h (by simp)
  | cons x xs ih =>
      cases ys with
      | nil => exact absurd h (by simp)
      | cons y ys =>
          obtain ⟨hhead, htail⟩ := List.cons.inj h
          obtain ⟨-, hcased, hignorable, -⟩ := tables_congr T hhead
          have hrest := ih htail
          simp only [caseIgnorableThenCased, List.dropWhile_cons, hignorable] at hrest ⊢
          split
          · exact hrest
          · exact hcased

/-- **Texts that are equal but for ASCII case have one lower case.** -/
theorem toLowercase_congr (T : CaseTables) {xs ys : List Char}
    (h : xs.map Char.toLower = ys.map Char.toLower) : T.toLowercase xs = T.toLowercase ys := by
  have hfrom : ∀ before before' : List Char, before.map Char.toLower = before'.map Char.toLower →
      T.lowercaseFrom before xs = T.lowercaseFrom before' ys := by
    induction xs generalizing ys with
    | nil =>
        cases ys with
        | nil => exact fun _ _ _ => rfl
        | cons y ys => exact absurd h (by simp)
    | cons x xs ih =>
        cases ys with
        | nil => exact absurd h (by simp)
        | cons y ys =>
            intro before before' hbefore
            obtain ⟨hhead, htail⟩ := List.cons.inj h
            obtain ⟨hlower, -, -, hsigma⟩ := tables_congr T hhead
            have hrest := ih htail (x :: before) (y :: before') (by simp [hhead, hbefore])
            have hsame : T.lowerSigma before xs = T.lowerSigma before' ys := by
              simp only [lowerSigma, caseIgnorableThenCased_congr T hbefore,
                caseIgnorableThenCased_congr T htail]
            simp only [lowercaseFrom, hsigma, hsame, hlower, hrest]
  exact hfrom [] [] rfl

/-- A separator of ASCII is in the lower case of a text only if it is in the text. -/
theorem mem_of_mem_toLowercase {cs : List Char} {d : Char} (hd : d.toNat < 0x80)
    (halpha : d.isAlpha = false) (h : d ∈ T.toLowercase cs) : d ∈ cs := by
  have hfrom : ∀ before, d ∈ T.lowercaseFrom before cs → d ∈ cs := by
    clear h
    induction cs with
    | nil => exact fun _ hmem => hmem
    | cons c cs ih =>
        intro before hmem
        rw [lowercaseFrom, List.mem_append] at hmem
        rcases hmem with hhead | htail
        · split at hhead
          · -- neither form of the sigma is ASCII
            obtain rfl := List.mem_singleton.1 hhead
            unfold lowerSigma at hd
            split at hd <;> exact absurd hd (by decide)
          · by_cases hc : c.toNat < 0x80
            · rw [T.lower_ascii c hc] at hhead
              obtain rfl := List.mem_singleton.1 hhead
              by_cases hupper : c.isUpper = true
              · rw [isAlpha_toLower hc] at halpha
                simp [isAlpha_eq, hupper] at halpha
              · rw [toLower_of_not_isUpper hc (by simpa using hupper)]
                exact List.mem_cons_self
            · rw [T.lower_beyond c d (Nat.not_lt.1 hc) hhead hd] at halpha
              exact absurd halpha (by decide)
        · exact List.mem_cons_of_mem _ (ih _ htail)
  exact hfrom [] h

end CaseTables

/-! ## Upper case -/

/-- Case tables with the full upper case mapping. -/
structure CaseMaps extends CaseTables where
  upper : Char → List Char
  upper_ascii : ∀ c : Char, c.toNat < 0x80 → upper c = [c.toUpper]

namespace CaseMaps

/-- Case for ASCII letters only. -/
def ascii : CaseMaps where
  toCaseTables := CaseTables.ascii
  upper c := if c.toNat < 0x80 then [c.toUpper] else [c]
  upper_ascii _ h := if_pos h

/-- `to_uppercase` -/
def toUppercase (T : CaseMaps) (cs : List Char) : List Char := cs.flatMap T.upper

/-- ASCII text has the upper case of its letters. -/
theorem toUppercase_ascii (T : CaseMaps) {cs : List Char} (h : ∀ c ∈ cs, c.toNat < 0x80) :
    T.toUppercase cs = cs.map Char.toUpper := by
  induction cs with
  | nil => rfl
  | cons c cs ih =>
      rw [toUppercase, List.flatMap_cons, T.upper_ascii c (h c List.mem_cons_self), List.map_cons,
        ← ih fun d hd => h d (List.mem_cons_of_mem _ hd)]
      rfl

end CaseMaps

end AsterBridge.Lib.Unicode
