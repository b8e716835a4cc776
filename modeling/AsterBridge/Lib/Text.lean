import Mathlib.Data.List.DropRight
import Mathlib.Tactic

/-!
# Text functions of the standard library

Character classes, trimming, search and number parsing as the Rust standard library has
them, on lists of characters and strings. `parseInt_toString` reads back what `toString` wrote.
-/

set_option autoImplicit false

namespace AsterBridge.Lib.Text

/-- `char::is_control`: the general category Cc. -/
def isControl (c : Char) : Bool :=
  c.toNat < 0x20 || (0x7F ≤ c.toNat && c.toNat ≤ 0x9F)

/-- `char::is_whitespace`: the property White_Space. -/
def isWhitespace (c : Char) : Bool :=
  (0x9 ≤ c.toNat && c.toNat ≤ 0xD) || c.toNat == 0x20 || c.toNat == 0x85 || c.toNat == 0xA0 ||
    c.toNat == 0x1680 || (0x2000 ≤ c.toNat && c.toNat ≤ 0x200A) || c.toNat == 0x2028 ||
    c.toNat == 0x2029 || c.toNat == 0x202F || c.toNat == 0x205F || c.toNat == 0x3000

/-- `str::trim_start`. -/
def trimStart (cs : List Char) : List Char := cs.dropWhile isWhitespace

/-- `str::trim_end`. -/
def trimEnd (cs : List Char) : List Char := cs.rdropWhile isWhitespace

/-- `str::trim`. -/
def trim (cs : List Char) : List Char := trimEnd (trimStart cs)

/-- `str::eq_ignore_ascii_case`. -/
def eqIgnoreAsciiCase (s t : List Char) : Bool := s.map Char.toLower == t.map Char.toLower

/-- The position of the first occurrence of `needle`. -/
def find {α : Type} [BEq α] (needle : List α) : List α → Option Nat
  | [] => if needle.isEmpty then some 0 else none
  | x :: xs =>
      if needle.isPrefixOf (x :: xs) then some 0 else (find needle xs).map (· + 1)

/-- `str::contains`, also on bytes. -/
def contains {α : Type} [BEq α] (text needle : List α) : Bool := (find needle text).isSome

/-- A needle is found where its first element is for the first time. -/
theorem find_append {α : Type} [BEq α] [LawfulBEq α] {c : α} {needle before rest : List α}
    (h : c ∉ before) :
    find (c :: needle) (before ++ (c :: needle ++ rest)) = some before.length := by
  induction before with
  | nil =>
      rw [List.nil_append, List.cons_append, find, if_pos]
      · rfl
      · rw [List.isPrefixOf_iff_prefix, ← List.cons_append]
        exact List.prefix_append _ _
  | cons d before ih =>
      simp only [List.mem_cons, not_or] at h
      have hfirst : (c :: needle).isPrefixOf (d :: (before ++ (c :: needle ++ rest))) = false := by
        rw [List.isPrefixOf_cons_cons, beq_false_of_ne h.1, Bool.false_and]
      rw [List.cons_append, find, hfirst, ih h.2]
      rfl

/-- `str::rfind` of a character. -/
def rfind (c : Char) : List Char → Option Nat
  | [] => none
  | d :: ds =>
      match rfind c ds with
      | some i => some (i + 1)
      | none => if d = c then some 0 else none

section RFind

variable {c : Char} {xs ys : List Char} {i : Nat}

theorem rfind_of_not_mem (h : c ∉ xs) : rfind c xs = none := by
  induction xs with
  | nil => rfl
  | cons d xs ih =>
      simp only [List.mem_cons, not_or] at h
      rw [rfind, ih h.2]
      exact if_neg (Ne.symm h.1)

/-- The last `c` is the one that no other follows. -/
theorem rfind_append_cons (h : c ∉ ys) : rfind c (xs ++ c :: ys) = some xs.length := by
  induction xs with
  | nil => rw [List.nil_append, rfind, rfind_of_not_mem h, if_pos rfl]; rfl
  | cons d xs ih => rw [List.cons_append, rfind, ih]; rfl

theorem rfind_append_of_some (xs : List Char) (h : rfind c ys = some i) :
    rfind c (xs ++ ys) = some (xs.length + i) := by
  induction xs with
  | nil => rw [List.nil_append, h, List.length_nil, Nat.zero_add]
  | cons d xs ih => rw [List.cons_append, rfind, ih, List.length_cons, Nat.add_right_comm]

theorem rfind_append_of_none (xs : List Char) (h : rfind c ys = none) :
    rfind c (xs ++ ys) = rfind c xs := by
  induction xs with
  | nil => exact h
  | cons d xs ih => rw [List.cons_append, rfind, ih, rfind]

theorem rfind_lt (h : rfind c ys = some i) : i < ys.length := by
  induction ys generalizing i with
  | nil => exact nomatch h
  | cons d ys ih =>
      rw [rfind] at h
      cases hrest : rfind c ys with
      | some j =>
          rw [hrest] at h
          obtain rfl := Option.some.inj h
          exact Nat.succ_lt_succ (ih hrest)
      | none =>
          rw [hrest] at h
          dsimp only at h
          split at h
          · obtain rfl := Option.some.inj h
            exact Nat.succ_pos _
          · exact nomatch h

end RFind

section Cut

variable {α : Type} {c : α} {x y s t : List α}

/-- A list is cut in one way at the first `c`. -/
theorem cut_first (hx : c ∉ x) (hy : c ∉ y) (h : x ++ c :: s = y ++ c :: t) : x = y ∧ s = t := by
  induction x generalizing y with
  | nil =>
      cases y with
      | nil => exact ⟨rfl, (List.cons.inj h).2⟩
      | cons d y => exact absurd List.mem_cons_self ((List.cons.inj h).1 ▸ hy)
  | cons b x ih =>
      cases y with
      | nil => exact absurd List.mem_cons_self ((List.cons.inj h).1 ▸ hx)
      | cons d y =>
          obtain ⟨rfl, htail⟩ := List.cons.inj h
          simp only [List.mem_cons, not_or] at hx hy
          obtain ⟨rfl, rfl⟩ := ih hx.2 hy.2 htail
          exact ⟨rfl, rfl⟩

/-- A list is cut in one way at the last `c`. -/
theorem cut_last (hs : c ∉ s) (ht : c ∉ t) (h : x ++ c :: s = y ++ c :: t) : x = y ∧ s = t := by
  have hrev := congrArg List.reverse h
  simp only [List.reverse_append, List.reverse_cons, List.append_assoc,
    List.singleton_append] at hrev
  obtain ⟨hst, hxy⟩ := cut_first (by simpa using hs) (by simpa using ht) hrev
  exact ⟨List.reverse_injective hxy, List.reverse_injective hst⟩

end Cut

section Trim

theorem rdropWhile_of_last {p : Char → Bool} {cs : List Char} {c : Char}
    (hlast : cs.getLast? = some c) (hp : p c = false) : cs.rdropWhile p = cs := by
  obtain ⟨init, rfl⟩ := List.getLast?_eq_some_iff.1 hlast
  rw [List.rdropWhile_concat_neg _ _ _ (by simp [hp])]

/-- A text that starts and ends with other characters is left alone. -/
theorem trim_of_ends {cs : List Char} (hhead : ∃ c, cs.head? = some c ∧ isWhitespace c = false)
    (hlast : ∃ c, cs.getLast? = some c ∧ isWhitespace c = false) : trim cs = cs := by
  obtain ⟨c, hc, hwhite⟩ := hhead
  obtain ⟨d, hd, hdwhite⟩ := hlast
  have hstart : trimStart cs = cs := by
    obtain ⟨rest, rfl⟩ := List.head?_eq_some_iff.1 hc
    exact List.dropWhile_cons_of_neg (by simp [hwhite])
  rw [trim, hstart, trimEnd, rdropWhile_of_last hd hdwhite]

/-- What `trim` leaves starts and ends with other characters. -/
theorem trim_ends {cs : List Char} (h : trim cs ≠ []) :
    (∃ c, (trim cs).head? = some c ∧ isWhitespace c = false) ∧
      ∃ c, (trim cs).getLast? = some c ∧ isWhitespace c = false := by
  have hlast : ∀ ds : List Char, trimEnd ds ≠ [] →
      ∃ c, (trimEnd ds).getLast? = some c ∧ isWhitespace c = false := by
    intro ds hne
    refine ⟨(trimEnd ds).getLast hne, List.getLast?_eq_some_getLast hne, ?_⟩
    exact Bool.eq_false_iff.2 (List.rdropWhile_last_not isWhitespace ds hne)
  refine ⟨?_, hlast _ h⟩
  -- the end that is cut off is not the first character
  cases hstart : trimStart cs with
  | nil => exact absurd (by rw [trim, hstart]; rfl) h
  | cons c rest =>
      have hc : isWhitespace c = false := by
        have hne : trimStart cs ≠ [] := by simp [hstart]
        have hhead := List.head_dropWhile_not isWhitespace hne
        have heq : (cs.dropWhile isWhitespace).head hne = c := by
          have hcons : cs.dropWhile isWhitespace = c :: rest := hstart
          simp [hcons]
        rwa [heq] at hhead
      refine ⟨c, ?_, hc⟩
      obtain ⟨suffix, hsuffix⟩ := List.rdropWhile_prefix isWhitespace (c :: rest)
      rw [trim, hstart] at h ⊢
      cases htrim : trimEnd (c :: rest) with
      | nil => exact absurd htrim h
      | cons d ds =>
          rw [trimEnd] at htrim
          rw [htrim, List.cons_append] at hsuffix
          rw [(List.cons.inj hsuffix).1]
          rfl

theorem mem_trim {cs : List Char} {c : Char} (h : c ∈ trim cs) : c ∈ cs := by
  have hprefix := (List.rdropWhile_prefix isWhitespace (trimStart cs)).subset h
  exact (List.dropWhile_suffix isWhitespace).subset hprefix

/-- Only white space is cut off. -/
theorem mem_trim_of_mem {cs : List Char} {c : Char} (h : c ∈ cs) (hc : isWhitespace c = false) :
    c ∈ trim cs := by
  have hdrop : ∀ {ds : List Char}, c ∈ ds → c ∈ ds.dropWhile isWhitespace := by
    intro ds hds
    rw [← @List.takeWhile_append_dropWhile _ isWhitespace ds, List.mem_append] at hds
    refine hds.resolve_left fun htake => ?_
    rw [List.mem_takeWhile_imp htake] at hc
    exact absurd hc (by decide)
  rw [trim, trimEnd, List.rdropWhile, List.mem_reverse]
  exact hdrop (List.mem_reverse.2 (hdrop h))

/-- White space before a text is cut off with its own. -/
theorem trim_cons_of_whitespace {cs : List Char} {c : Char} (hc : isWhitespace c = true) :
    trim (c :: cs) = trim cs := by
  rw [trim, trim, trimStart, trimStart, List.dropWhile_cons_of_pos hc]

/-- Trimming again changes nothing. -/
@[simp] theorem trim_trim (cs : List Char) : trim (trim cs) = trim cs := by
  by_cases h : trim cs = []
  · rw [h]
    rfl
  · obtain ⟨hhead, hlast⟩ := trim_ends h
    exact trim_of_ends hhead hlast

end Trim

section Split

variable {α : Type} [DecidableEq α] {c d : α} {xs piece : List α}

/-- A piece has what was split, without the separator. -/
theorem mem_of_mem_splitOn (h : piece ∈ xs.splitOn c) (hd : d ∈ piece) : d ∈ xs ∧ d ≠ c := by
  induction xs generalizing piece with
  | nil =>
      obtain rfl := List.mem_singleton.1 (List.splitOn_nil c ▸ h)
      exact absurd hd List.not_mem_nil
  | cons x xs ih =>
      have hrest : ∀ {piece}, piece ∈ xs.splitOn c → d ∈ piece → d ∈ x :: xs ∧ d ≠ c :=
        fun hpiece hd => ⟨List.mem_cons_of_mem _ (ih hpiece hd).1, (ih hpiece hd).2⟩
      rw [List.splitOn_cons_eq_if_modifyHead] at h
      split at h
      · rcases List.mem_cons.1 h with rfl | h
        · exact absurd hd List.not_mem_nil
        · exact hrest h hd
      · rename_i hx
        cases hpieces : xs.splitOn c with
        | nil => exact absurd hpieces (List.splitOn_ne_nil c xs)
        | cons first rest =>
            -- the character belongs to the first piece
            rw [hpieces, List.modifyHead_cons] at h
            rcases List.mem_cons.1 h with rfl | h
            · rcases List.mem_cons.1 hd with rfl | hd
              · exact ⟨List.mem_cons_self, by simpa using hx⟩
              · exact hrest (hpieces ▸ List.mem_cons_self) hd
            · exact hrest (hpieces ▸ List.mem_cons_of_mem _ h) hd

omit [DecidableEq α] in
/-- A join has the separator and what is joined. -/
theorem mem_of_mem_intercalate {sep : List α} {ls : List (List α)} (h : d ∈ sep.intercalate ls) :
    d ∈ sep ∨ ∃ l ∈ ls, d ∈ l := by
  induction ls with
  | nil => exact absurd h List.not_mem_nil
  | cons first rest ih =>
      cases rest with
      | nil =>
          rw [List.intercalate_singleton] at h
          exact Or.inr ⟨first, List.mem_cons_self, h⟩
      | cons second rest =>
          rw [List.intercalate_cons_cons, List.append_assoc, List.mem_append, List.mem_append] at h
          rcases h with hfirst | hsep | hrest
          · exact Or.inr ⟨first, List.mem_cons_self, hfirst⟩
          · exact Or.inl hsep
          · refine (ih hrest).imp_right ?_
            rintro ⟨l, hl, hd⟩
            exact ⟨l, List.mem_cons_of_mem _ hl, hd⟩

/-- Every character but the separator is in a piece. -/
theorem exists_mem_splitOn (h : d ∈ xs) (hd : d ≠ c) : ∃ piece ∈ xs.splitOn c, d ∈ piece := by
  rw [← @List.intercalate_splitOn _ xs _ _ c] at h
  rcases mem_of_mem_intercalate h with hsep | hpiece
  · exact absurd (List.mem_singleton.1 hsep) hd
  · exact hpiece

end Split

/-- `split_once` -/
def splitOnce (c : Char) (s : List Char) : Option (List Char × List Char) :=
  if c ∈ s then some (s.takeWhile (· ≠ c), (s.dropWhile (· ≠ c)).drop 1) else none

/-- What `split_once` splits. -/
theorem eq_of_splitOnce {c : Char} {s a b : List Char} (h : splitOnce c s = some (a, b)) :
    s = a ++ c :: b := by
  unfold splitOnce at h
  split at h
  · rename_i hmem
    obtain ⟨rfl, rfl⟩ := Prod.mk.inj (Option.some.inj h)
    have hne : s.dropWhile (· ≠ c) ≠ [] := by
      intro hnil
      have hall := List.dropWhile_eq_nil_iff.1 hnil c hmem
      exact absurd rfl (of_decide_eq_true hall)
    obtain ⟨d, rest, hdrop⟩ := List.exists_cons_of_ne_nil hne
    have hd : d = c := by
      have hhead := List.head?_dropWhile_not (fun d => decide (d ≠ c)) s
      rw [hdrop, List.head?_cons] at hhead
      simpa using hhead
    subst hd
    calc s = s.takeWhile (· ≠ d) ++ s.dropWhile (· ≠ d) := List.takeWhile_append_dropWhile.symm
      _ = _ := by rw [hdrop, List.drop_one, List.tail_cons]
  · cases h

theorem splitOnce_append {c : Char} {a b : List Char} (h : c ∉ a) :
    splitOnce c (a ++ c :: b) = some (a, b) := by
  have hplain : ∀ d ∈ a, decide (d ≠ c) = true := fun d hd =>
    decide_eq_true fun heq => h (heq ▸ hd)
  unfold splitOnce
  rw [if_pos (List.mem_append_right _ List.mem_cons_self), List.takeWhile_append_of_pos hplain,
    List.dropWhile_append_of_pos hplain]
  simp

theorem splitOnce_length {c : Char} {s a b : List Char} (h : splitOnce c s = some (a, b)) :
    b.length < s.length := by
  rw [eq_of_splitOnce h, List.length_append, List.length_cons]
  omega

/-- A nonempty run of ASCII digits, read in base ten. -/
def parseDigits (cs : List Char) : Option Nat :=
  if cs ≠ [] ∧ cs.all Char.isDigit then some (Nat.ofDigitChars 10 cs 0) else none

/-- `str::parse` for a signed type, without the bounds of the type. -/
def parseInt (s : String) : Option Int :=
  match s.toList with
  | '-' :: cs => (parseDigits cs).map fun n : Nat => -(n : Int)
  | '+' :: cs => (parseDigits cs).map fun n : Nat => (n : Int)
  | cs => (parseDigits cs).map fun n : Nat => (n : Int)

/-- `str::parse` for an unsigned type with values below `bound`. -/
def parseUInt (bound : Nat) (s : String) : Option Nat :=
  (match s.toList with
    | '+' :: cs => parseDigits cs
    | cs => parseDigits cs).filter (· < bound)

theorem parseDigits_toDigits (n : Nat) : parseDigits (Nat.toDigits 10 n) = some n := by
  have hall : (Nat.toDigits 10 n).all Char.isDigit = true := by
    rw [List.all_eq_true]
    intro c hc
    exact Nat.isDigit_of_mem_toDigits (by decide) (by decide) hc
  rw [parseDigits, if_pos ⟨Nat.toDigits_ne_nil, hall⟩, Nat.ofDigitChars_ten_toDigits]

/-- A decimal numeral starts with a digit, so with neither sign. -/
theorem toDigits_head (n : Nat) : ∃ c cs, Nat.toDigits 10 n = c :: cs ∧ c ≠ '-' ∧ c ≠ '+' := by
  cases h : Nat.toDigits 10 n with
  | nil => exact absurd h Nat.toDigits_ne_nil
  | cons c cs =>
      have hdigit : c.isDigit = true :=
        Nat.isDigit_of_mem_toDigits (by decide : 0 < 10) (by decide) (h ▸ List.mem_cons_self)
      refine ⟨c, cs, rfl, ?_, ?_⟩
      · rintro rfl
        exact absurd hdigit (by decide)
      · rintro rfl
        exact absurd hdigit (by decide)

theorem parseInt_toString (n : Nat) : parseInt (toString n) = some (n : Int) := by
  obtain ⟨c, cs, h, hminus, hplus⟩ := toDigits_head n
  have hlist : (toString n).toList = c :: cs := by
    rw [← h]
    exact Nat.toList_repr
  have hparse := parseDigits_toDigits n
  rw [h] at hparse
  simp only [parseInt, hlist]
  split
  · rename_i heq
    exact absurd (List.cons.inj heq).1 hminus
  · rename_i heq
    exact absurd (List.cons.inj heq).1 hplus
  · rw [hparse]
    rfl

/-- A numeral is read back, within the bound of the type. -/
theorem parseUInt_toString (bound n : Nat) :
    parseUInt bound (toString n) = if n < bound then some n else none := by
  obtain ⟨c, cs, h, _, hplus⟩ := toDigits_head n
  have hlist : (toString n).toList = c :: cs := by
    rw [← h]
    exact Nat.toList_repr
  have hparse := parseDigits_toDigits n
  rw [h] at hparse
  simp only [parseUInt, hlist]
  split
  · rename_i heq
    exact absurd (List.cons.inj heq).1 hplus
  · rw [hparse, Option.filter_some]
    simp only [decide_eq_true_eq]

/-- Below the bound of the type, both parsers read the same number. -/
theorem parseInt_toNat_le_parseUInt (bound : Nat) (s : String)
    (h : ((parseInt s).getD 0).toNat < bound) :
    ((parseInt s).getD 0).toNat ≤ (parseUInt bound s).getD 0 := by
  -- without a minus sign both read the same digits
  have hdigits : ∀ cs, (((parseDigits cs).map fun n : Nat => (n : Int)).getD 0).toNat < bound →
      (((parseDigits cs).map fun n : Nat => (n : Int)).getD 0).toNat ≤
        ((parseDigits cs).filter (· < bound)).getD 0 := by
    intro cs hlt
    cases hcs : parseDigits cs with
    | none => simp
    | some n =>
        simp only [hcs, Option.map_some, Option.getD_some, Int.toNat_natCast] at hlt ⊢
        simp [Option.filter_some, hlt]
  unfold parseInt parseUInt at *
  split
  · rename_i cs heq
    cases hcs : parseDigits cs with
    | none => simp
    | some n => simp
  · rename_i cs heq
    simp only [heq] at h ⊢
    exact hdigits cs h
  · rename_i hminus hplus
    split at h
    · rename_i cs heq
      exact absurd heq (hminus cs)
    · rename_i cs heq
      exact absurd heq (hplus cs)
    · split
      · rename_i cs heq
        exact absurd heq (hplus cs)
      · exact hdigits _ h

end AsterBridge.Lib.Text
