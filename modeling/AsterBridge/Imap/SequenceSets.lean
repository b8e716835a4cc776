import AsterBridge.Lib.Text

/-!
# Sequence sets

The two readers of a sequence set in `imap/server.rs`: `parse_set` lists the numbers that FETCH and
STORE go through, `sequence_set_contains` decides about one number for the other commands.
`mem_parseSet_iff` says that they select the same numbers.
-/

set_option autoImplicit false

namespace AsterBridge.Imap

open AsterBridge.Lib AsterBridge.Lib.Text

/-- The closure `bound`: `*` is the largest number. -/
def setBound (largest : Nat) (v : List Char) : Option Nat :=
  if v = ['*'] then some largest else parseUInt (2 ^ 32) (String.ofList v)

/-- A part of a set in `sequence_set_contains`. -/
def partContains (n largest : Nat) (part : List Char) : Bool :=
  match splitOnce ':' part with
  | some (a, b) =>
      match setBound largest a, setBound largest b with
      | some lo, some hi => min lo hi ≤ n && n ≤ max lo hi
      | _, _ => false
  | none => setBound largest part = some n

/-- `sequence_set_contains` -/
def sequenceSetContains (set : List Char) (n largest : Nat) : Bool :=
  (set.splitOn ',').any fun part => partContains n largest (trim part)

/-- The numbers of a part in `parse_set`. -/
def partNumbers (max_ : Nat) (part : List Char) : List Nat :=
  if part = [] then []
  else
    match splitOnce ':' part with
    | some (a, b) =>
        match setBound max_ a, setBound max_ b with
        | some lo, some hi =>
            (List.range' (min lo hi) (min (max lo hi) max_ + 1 - min lo hi)).filter (1 ≤ ·)
        | _, _ => []
    | none =>
        if part = ['*'] then [max_]
        else
          match parseUInt (2 ^ 32) (String.ofList part) with
          | some n => if 1 ≤ n ∧ n ≤ max_ then [n] else []
          | none => []

/-- `parse_set` -/
def parseSet (spec : List Char) (max_ : Nat) : List Nat :=
  if max_ = 0 then [] else (spec.splitOn ',').flatMap fun part => partNumbers max_ (trim part)

/-- The closure `is_number`. -/
def isSetNumber (v : List Char) : Bool :=
  v = ['*'] || (v.all Char.isDigit && (parseUInt (2 ^ 32) (String.ofList v)).any (0 < ·))

/-- `is_sequence_set` -/
def isSequenceSet (token : List Char) : Bool :=
  !token.isEmpty && (token.splitOn ',').all fun part =>
    match splitOnce ':' part with
    | some (a, b) => isSetNumber a && isSetNumber b
    | none => isSetNumber part

section Parts

variable {largest n : Nat} {part : List Char}

theorem setBound_nil : setBound largest [] = none := rfl

/-- Both readers agree on a part, within the numbers of the mailbox. -/
theorem mem_partNumbers (hlargest : largest ≠ 0) :
    n ∈ partNumbers largest part ↔ 1 ≤ n ∧ n ≤ largest ∧ partContains n largest part = true := by
  unfold partNumbers partContains
  by_cases hnil : part = []
  · -- an empty part is no number
    subst hnil
    have hsplit : splitOnce ':' [] = none := rfl
    simp [hsplit, setBound_nil]
  · rw [if_neg hnil]
    cases hsplit : splitOnce ':' part with
    | some ab =>
        obtain ⟨a, b⟩ := ab
        dsimp only
        cases ha : setBound largest a with
        | none => simp
        | some lo =>
            cases hb : setBound largest b with
            | none => simp
            | some hi =>
                dsimp only
                rw [List.mem_filter, List.mem_range'_1]
                simp only [Bool.and_eq_true, decide_eq_true_eq]
                omega
    | none =>
        dsimp only
        unfold setBound
        split
        · simp only [List.mem_singleton, Option.some.injEq, decide_eq_true_eq]
          omega
        · cases hparse : parseUInt (2 ^ 32) (String.ofList part) with
          | none => simp
          | some k =>
              dsimp only
              split
              · simp only [List.mem_singleton, Option.some.injEq, decide_eq_true_eq]
                omega
              · simp only [List.not_mem_nil, Option.some.injEq, decide_eq_true_eq, false_iff]
                omega

end Parts

/-- **One set, two readers.** `parse_set` returns the numbers of the mailbox that
`sequence_set_contains` accepts, and no others. -/
theorem mem_parseSet_iff (spec : List Char) (max_ n : Nat) :
    n ∈ parseSet spec max_ ↔
      1 ≤ n ∧ n ≤ max_ ∧ sequenceSetContains spec n max_ = true := by
  unfold parseSet sequenceSetContains
  by_cases hmax : max_ = 0
  · rw [if_pos hmax]
    simp only [List.not_mem_nil, false_iff]
    omega
  · rw [if_neg hmax, List.mem_flatMap, List.any_eq_true]
    constructor
    · rintro ⟨part, hpart, hmem⟩
      obtain ⟨hone, hle, hcontains⟩ := (mem_partNumbers hmax).1 hmem
      exact ⟨hone, hle, part, hpart, hcontains⟩
    · rintro ⟨hone, hle, part, hpart, hcontains⟩
      exact ⟨part, hpart, (mem_partNumbers hmax).2 ⟨hone, hle, hcontains⟩⟩

example : parseSet "4:2, 9:*,0,x".toList 5 = [2, 3, 4, 5] := by decide +kernel

end AsterBridge.Imap
