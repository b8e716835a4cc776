import Mathlib.Tactic

/-!
# UTF-16

The code units of a text, and the decoder that puts a replacement character in the place of a
surrogate without its partner.
-/

set_option autoImplicit false

namespace AsterBridge.Lib.Utf16

/-- The units of a character: itself, or a pair of surrogates. -/
def encodeChar (c : Char) : List Nat :=
  if c.toNat < 0x10000 then [c.toNat]
  else [0xD800 + (c.toNat - 0x10000) / 0x400, 0xDC00 + (c.toNat - 0x10000) % 0x400]

/-- The units of a text. -/
def encode (s : List Char) : List Nat := s.flatMap encodeChar

/-- The first unit of a pair. -/
def isHigh (u : Nat) : Bool := 0xD800 ≤ u && u < 0xDC00

/-- The second unit of a pair. -/
def isLow (u : Nat) : Bool := 0xDC00 ≤ u && u < 0xE000

/-- U+FFFD. -/
def replacement : Char := Char.ofNat 0xFFFD

/-- The text of units. -/
def decodeLossy : List Nat → List Char
  | [] => []
  | [u] => [if isHigh u || isLow u then replacement else Char.ofNat u]
  | u :: v :: rest =>
      if isHigh u then
        if isLow v then
          Char.ofNat (0x10000 + (u - 0xD800) * 0x400 + (v - 0xDC00)) :: decodeLossy rest
        else replacement :: decodeLossy (v :: rest)
      else (if isLow u then replacement else Char.ofNat u) :: decodeLossy (v :: rest)

theorem not_surrogate (c : Char) : isHigh c.toNat = false ∧ isLow c.toNat = false := by
  have hvalid : c.toNat < 0xD800 ∨ 0xDFFF < c.toNat ∧ c.toNat < 0x110000 := c.valid
  simp only [isHigh, isLow, Bool.and_eq_false_iff, decide_eq_false_iff_not]
  omega

theorem toNat_lt (c : Char) : c.toNat < 0x110000 := by
  have hvalid : c.toNat < 0xD800 ∨ 0xDFFF < c.toNat ∧ c.toNat < 0x110000 := c.valid
  omega

theorem decodeLossy_encodeChar (c : Char) (rest : List Nat) :
    decodeLossy (encodeChar c ++ rest) = c :: decodeLossy rest := by
  obtain ⟨hhigh, hlow⟩ := not_surrogate c
  unfold encodeChar
  split
  case isTrue =>
    cases rest with
    | nil => simp [decodeLossy, hhigh, hlow]
    | cons v rest => simp [decodeLossy, hhigh, hlow]
  case isFalse hbig =>
    have hlt := toNat_lt c
    have hfirst : isHigh (0xD800 + (c.toNat - 0x10000) / 0x400) = true := by
      simp only [isHigh, Bool.and_eq_true, decide_eq_true_eq]
      omega
    have hsecond : isLow (0xDC00 + (c.toNat - 0x10000) % 0x400) = true := by
      simp only [isLow, Bool.and_eq_true, decide_eq_true_eq]
      omega
    have hback : 0x10000 + (0xD800 + (c.toNat - 0x10000) / 0x400 - 0xD800) * 0x400 +
        (0xDC00 + (c.toNat - 0x10000) % 0x400 - 0xDC00) = c.toNat := by
      omega
    rw [List.cons_append, List.cons_append, List.nil_append, decodeLossy, if_pos hfirst,
      if_pos hsecond, hback, Char.ofNat_toNat]

/-- A text is decoded from its units. -/
theorem decodeLossy_encode (s : List Char) : decodeLossy (encode s) = s := by
  induction s with
  | nil => rfl
  | cons c s ih => rw [encode, List.flatMap_cons, decodeLossy_encodeChar, ← encode, ih]

end AsterBridge.Lib.Utf16
