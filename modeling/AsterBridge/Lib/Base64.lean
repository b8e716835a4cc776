import AsterBridge.Lib.Text
import Mathlib.Data.UInt

/-!
# Base64

The standard alphabet with padding. `decode` refuses what `encode` does not write: other
characters, a missing padding, and bits behind the last byte.
-/

set_option autoImplicit false

namespace AsterBridge.Lib.Base64

open AsterBridge.Lib

/-- The character of six bits. -/
def digit (n : Nat) : Char :=
  if n < 26 then Char.ofNat (65 + n)
  else if n < 52 then Char.ofNat (71 + n)
  else if n < 62 then Char.ofNat (n - 4)
  else if n = 62 then '+' else '/'

/-- The six bits of a character. -/
def value (c : Char) : Option Nat :=
  if c.isUpper then some (c.toNat - 65)
  else if c.isLower then some (c.toNat - 71)
  else if c.isDigit then some (c.toNat + 4)
  else if c = '+' then some 62
  else if c = '/' then some 63
  else none

theorem value_digit {n : Nat} (h : n < 64) : value (digit n) = some n :=
  (show ∀ n : Fin 64, value (digit n) = some n.1 by decide) ⟨n, h⟩

theorem digit_ne_pad {n : Nat} (h : n < 64) : digit n ≠ '=' :=
  (show ∀ n : Fin 64, digit n ≠ '=' by decide) ⟨n, h⟩

theorem digit_not_whitespace {n : Nat} (h : n < 64) : Text.isWhitespace (digit n) = false :=
  (show ∀ n : Fin 64, Text.isWhitespace (digit n) = false by decide) ⟨n, h⟩

/-- The text of bytes: four characters for three of them. -/
def encode : List UInt8 → List Char
  | [] => []
  | [a] => [digit (a.toNat / 4), digit (a.toNat % 4 * 16), '=', '=']
  | [a, b] =>
      [digit (a.toNat / 4), digit (a.toNat % 4 * 16 + b.toNat / 16), digit (b.toNat % 16 * 4), '=']
  | a :: b :: c :: rest =>
      digit (a.toNat / 4) :: digit (a.toNat % 4 * 16 + b.toNat / 16) ::
        digit (b.toNat % 16 * 4 + c.toNat / 64) :: digit (c.toNat % 64) :: encode rest

/-- The text of bytes without its padding. -/
def encodeNoPad (bytes : List UInt8) : List Char := (encode bytes).filter (· ≠ '=')

/-- The first byte of a group. -/
def first (x y : Nat) : UInt8 := UInt8.ofNat (x * 4 + y / 16)

/-- The second byte of a group. -/
def second (y z : Nat) : UInt8 := UInt8.ofNat (y % 16 * 16 + z / 4)

/-- The third byte of a group. -/
def third (z w : Nat) : UInt8 := UInt8.ofNat (z % 4 * 64 + w)

/-- The last group, if it is padded. -/
def decodePadded (p q r : Char) : Option (List UInt8) := do
  let x ← value p
  let y ← value q
  if r = '=' then
    if y % 16 = 0 then return [first x y] else none
  else
    let z ← value r
    if z % 4 = 0 then return [first x y, second y z] else none

/-- The bytes of a text. -/
def decode : List Char → Option (List UInt8)
  | [] => some []
  | p :: q :: r :: s :: rest =>
      if s = '=' then if rest = [] then decodePadded p q r else none
      else do
        let x ← value p
        let y ← value q
        let z ← value r
        let w ← value s
        let bytes ← decode rest
        return first x y :: second y z :: third z w :: bytes
  | _ => none

/-! ## Round trip -/

theorem ofNat_eq {a : UInt8} {n : Nat} (h : n = a.toNat) : UInt8.ofNat n = a := by
  rw [h]
  exact UInt8.ofNat_toNat

theorem first_bits (a : UInt8) {n : Nat} (h : n < 16) :
    first (a.toNat / 4) (a.toNat % 4 * 16 + n) = a := by
  refine ofNat_eq ?_
  omega

theorem second_bits (b : UInt8) (m : Nat) {n : Nat} (h : n < 4) :
    second (m * 16 + b.toNat / 16) (b.toNat % 16 * 4 + n) = b := by
  have hb := b.toNat_lt
  refine ofNat_eq ?_
  omega

theorem third_bits (c : UInt8) (m : Nat) : third (m * 4 + c.toNat / 64) (c.toNat % 64) = c := by
  have hc := c.toNat_lt
  refine ofNat_eq ?_
  omega

/-- Bytes come back from their text. -/
theorem decode_encode (bytes : List UInt8) : decode (encode bytes) = some bytes := by
  fun_induction encode bytes with
  | case1 => rfl
  | case2 a =>
      have ha := a.toNat_lt
      have hx := value_digit (n := a.toNat / 4) (by omega)
      have hy := value_digit (n := a.toNat % 4 * 16) (by omega)
      have hbits : a.toNat % 4 * 16 % 16 = 0 := by omega
      have hfirst : first (a.toNat / 4) (a.toNat % 4 * 16) = a := first_bits a (n := 0) (by omega)
      simp only [decode, decodePadded, if_true, hx, hy, Option.bind_eq_bind, Option.bind_some,
        if_pos hbits, hfirst]
      rfl
  | case3 a b =>
      have ha := a.toNat_lt
      have hb := b.toNat_lt
      have hx := value_digit (n := a.toNat / 4) (by omega)
      have hy := value_digit (n := a.toNat % 4 * 16 + b.toNat / 16) (by omega)
      have hz := value_digit (n := b.toNat % 16 * 4) (by omega)
      have hpad := digit_ne_pad (n := b.toNat % 16 * 4) (by omega)
      have hbits : b.toNat % 16 * 4 % 4 = 0 := by omega
      have hfirst := first_bits a (n := b.toNat / 16) (by omega)
      have hsecond : second (a.toNat % 4 * 16 + b.toNat / 16) (b.toNat % 16 * 4) = b :=
        second_bits b (a.toNat % 4) (n := 0) (by omega)
      simp only [decode, decodePadded, if_true, if_neg hpad, hx, hy, hz, Option.bind_eq_bind,
        Option.bind_some, if_pos hbits, hfirst, hsecond]
      rfl
  | case4 a b c rest ih =>
      have ha := a.toNat_lt
      have hb := b.toNat_lt
      have hc := c.toNat_lt
      have hx := value_digit (n := a.toNat / 4) (by omega)
      have hy := value_digit (n := a.toNat % 4 * 16 + b.toNat / 16) (by omega)
      have hz := value_digit (n := b.toNat % 16 * 4 + c.toNat / 64) (by omega)
      have hw := value_digit (n := c.toNat % 64) (by omega)
      have hpad := digit_ne_pad (n := c.toNat % 64) (by omega)
      have hfirst := first_bits a (n := b.toNat / 16) (by omega)
      have hsecond := second_bits b (a.toNat % 4) (n := c.toNat / 64) (by omega)
      have hthird := third_bits c (b.toNat % 16)
      simp only [decode, if_neg hpad, hx, hy, hz, hw, ih, Option.bind_eq_bind, Option.bind_some,
        hfirst, hsecond, hthird]
      rfl

/-- Four characters for three bytes, or for what is left of them. -/
theorem length_encode (bytes : List UInt8) :
    (encode bytes).length = (bytes.length + 2) / 3 * 4 := by
  fun_induction encode bytes with
  | case1 => rfl
  | case2 a => simp only [List.length_cons, List.length_nil]
  | case3 a b => simp only [List.length_cons, List.length_nil]
  | case4 a b c rest ih =>
      simp only [List.length_cons, ih]
      omega

/-- A text of base64 is made of digits and padding. -/
theorem mem_encode {bytes : List UInt8} {d : Char} (h : d ∈ encode bytes) :
    d = '=' ∨ ∃ n < 64, d = digit n := by
  fun_induction encode bytes with
  | case1 => exact absurd h List.not_mem_nil
  | case2 a =>
      have ha := a.toNat_lt
      simp only [List.mem_cons, List.not_mem_nil, or_false] at h
      rcases h with rfl | rfl | rfl | rfl
      · exact .inr ⟨_, by omega, rfl⟩
      · exact .inr ⟨_, by omega, rfl⟩
      · exact .inl rfl
      · exact .inl rfl
  | case3 a b =>
      have ha := a.toNat_lt
      have hb := b.toNat_lt
      simp only [List.mem_cons, List.not_mem_nil, or_false] at h
      rcases h with rfl | rfl | rfl | rfl
      · exact .inr ⟨_, by omega, rfl⟩
      · exact .inr ⟨_, by omega, rfl⟩
      · exact .inr ⟨_, by omega, rfl⟩
      · exact .inl rfl
  | case4 a b c rest ih =>
      have ha := a.toNat_lt
      have hb := b.toNat_lt
      have hc := c.toNat_lt
      simp only [List.mem_cons] at h
      rcases h with rfl | rfl | rfl | rfl | hrest
      · exact .inr ⟨_, by omega, rfl⟩
      · exact .inr ⟨_, by omega, rfl⟩
      · exact .inr ⟨_, by omega, rfl⟩
      · exact .inr ⟨_, by omega, rfl⟩
      · exact ih hrest

/-- A text of base64 has no whitespace. -/
theorem not_whitespace_of_mem_encode {bytes : List UInt8} {d : Char} (h : d ∈ encode bytes) :
    Text.isWhitespace d = false := by
  rcases mem_encode h with rfl | ⟨n, hn, rfl⟩
  · decide
  · exact digit_not_whitespace hn

/-! ## Texts without padding -/

/-- The bytes of a text that has no padding. -/
def decodeNoPad (cs : List Char) : Option (List UInt8) :=
  if '=' ∈ cs then none else decode (cs ++ List.replicate ((4 - cs.length % 4) % 4) '=')

theorem pad_notMem_encodeNoPad (bytes : List UInt8) : '=' ∉ encodeNoPad bytes := by
  intro h
  exact absurd rfl (of_decide_eq_true (List.mem_filter.1 h).2)

/-- The padding fills the last group up to four characters. -/
theorem encodeNoPad_append (bytes : List UInt8) :
    encodeNoPad bytes ++ List.replicate ((4 - (encodeNoPad bytes).length % 4) % 4) '=' =
      encode bytes := by
  have hkeep : ∀ {n : Nat}, n < 64 → decide (digit n ≠ '=') = true := fun h =>
    decide_eq_true (digit_ne_pad h)
  rw [encodeNoPad]
  fun_induction encode bytes with
  | case1 => rfl
  | case2 a =>
      have ha := a.toNat_lt
      rw [List.filter_cons, if_pos (hkeep (by omega)), List.filter_cons, if_pos (hkeep (by omega))]
      rfl
  | case3 a b =>
      have ha := a.toNat_lt
      have hb := b.toNat_lt
      rw [List.filter_cons, if_pos (hkeep (by omega)), List.filter_cons, if_pos (hkeep (by omega)),
        List.filter_cons, if_pos (hkeep (by omega))]
      rfl
  | case4 a b c rest ih =>
      have ha := a.toNat_lt
      have hb := b.toNat_lt
      have hc := c.toNat_lt
      rw [List.filter_cons, if_pos (hkeep (by omega)), List.filter_cons, if_pos (hkeep (by omega)),
        List.filter_cons, if_pos (hkeep (by omega)), List.filter_cons, if_pos (hkeep (by omega))]
      have hmod : ∀ n : Nat, (n + 1 + 1 + 1 + 1) % 4 = n % 4 := fun n => by omega
      simp only [List.length_cons, hmod, List.cons_append, ih]

theorem decodeNoPad_encodeNoPad (bytes : List UInt8) :
    decodeNoPad (encodeNoPad bytes) = some bytes := by
  rw [decodeNoPad, if_neg (pad_notMem_encodeNoPad bytes), encodeNoPad_append, decode_encode]

example : encode [104, 105] = "aGk=".toList := by decide

end AsterBridge.Lib.Base64
