import Mathlib.Data.List.Basic
import Mathlib.Tactic

/-!
# Reading bytes as UTF-8

`from_utf8` and `from_utf8_lossy` on byte lists. The lossy reader puts U+FFFD for every
longest prefix of an ill-formed sequence.
-/

set_option autoImplicit false

namespace AsterBridge.Lib.Utf8

/-- The bytes of a text. -/
def encode (s : String) : List UInt8 := s.toUTF8.toList

/-- The payload of the continuation byte `b`, which must lie in `lo..=hi`. -/
def payload (lo hi : UInt8) (b : UInt8) : Option Nat :=
  if lo ≤ b ∧ b ≤ hi then some (b.toNat % 0x40) else none

/-- The bounds of the second byte after the lead byte `b` of three bytes. -/
def secondOfThree (b : UInt8) : UInt8 × UInt8 :=
  if b = 0xE0 then (0xA0, 0xBF) else if b = 0xED then (0x80, 0x9F) else (0x80, 0xBF)

/-- The bounds of the second byte after the lead byte `b` of four bytes. -/
def secondOfFour (b : UInt8) : UInt8 × UInt8 :=
  if b = 0xF0 then (0x90, 0xBF) else if b = 0xF4 then (0x80, 0x8F) else (0x80, 0xBF)

/-- The continuation byte at the head of the rest, within the bounds. -/
def next (bounds : UInt8 × UInt8) (rest : List UInt8) : Option Nat :=
  rest.head?.bind (payload bounds.1 bounds.2)

/-- The character at the head of `b :: rest`, if that is well formed, and the number of
bytes it takes, or that the reader skips. -/
def decodeChar (b : UInt8) (rest : List UInt8) : Option Char × Nat :=
  let plain : UInt8 × UInt8 := (0x80, 0xBF)
  if b < 0x80 then (some (Char.ofNat b.toNat), 1)
  else if 0xC2 ≤ b ∧ b ≤ 0xDF then
    match next plain rest with
    | none => (none, 1)
    | some x => (some (Char.ofNat (b.toNat % 0x20 * 0x40 + x)), 2)
  else if 0xE0 ≤ b ∧ b ≤ 0xEF then
    match next (secondOfThree b) rest with
    | none => (none, 1)
    | some x =>
        match next plain (rest.drop 1) with
        | none => (none, 2)
        | some y => (some (Char.ofNat ((b.toNat % 0x10 * 0x40 + x) * 0x40 + y)), 3)
  else if 0xF0 ≤ b ∧ b ≤ 0xF4 then
    match next (secondOfFour b) rest with
    | none => (none, 1)
    | some x =>
        match next plain (rest.drop 1) with
        | none => (none, 2)
        | some y =>
            match next plain (rest.drop 2) with
            | none => (none, 3)
            | some z =>
                (some (Char.ofNat (((b.toNat % 0x8 * 0x40 + x) * 0x40 + y) * 0x40 + z)), 4)
  else (none, 1)

/-- The characters of a byte list after its first `skip` bytes, `none` for each ill-formed
prefix. -/
def decodeChars : Nat → List UInt8 → List (Option Char)
  | _, [] => []
  | 0, b :: rest => (decodeChar b rest).1 :: decodeChars ((decodeChar b rest).2 - 1) rest
  | skip + 1, _ :: rest => decodeChars skip rest

/-- `str::from_utf8`. -/
def fromUtf8 (bytes : List UInt8) : Option (List Char) :=
  (decodeChars 0 bytes).mapM id

/-- `String::from_utf8_lossy`. -/
def fromUtf8Lossy (bytes : List UInt8) : List Char :=
  (decodeChars 0 bytes).map fun c => c.getD '\uFFFD'

example : fromUtf8Lossy [0x41, 0xC3, 0xA9, 0xE2, 0x82, 0x42] = ['A', 'é', '\uFFFD', 'B'] := by
  decide

/-! ## What `encode` writes -/

theorem toList_loop (bytes : ByteArray) (i : Nat) (done : List UInt8) :
    ByteArray.toList.loop bytes i done = done.reverse ++ bytes.data.toList.drop i := by
  fun_induction ByteArray.toList.loop bytes i done with
  | case1 i done h ih =>
      have hi : i < bytes.data.toList.length := by simpa using h
      rw [ih, List.drop_eq_getElem_cons hi]
      simp only [List.reverse_cons, List.append_assoc, List.singleton_append, Array.getElem_toList]
      congr 2
      exact getElem!_pos bytes.data i h
  | case2 i done h =>
      have hi : bytes.data.toList.length ≤ i := by simpa using h
      rw [List.drop_eq_nil_of_le hi, List.append_nil]

/-- The bytes of a text are those of its characters. -/
theorem encode_eq_flatMap (s : String) : encode s = s.toList.flatMap String.utf8EncodeChar := by
  rw [encode, String.toUTF8_eq_toByteArray, ← String.utf8Encode_toList, ByteArray.toList,
    toList_loop]
  simp [List.utf8Encode]

theorem encode_injective : Function.Injective encode := by
  intro s t h
  rw [encode, encode, ByteArray.toList, ByteArray.toList, toList_loop, toList_loop] at h
  simp only [List.reverse_nil, List.drop_zero, List.nil_append] at h
  exact String.toByteArray_inj.1 (ByteArray.ext (Array.toList_inj.1 h))

/-- An ASCII byte stands for itself. -/
theorem eq_of_mem_utf8EncodeChar {c : Char} {b : UInt8} (hb : b < 0x80)
    (h : b ∈ String.utf8EncodeChar c) : c = Char.ofNat b.toNat := by
  have hlow : b.toNat < 0x80 := UInt8.lt_iff_toNat_lt.1 hb
  -- every byte of a longer form has the high bit
  have hhigh : ∀ n m : Nat, m < 256 - n → 128 ≤ n → b ≠ UInt8.ofNat (m + n) := by
    rintro n m hm hn rfl
    rw [UInt8.toNat_ofNat'] at hlow
    omega
  unfold String.utf8EncodeChar at h
  dsimp only at h
  split_ifs at h
  · obtain rfl := List.mem_singleton.1 h
    rw [UInt8.toNat_ofNat', Nat.mod_eq_of_lt (by omega)]
    exact (Char.ofNat_toNat c).symm
  · simp only [List.mem_cons, List.not_mem_nil, or_false] at h
    rcases h with h | h
    · exact absurd h (hhigh _ _ (by omega) (by omega))
    · exact absurd h (hhigh _ _ (by omega) (by omega))
  · simp only [List.mem_cons, List.not_mem_nil, or_false] at h
    rcases h with h | h | h
    · exact absurd h (hhigh _ _ (by omega) (by omega))
    · exact absurd h (hhigh _ _ (by omega) (by omega))
    · exact absurd h (hhigh _ _ (by omega) (by omega))
  · simp only [List.mem_cons, List.not_mem_nil, or_false] at h
    rcases h with h | h | h | h
    · exact absurd h (hhigh _ _ (by omega) (by omega))
    · exact absurd h (hhigh _ _ (by omega) (by omega))
    · exact absurd h (hhigh _ _ (by omega) (by omega))
    · exact absurd h (hhigh _ _ (by omega) (by omega))

theorem mem_of_mem_encode {s : String} {b : UInt8} (hb : b < 0x80) (h : b ∈ encode s) :
    Char.ofNat b.toNat ∈ s.toList := by
  rw [encode_eq_flatMap] at h
  obtain ⟨c, hc, hbyte⟩ := List.mem_flatMap.1 h
  exact eq_of_mem_utf8EncodeChar hb hbyte ▸ hc

/-! ## Reading back -/

theorem toNat_byte {n : Nat} (h : n < 256) : (UInt8.ofNat n).toNat = n := by
  rw [UInt8.toNat_ofNat']
  exact Nat.mod_eq_of_lt h

theorem not_lt_byte {b n : UInt8} (h : n.toNat ≤ b.toNat) : ¬ b < n := by
  rw [UInt8.lt_iff_toNat_lt]
  exact Nat.not_lt.2 h

theorem not_le_byte {b n : UInt8} (h : n.toNat < b.toNat) : ¬ b ≤ n := by
  rw [UInt8.le_iff_toNat_le]
  exact Nat.not_le.2 h

/-- A continuation byte gives its six bits back. -/
theorem next_byte {bounds : UInt8 × UInt8} {n : Nat} (h : n < 0x40)
    (hlo : bounds.1.toNat ≤ n + 0x80) (hhi : n + 0x80 ≤ bounds.2.toNat) (rest : List UInt8) :
    next bounds (UInt8.ofNat (n + 0x80) :: rest) = some n := by
  have hn := toNat_byte (n := n + 0x80) (by omega)
  rw [next, List.head?_cons, Option.bind_some, payload, if_pos, hn]
  · congr 1
    omega
  · rw [UInt8.le_iff_toNat_le, UInt8.le_iff_toNat_le, hn]
    exact ⟨hlo, hhi⟩

section Lead

variable {b : UInt8} {rest : List UInt8} {x y z n : Nat}

theorem decodeChar_two (hlo : 0xC2 ≤ b.toNat) (hhi : b.toNat ≤ 0xDF)
    (hx : next (0x80, 0xBF) rest = some x) :
    decodeChar b rest = (some (Char.ofNat (b.toNat % 0x20 * 0x40 + x)), 2) := by
  have h1 : ¬ b < 0x80 := not_lt_byte (le_trans (by decide) hlo)
  have h2 : 0xC2 ≤ b ∧ b ≤ 0xDF := ⟨UInt8.le_iff_toNat_le.2 hlo, UInt8.le_iff_toNat_le.2 hhi⟩
  simp only [decodeChar, if_neg h1, if_pos h2, hx]

theorem decodeChar_three (hlo : 0xE0 ≤ b.toNat) (hhi : b.toNat ≤ 0xEF)
    (hx : next (secondOfThree b) rest = some x) (hy : next (0x80, 0xBF) (rest.drop 1) = some y) :
    decodeChar b rest = (some (Char.ofNat ((b.toNat % 0x10 * 0x40 + x) * 0x40 + y)), 3) := by
  have h1 : ¬ b < 0x80 := not_lt_byte (le_trans (by decide) hlo)
  have h2 : ¬ (0xC2 ≤ b ∧ b ≤ 0xDF) := fun h => not_le_byte (lt_of_lt_of_le (by decide) hlo) h.2
  have h3 : 0xE0 ≤ b ∧ b ≤ 0xEF := ⟨UInt8.le_iff_toNat_le.2 hlo, UInt8.le_iff_toNat_le.2 hhi⟩
  simp only [decodeChar, if_neg h1, if_neg h2, if_pos h3, hx, hy]

theorem decodeChar_four (hlo : 0xF0 ≤ b.toNat) (hhi : b.toNat ≤ 0xF4)
    (hx : next (secondOfFour b) rest = some x) (hy : next (0x80, 0xBF) (rest.drop 1) = some y)
    (hz : next (0x80, 0xBF) (rest.drop 2) = some z) :
    decodeChar b rest =
      (some (Char.ofNat (((b.toNat % 0x8 * 0x40 + x) * 0x40 + y) * 0x40 + z)), 4) := by
  have h1 : ¬ b < 0x80 := not_lt_byte (le_trans (by decide) hlo)
  have h2 : ¬ (0xC2 ≤ b ∧ b ≤ 0xDF) := fun h => not_le_byte (lt_of_lt_of_le (by decide) hlo) h.2
  have h3 : ¬ (0xE0 ≤ b ∧ b ≤ 0xEF) := fun h => not_le_byte (lt_of_lt_of_le (by decide) hlo) h.2
  have h4 : 0xF0 ≤ b ∧ b ≤ 0xF4 := ⟨UInt8.le_iff_toNat_le.2 hlo, UInt8.le_iff_toNat_le.2 hhi⟩
  simp only [decodeChar, if_neg h1, if_neg h2, if_neg h3, if_pos h4, hx, hy, hz]

/-- The second of three bytes: neither an overlong form nor a surrogate. -/
theorem next_secondOfThree (hn : n < 0x40) (hlow : b.toNat = 0xE0 → 0x20 ≤ n)
    (hhigh : b.toNat = 0xED → n < 0x20) (rest : List UInt8) :
    next (secondOfThree b) (UInt8.ofNat (n + 0x80) :: rest) = some n := by
  unfold secondOfThree
  split_ifs with h1 h2
  · have hb : b.toNat = 0xE0 := by rw [h1]; rfl
    have := hlow hb
    exact next_byte hn (by change 0xA0 ≤ _; omega) (by change _ ≤ 0xBF; omega) rest
  · have hb : b.toNat = 0xED := by rw [h2]; rfl
    have := hhigh hb
    exact next_byte hn (by change 0x80 ≤ _; omega) (by change _ ≤ 0x9F; omega) rest
  · exact next_byte hn (by change 0x80 ≤ _; omega) (by change _ ≤ 0xBF; omega) rest

/-- The second of four bytes: neither an overlong form nor beyond U+10FFFF. -/
theorem next_secondOfFour (hn : n < 0x40) (hlow : b.toNat = 0xF0 → 0x10 ≤ n)
    (hhigh : b.toNat = 0xF4 → n < 0x10) (rest : List UInt8) :
    next (secondOfFour b) (UInt8.ofNat (n + 0x80) :: rest) = some n := by
  unfold secondOfFour
  split_ifs with h1 h2
  · have hb : b.toNat = 0xF0 := by rw [h1]; rfl
    have := hlow hb
    exact next_byte hn (by change 0x90 ≤ _; omega) (by change _ ≤ 0xBF; omega) rest
  · have hb : b.toNat = 0xF4 := by rw [h2]; rfl
    have := hhigh hb
    exact next_byte hn (by change 0x80 ≤ _; omega) (by change _ ≤ 0x8F; omega) rest
  · exact next_byte hn (by change 0x80 ≤ _; omega) (by change _ ≤ 0xBF; omega) rest

theorem next_plain (hn : n < 0x40) (rest : List UInt8) :
    next (0x80, 0xBF) (UInt8.ofNat (n + 0x80) :: rest) = some n :=
  next_byte hn (by change 0x80 ≤ _; omega) (by change _ ≤ 0xBF; omega) rest

end Lead

/-- The head of a text is read back from its bytes. -/
theorem decodeChar_utf8EncodeChar (c : Char) (rest : List UInt8) :
    ∃ b bs, String.utf8EncodeChar c = b :: bs ∧
      decodeChar b (bs ++ rest) = (some c, bs.length + 1) := by
  have hc : c.val.toNat < 0xD800 ∨ 0xDFFF < c.val.toNat ∧ c.val.toNat < 0x110000 := c.valid
  have hback : Char.ofNat c.val.toNat = c := Char.ofNat_toNat c
  generalize hv : c.val.toNat = v at hc hback
  unfold String.utf8EncodeChar
  rw [hv]
  dsimp only
  split_ifs with h1 h2 h3
  · refine ⟨_, _, rfl, ?_⟩
    have hb := toNat_byte (n := v) (by omega)
    rw [decodeChar, if_pos, hb, hback]
    · rfl
    · rw [UInt8.lt_iff_toNat_lt, hb]
      exact Nat.lt_succ_of_le h1
  · refine ⟨_, _, rfl, ?_⟩
    have hb := toNat_byte (n := v / 64 % 0x20 + 0xc0) (by omega)
    have hv' : (v / 64 % 0x20 + 0xc0) % 0x20 * 0x40 + v % 0x40 = v := by omega
    have hx := next_plain (n := v % 0x40) (by omega) rest
    have hread := decodeChar_two (by rw [hb]; omega) (by rw [hb]; omega) hx
    rw [hb, hv', hback] at hread
    exact hread
  · refine ⟨_, _, rfl, ?_⟩
    have hb := toNat_byte (n := v / 4096 % 0x10 + 0xe0) (by omega)
    have hv' : ((v / 4096 % 0x10 + 0xe0) % 0x10 * 0x40 + v / 64 % 0x40) * 0x40 + v % 0x40 = v := by
      omega
    have hy := next_plain (n := v % 0x40) (by omega) rest
    have hx := next_secondOfThree (b := UInt8.ofNat (v / 4096 % 0x10 + 0xe0))
      (n := v / 64 % 0x40) (by omega) (by rw [hb]; omega) (by rw [hb]; omega)
      (UInt8.ofNat (v % 0x40 + 0x80) :: rest)
    have hread := decodeChar_three (by rw [hb]; omega) (by rw [hb]; omega) hx hy
    rw [hb, hv', hback] at hread
    exact hread
  · refine ⟨_, _, rfl, ?_⟩
    have hb := toNat_byte (n := v / 262144 % 0x08 + 0xf0) (by omega)
    have hv' : (((v / 262144 % 0x08 + 0xf0) % 0x8 * 0x40 + v / 4096 % 0x40) * 0x40 +
        v / 64 % 0x40) * 0x40 + v % 0x40 = v := by
      omega
    have hz := next_plain (n := v % 0x40) (by omega) rest
    have hy := next_plain (n := v / 64 % 0x40) (by omega) (UInt8.ofNat (v % 0x40 + 0x80) :: rest)
    have hx := next_secondOfFour (b := UInt8.ofNat (v / 262144 % 0x08 + 0xf0))
      (n := v / 4096 % 0x40) (by omega) (by rw [hb]; omega) (by rw [hb]; omega)
      (UInt8.ofNat (v / 64 % 0x40 + 0x80) :: UInt8.ofNat (v % 0x40 + 0x80) :: rest)
    have hread := decodeChar_four (by rw [hb]; omega) (by rw [hb]; omega) hx hy hz
    rw [hb, hv', hback] at hread
    exact hread

theorem decodeChars_skip (bs rest : List UInt8) :
    decodeChars bs.length (bs ++ rest) = decodeChars 0 rest := by
  induction bs with
  | nil => rfl
  | cons b bs ih => exact ih

theorem decodeChars_encode (cs : List Char) :
    decodeChars 0 (cs.flatMap String.utf8EncodeChar) = cs.map some := by
  induction cs with
  | nil => rfl
  | cons c cs ih =>
      obtain ⟨b, bs, hbytes, hchar⟩ :=
        decodeChar_utf8EncodeChar c (cs.flatMap String.utf8EncodeChar)
      rw [List.flatMap_cons, hbytes, List.cons_append, decodeChars, hchar, Nat.add_sub_cancel,
        decodeChars_skip, ih]
      rfl

theorem length_decodeChars_le (skip : Nat) (bytes : List UInt8) :
    (decodeChars skip bytes).length ≤ bytes.length := by
  induction bytes generalizing skip with
  | nil => cases skip <;> exact Nat.le_refl 0
  | cons b rest ih =>
      cases skip with
      | zero => exact Nat.succ_le_succ (ih _)
      | succ skip => exact Nat.le_succ_of_le (ih skip)

/-- A character takes at least one byte. -/
theorem length_le_of_fromUtf8 {bytes : List UInt8} {cs : List Char}
    (h : fromUtf8 bytes = some cs) : cs.length ≤ bytes.length := by
  have hsome : ∀ (l : List (Option Char)) (cs : List Char),
      l.mapM id = some cs → cs.length = l.length := by
    intro l
    induction l with
    | nil =>
        intro cs hcs
        rw [← Option.some.inj hcs]
        rfl
    | cons o l ih =>
        intro cs hcs
        rw [List.mapM_cons] at hcs
        cases o with
        | none => exact nomatch hcs
        | some c =>
            cases hrest : l.mapM id with
            | none => exact absurd hcs (by rw [hrest]; exact nofun)
            | some ds =>
                rw [hrest] at hcs
                rw [← Option.some.inj hcs, List.length_cons, List.length_cons, ih ds hrest]
  rw [hsome _ _ h]
  exact length_decodeChars_le 0 bytes

/-- ASCII text has one byte for each character. -/
theorem length_encode_of_ascii {cs : List Char} (h : ∀ c ∈ cs, c.toNat < 0x80) :
    (encode (String.ofList cs)).length = cs.length := by
  rw [encode_eq_flatMap, String.toList_ofList]
  induction cs with
  | nil => rfl
  | cons c cs ih =>
      have hone : c.utf8Size = 1 := by
        rw [Char.utf8Size_eq_one_iff]
        exact UInt32.le_iff_toNat_le.2 (Nat.le_of_lt_succ (h c List.mem_cons_self))
      rw [List.flatMap_cons, List.length_append, String.length_utf8EncodeChar, hone,
        ih fun d hd => h d (List.mem_cons_of_mem _ hd), List.length_cons, Nat.add_comm]

/-- A text is read back from its bytes. -/
theorem fromUtf8_encode (s : String) : fromUtf8 (encode s) = some s.toList := by
  rw [encode_eq_flatMap, fromUtf8, decodeChars_encode]
  induction s.toList with
  | nil => rfl
  | cons c cs ih =>
      rw [List.map_cons, List.mapM_cons, ih]
      rfl

/-! ## Texts in two parts -/

section Parts

variable {b : UInt8} {rest tail : List UInt8} {bounds : UInt8 × UInt8}

/-- Bytes that do not go on with a character that began before them. -/
def Fresh (tail : List UInt8) : Prop := ∀ b ∈ tail.head?, b < 0x80

theorem next_of_fresh (h : Fresh tail) (hlo : 0x80 ≤ bounds.1.toNat) : next bounds tail = none := by
  cases tail with
  | nil => rfl
  | cons b tail =>
      have hb : b.toNat < 0x80 := UInt8.lt_iff_toNat_lt.1 (h b rfl)
      rw [next, List.head?_cons, Option.bind_some, payload, if_neg]
      rintro ⟨hle, -⟩
      exact absurd (UInt8.le_iff_toNat_le.1 hle) (by omega)

theorem next_append_of_fresh (h : Fresh tail) (hlo : 0x80 ≤ bounds.1.toNat) (rest : List UInt8) :
    next bounds (rest ++ tail) = next bounds rest := by
  cases rest with
  | nil => exact next_of_fresh h hlo
  | cons b rest => rfl

theorem le_secondOfThree (b : UInt8) : 0x80 ≤ (secondOfThree b).1.toNat := by
  unfold secondOfThree
  split_ifs <;> decide

theorem le_secondOfFour (b : UInt8) : 0x80 ≤ (secondOfFour b).1.toNat := by
  unfold secondOfFour
  split_ifs <;> decide

/-- A character is read from the bytes before a fresh start, or given up there. -/
theorem decodeChar_append_of_fresh (h : Fresh tail) (b : UInt8) (rest : List UInt8) :
    decodeChar b (rest ++ tail) = decodeChar b rest := by
  have hplain : 0x80 ≤ (((0x80, 0xBF) : UInt8 × UInt8)).1.toNat := by decide
  match rest with
  | [] =>
      have hthree := next_of_fresh h (le_secondOfThree b)
      have hfour := next_of_fresh h (le_secondOfFour b)
      have htwo := next_of_fresh h hplain
      have hnil : ∀ bounds, next bounds [] = none := fun _ => rfl
      simp only [decodeChar, List.nil_append, hthree, hfour, htwo, hnil]
  | [c] =>
      have htwo := next_of_fresh h hplain
      have hnil : ∀ bounds, next bounds [] = none := fun _ => rfl
      have hcons : ∀ bounds, next bounds (c :: tail) = next bounds [c] := fun _ => rfl
      simp only [decodeChar, List.cons_append, List.nil_append, hcons, List.drop_succ_cons,
        List.drop_zero, htwo, hnil]
  | [c, d] =>
      have htwo := next_of_fresh h hplain
      have hnil : ∀ bounds, next bounds [] = none := fun _ => rfl
      have hcons : ∀ bounds, next bounds (c :: d :: tail) = next bounds [c, d] := fun _ => rfl
      have hcons' : ∀ bounds, next bounds (d :: tail) = next bounds [d] := fun _ => rfl
      simp only [decodeChar, List.cons_append, List.nil_append, hcons, hcons', List.drop_succ_cons,
        List.drop_zero, htwo, hnil]
  | c :: d :: e :: rest => rfl

theorem lt_of_next {k x : Nat} (h : next bounds (rest.drop k) = some x) : k < rest.length := by
  by_contra hle
  rw [List.drop_eq_nil_of_le (not_lt.1 hle)] at h
  exact nomatch h

/-- The bytes that a character takes are there. -/
theorem decodeChar_snd_le (b : UInt8) (rest : List UInt8) :
    (decodeChar b rest).2 - 1 ≤ rest.length := by
  have hfirst : ∀ {bounds x}, next bounds rest = some x → 0 < rest.length :=
    fun h => @lt_of_next rest _ 0 _ h
  unfold decodeChar
  dsimp only
  split_ifs
  · exact Nat.zero_le _
  · split
    · exact Nat.zero_le _
    · next hx => exact hfirst hx
  · split
    · exact Nat.zero_le _
    · next hx =>
        split
        · exact hfirst hx
        · next hy => exact lt_of_next hy
  · split
    · exact Nat.zero_le _
    · next hx =>
        split
        · exact hfirst hx
        · next hy =>
            split
            · exact lt_of_next hy
            · next hz => exact lt_of_next hz
  · exact Nat.zero_le _

/-- The characters of bytes before a fresh start, and those after it. -/
theorem decodeChars_append_of_fresh (h : Fresh tail) {skip : Nat} {bytes : List UInt8}
    (hskip : skip ≤ bytes.length) :
    decodeChars skip (bytes ++ tail) = decodeChars skip bytes ++ decodeChars 0 tail := by
  induction bytes generalizing skip with
  | nil =>
      obtain rfl := Nat.le_zero.1 hskip
      rfl
  | cons b rest ih =>
      cases skip with
      | zero =>
          rw [List.cons_append, decodeChars, decodeChars, decodeChar_append_of_fresh h,
            ih (decodeChar_snd_le b rest), List.cons_append]
      | succ skip => exact ih (Nat.le_of_succ_le_succ hskip)

/-- **An ASCII character ends what could not be read before it.** -/
theorem fromUtf8Lossy_append (h : Fresh tail) (bytes : List UInt8) :
    fromUtf8Lossy (bytes ++ tail) = fromUtf8Lossy bytes ++ fromUtf8Lossy tail := by
  rw [fromUtf8Lossy, decodeChars_append_of_fresh h (Nat.zero_le _), List.map_append]
  rfl

theorem fromUtf8Lossy_encode (s : String) : fromUtf8Lossy (encode s) = s.toList := by
  rw [encode_eq_flatMap, fromUtf8Lossy, decodeChars_encode, List.map_map]
  exact List.map_id _

end Parts
end AsterBridge.Lib.Utf8
