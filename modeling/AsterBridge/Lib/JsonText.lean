import AsterBridge.Lib.Json

/-!
# Compact JSON texts

The text that a JSON value is written as without whitespace, and a reader for such texts. Numbers
are integers. `read_write` is the round trip: the reader stops where the value ends, and the only
thing it must know about what follows is that no digit does.
-/

set_option autoImplicit false

namespace AsterBridge.Lib.JsonText

/-! ## Strings -/

/-- The letter of a short escape. -/
def shortEscape (c : Char) : Option Char :=
  match c with
  | '"' => some '"'
  | '\\' => some '\\'
  | '\n' => some 'n'
  | '\r' => some 'r'
  | '\t' => some 't'
  | '\x08' => some 'b'
  | '\x0c' => some 'f'
  | _ => none

/-- The character of a short escape. -/
def unescape (letter : Char) : Option Char :=
  match letter with
  | '"' => some '"'
  | '\\' => some '\\'
  | '/' => some '/'
  | 'n' => some '\n'
  | 'r' => some '\r'
  | 't' => some '\t'
  | 'b' => some '\x08'
  | 'f' => some '\x0c'
  | _ => none

/-- The value of a hexadecimal digit. -/
def hexValue (c : Char) : Option Nat :=
  if c.isDigit then some (c.toNat - 48)
  else if 'a' ≤ c ∧ c ≤ 'f' then some (c.toNat - 87)
  else if 'A' ≤ c ∧ c ≤ 'F' then some (c.toNat - 55)
  else none

/-- A character in a string. -/
def escape (c : Char) : List Char :=
  match shortEscape c with
  | some letter => ['\\', letter]
  | none =>
      if c.toNat < 0x20 then
        ['\\', 'u', '0', '0', Nat.digitChar (c.toNat / 16), Nat.digitChar (c.toNat % 16)]
      else [c]

/-- The characters of a string and the closing quote. -/
def writeChars : List Char → List Char
  | [] => ['"']
  | c :: cs => escape c ++ writeChars cs

/-- A string with its quotes. -/
def writeString (s : String) : List Char := '"' :: writeChars s.toList

/-- The characters up to the closing quote, and what follows it. -/
def readChars : List Char → Option (List Char × List Char)
  | [] => none
  | '"' :: rest => some ([], rest)
  | '\\' :: 'u' :: a :: b :: c :: d :: rest => do
      let a ← hexValue a
      let b ← hexValue b
      let c ← hexValue c
      let d ← hexValue d
      let (cs, rest) ← readChars rest
      return (Char.ofNat (((a * 16 + b) * 16 + c) * 16 + d) :: cs, rest)
  | '\\' :: letter :: rest => do
      let c ← unescape letter
      let (cs, rest) ← readChars rest
      return (c :: cs, rest)
  | c :: rest =>
      if c.toNat < 0x20 then none
      else do
        let (cs, rest) ← readChars rest
        return (c :: cs, rest)

theorem unescape_shortEscape {c letter : Char} (h : shortEscape c = some letter) :
    unescape letter = some c ∧ letter ≠ 'u' := by
  unfold shortEscape at h
  split at h
  all_goals first | (cases h; exact ⟨rfl, by decide⟩) | (exact absurd h (by simp))

theorem ne_of_shortEscape_none {c : Char} (h : shortEscape c = none) : c ≠ '"' ∧ c ≠ '\\' := by
  constructor
  · rintro rfl
    exact absurd h (by decide)
  · rintro rfl
    exact absurd h (by decide)

theorem hexValue_digitChar {n : Nat} (h : n < 16) : hexValue (Nat.digitChar n) = some n :=
  (show ∀ n : Fin 16, hexValue (Nat.digitChar n) = some n.1 by decide) ⟨n, h⟩

theorem readChars_escape (c : Char) (rest : List Char) :
    readChars (escape c ++ rest) = (readChars rest).bind fun p => some (c :: p.1, p.2) := by
  unfold escape
  cases hshort : shortEscape c with
  | some letter =>
      obtain ⟨hletter, hu⟩ := unescape_shortEscape hshort
      simp only [List.cons_append, List.nil_append]
      rw [readChars]
      · rw [hletter]
        rfl
      · intro _ _ _ _ _ hletter_u _
        exact hu hletter_u
  | none =>
      obtain ⟨hquote, hback⟩ := ne_of_shortEscape_none hshort
      dsimp only
      split
      next hcontrol =>
        have hhigh := hexValue_digitChar (n := c.toNat / 16) (by omega)
        have hlow := hexValue_digitChar (n := c.toNat % 16) (by omega)
        have hzero : hexValue '0' = some 0 := by decide
        have hc : Char.ofNat (((0 * 16 + 0) * 16 + c.toNat / 16) * 16 + c.toNat % 16) = c := by
          rw [show ((0 * 16 + 0) * 16 + c.toNat / 16) * 16 + c.toNat % 16 = c.toNat by omega]
          exact Char.ofNat_toNat c
        simp only [List.cons_append, List.nil_append, readChars, hzero, hhigh, hlow,
          Option.bind_eq_bind, Option.bind_some, hc]
        rfl
      next hplain =>
        -- neither a quote nor the start of an escape
        simp only [List.cons_append, List.nil_append]
        rw [readChars]
        · rw [if_neg hplain]
          rfl
        · exact hquote
        · intro _ _ _ _ _ h _
          exact hback h
        · intro _ _ h _
          exact hback h

theorem readChars_writeChars (cs rest : List Char) :
    readChars (writeChars cs ++ rest) = some (cs, rest) := by
  induction cs with
  | nil => rfl
  | cons c cs ih =>
      rw [writeChars, List.append_assoc, readChars_escape, ih]
      rfl

/-! ## Sequences -/

section Sequences

variable {α : Type} (elem : List Char → Option (α × List Char)) (close : Char)

/-- Each text behind a comma, and the closing bracket. -/
def writeRest : List (List Char) → List Char
  | [] => [close]
  | part :: parts => ',' :: (part ++ writeRest parts)

/-- Texts between commas, and the closing bracket. -/
def writeSeq : List (List Char) → List Char
  | [] => [close]
  | part :: parts => part ++ writeRest close parts

/-- The elements after the first one, up to the closing bracket. -/
def readRest : Nat → List Char → Option (List α × List Char)
  | fuel + 1, c :: text =>
      if c = close then some ([], text)
      else if c = ',' then do
        let (a, text) ← elem text
        let (as, text) ← readRest fuel text
        return (a :: as, text)
      else none
  | _, _ => none

/-- The elements up to the closing bracket. -/
def readSeq (fuel : Nat) (text : List Char) : Option (List α × List Char) :=
  match text with
  | [] => none
  | c :: rest =>
      if c = close then some ([], rest)
      else do
        let (a, text) ← elem text
        let (as, text) ← readRest elem close fuel text
        return (a :: as, text)

end Sequences

/-- No digit starts the text. -/
def NoDigit (text : List Char) : Prop := ∀ c ∈ text.head?, c.isDigit = false

theorem noDigit_cons {c : Char} (h : c.isDigit = false) (text : List Char) :
    NoDigit (c :: text) := by
  intro d hd
  cases hd
  exact h

section Sequences

variable {α : Type} {elem : List Char → Option (α × List Char)} {close : Char}

/-- `elem` reads `a` from the text `part`, whatever follows. -/
def Reads (elem : List Char → Option (α × List Char)) (part : List Char) (a : α) : Prop :=
  ∀ rest, NoDigit rest → elem (part ++ rest) = some (a, rest)

theorem noDigit_writeRest (hclose : close.isDigit = false) (parts : List (List Char))
    (rest : List Char) : NoDigit (writeRest close parts ++ rest) := by
  cases parts with
  | nil => exact noDigit_cons hclose _
  | cons part parts => exact noDigit_cons (by decide) _

theorem readRest_writeRest (hclose : close.isDigit = false) (hcomma : ',' ≠ close)
    {parts : List (List Char)} {as : List α} (h : List.Forall₂ (Reads elem) parts as)
    {fuel : Nat} (hfuel : parts.length < fuel) (rest : List Char) :
    readRest elem close fuel (writeRest close parts ++ rest) = some (as, rest) := by
  induction h generalizing fuel with
  | nil =>
      obtain ⟨fuel, rfl⟩ := Nat.exists_eq_add_of_lt hfuel
      exact if_pos rfl
  | @cons part a parts as hpart _ ih =>
      obtain ⟨fuel, rfl⟩ : ∃ n, fuel = n + 1 := ⟨fuel - 1, by omega⟩
      have hlength : parts.length < fuel := by
        simp only [List.length_cons] at hfuel
        omega
      have hrest := ih hlength
      have hfirst := hpart _ (noDigit_writeRest hclose parts rest)
      rw [writeRest, List.cons_append, List.append_assoc, readRest, if_neg hcomma, if_pos rfl,
        hfirst]
      dsimp only [Option.bind_eq_bind, Option.bind_some]
      rw [hrest]
      rfl

theorem readSeq_writeSeq (hclose : close.isDigit = false) (hcomma : ',' ≠ close)
    {parts : List (List Char)} {as : List α} (h : List.Forall₂ (Reads elem) parts as)
    (hhead : ∀ part ∈ parts, ∃ c cs, part = c :: cs ∧ c ≠ close)
    {fuel : Nat} (hfuel : parts.length < fuel) (rest : List Char) :
    readSeq elem close fuel (writeSeq close parts ++ rest) = some (as, rest) := by
  cases h with
  | nil => exact if_pos rfl
  | @cons part a parts as hpart hparts =>
      obtain ⟨c, cs, rfl, hc⟩ := hhead part List.mem_cons_self
      have hlength : parts.length < fuel := by
        simp only [List.length_cons] at hfuel
        omega
      have hfirst := hpart _ (noDigit_writeRest hclose parts rest)
      have hrest := readRest_writeRest hclose hcomma hparts hlength rest
      rw [writeSeq, List.append_assoc]
      rw [List.cons_append] at hfirst ⊢
      rw [readSeq, if_neg hc, hfirst]
      dsimp only [Option.bind_eq_bind, Option.bind_some]
      rw [hrest]
      rfl

end Sequences

/-! ## Values -/

mutual

/-- The text of a value. -/
def write : Json → List Char
  | .null => ['n', 'u', 'l', 'l']
  | .bool true => ['t', 'r', 'u', 'e']
  | .bool false => ['f', 'a', 'l', 's', 'e']
  | .number literal => literal.toList
  | .string s => writeString s
  | .array items => '[' :: writeSeq ']' (writeItems items)
  | .object members => '{' :: writeSeq '}' (writeMembers members)

/-- The texts of items. -/
def writeItems : List Json → List (List Char)
  | [] => []
  | j :: rest => write j :: writeItems rest

/-- The texts of members. -/
def writeMembers : List (String × Json) → List (List Char)
  | [] => []
  | (name, j) :: rest => (writeString name ++ ':' :: write j) :: writeMembers rest

end

/-- A member. -/
def readMember (elem : List Char → Option (Json × List Char)) (text : List Char) :
    Option ((String × Json) × List Char) :=
  match text with
  | '"' :: text => do
      let (name, text) ← readChars text
      match text with
      | ':' :: text => do
          let (j, text) ← elem text
          return ((String.ofList name, j), text)
      | _ => none
  | _ => none

/-- A number without its sign. -/
def readDigits (text : List Char) : Option (List Char × List Char) :=
  match text.takeWhile Char.isDigit with
  | [] => none
  | digits => some (digits, text.dropWhile Char.isDigit)

/-- A value, and what follows it. -/
def readValue : Nat → List Char → Option (Json × List Char)
  | 0, _ => none
  | fuel + 1, text =>
      match text with
      | 'n' :: 'u' :: 'l' :: 'l' :: rest => some (.null, rest)
      | 't' :: 'r' :: 'u' :: 'e' :: rest => some (.bool true, rest)
      | 'f' :: 'a' :: 'l' :: 's' :: 'e' :: rest => some (.bool false, rest)
      | '"' :: rest => do
          let (cs, rest) ← readChars rest
          return (.string (String.ofList cs), rest)
      | '[' :: rest => do
          let (items, rest) ← readSeq (readValue fuel) ']' fuel rest
          return (.array items, rest)
      | '{' :: rest => do
          let (members, rest) ← readSeq (readMember (readValue fuel)) '}' fuel rest
          return (.object members, rest)
      | '-' :: rest => do
          let (digits, rest) ← readDigits rest
          return (.number (String.ofList ('-' :: digits)), rest)
      | _ => do
          let (digits, rest) ← readDigits text
          return (.number (String.ofList digits), rest)

/-- The value of a text. -/
def read (text : List Char) : Option Json :=
  match readValue (text.length + 1) text with
  | some (j, []) => some j
  | _ => none

/-- Values whose numbers are integers and whose members have different names. -/
inductive Plain : Json → Prop where
  | null : Plain .null
  | bool (b : Bool) : Plain (.bool b)
  | number (n : Int) : Plain (.number (toString n))
  | string (s : String) : Plain (.string s)
  | array {items : List Json} (h : ∀ j ∈ items, Plain j) : Plain (.array items)
  | object {members : List (String × Json)} (hnames : (members.map Prod.fst).Nodup)
      (h : ∀ m ∈ members, Plain m.2) : Plain (.object members)

/-! ## Round trip -/

theorem writeItems_eq_map (items : List Json) : writeItems items = items.map write := by
  induction items with
  | nil => rfl
  | cons j rest ih => rw [writeItems, ih, List.map_cons]

/-- The text of a member. -/
def writeMember (m : String × Json) : List Char := writeString m.1 ++ ':' :: write m.2

theorem writeMembers_eq_map (members : List (String × Json)) :
    writeMembers members = members.map writeMember := by
  induction members with
  | nil => rfl
  | cons m rest ih =>
      obtain ⟨name, j⟩ := m
      rw [writeMembers, ih, List.map_cons]
      rfl

theorem length_le_writeRest (close : Char) (parts : List (List Char)) :
    parts.length < (writeRest close parts).length := by
  induction parts with
  | nil => exact Nat.zero_lt_one
  | cons part parts ih =>
      simp only [writeRest, List.length_cons, List.length_append]
      omega

theorem length_le_writeSeq (close : Char) (parts : List (List Char)) :
    parts.length ≤ (writeSeq close parts).length := by
  cases parts with
  | nil => exact Nat.zero_le _
  | cons part parts =>
      have := length_le_writeRest close parts
      simp only [writeSeq, List.length_cons, List.length_append]
      omega

theorem length_lt_writeRest (close : Char) {parts : List (List Char)} {part : List Char}
    (h : part ∈ parts) : part.length < (writeRest close parts).length := by
  induction parts with
  | nil => exact absurd h List.not_mem_nil
  | cons p parts ih =>
      simp only [writeRest, List.length_cons, List.length_append]
      rcases List.mem_cons.1 h with rfl | hmem
      · omega
      · have := ih hmem
        omega

theorem length_lt_writeSeq (close : Char) {parts : List (List Char)} {part : List Char}
    (h : part ∈ parts) : part.length < (writeSeq close parts).length := by
  cases parts with
  | nil => exact absurd h List.not_mem_nil
  | cons p parts =>
      have hcount := length_le_writeRest close parts
      simp only [writeSeq, List.length_append]
      rcases List.mem_cons.1 h with rfl | hmem
      · omega
      · have := length_lt_writeRest close hmem
        omega

/-- The digits of an integer and its sign. -/
theorem toList_toString (n : Int) :
    (toString n).toList = Nat.toDigits 10 n.natAbs ∨
      (toString n).toList = '-' :: Nat.toDigits 10 n.natAbs := by
  cases n with
  | ofNat n =>
      left
      exact Nat.toList_repr
  | negSucc n =>
      right
      change ("-" ++ Nat.repr (n + 1)).toList = _
      rw [String.toList_append, Nat.toList_repr]
      rfl

theorem isDigit_of_mem_toDigits {n : Nat} {c : Char} (h : c ∈ Nat.toDigits 10 n) :
    c.isDigit = true :=
  Nat.isDigit_of_mem_toDigits (by decide) (by decide) h

theorem readDigits_toDigits (n : Nat) {rest : List Char} (hrest : NoDigit rest) :
    readDigits (Nat.toDigits 10 n ++ rest) = some (Nat.toDigits 10 n, rest) := by
  have hall : ∀ c ∈ Nat.toDigits 10 n, c.isDigit = true := fun c hc => isDigit_of_mem_toDigits hc
  have hnone : rest.takeWhile Char.isDigit = [] ∧ rest.dropWhile Char.isDigit = rest := by
    cases rest with
    | nil => exact ⟨rfl, rfl⟩
    | cons c rest =>
        have hc := hrest c rfl
        constructor
        · rw [List.takeWhile_cons_of_neg (by rw [hc]; exact Bool.false_ne_true)]
        · rw [List.dropWhile_cons_of_neg (by rw [hc]; exact Bool.false_ne_true)]
  have htake : (Nat.toDigits 10 n ++ rest).takeWhile Char.isDigit = Nat.toDigits 10 n := by
    rw [List.takeWhile_append_of_pos hall, hnone.1, List.append_nil]
  have hdrop : (Nat.toDigits 10 n ++ rest).dropWhile Char.isDigit = rest := by
    rw [List.dropWhile_append_of_pos hall, hnone.2]
  rw [readDigits, htake, hdrop]
  cases hdigits : Nat.toDigits 10 n with
  | nil => exact absurd hdigits Nat.toDigits_ne_nil
  | cons c cs => rfl

theorem readValue_digit {c : Char} (hc : c.isDigit = true) (cs : List Char) (fuel : Nat) :
    readValue (fuel + 1) (c :: cs) =
      (readDigits (c :: cs)).bind fun p => some (.number (String.ofList p.1), p.2) := by
  unfold readValue
  -- no other value starts with a digit
  split
  case h_8 => rfl
  all_goals
    rename_i heq
    cases heq
    exact absurd hc (by decide)

theorem readValue_number (n : Int) (fuel : Nat) :
    Reads (readValue (fuel + 1)) (toString n).toList (.number (toString n)) := by
  intro rest hrest
  have hread := readDigits_toDigits n.natAbs hrest
  have hback : String.ofList (toString n).toList = toString n := String.ofList_toList
  rcases toList_toString n with hdigits | hminus
  · rw [hdigits] at hback ⊢
    obtain ⟨c, cs, htext⟩ := List.exists_cons_of_ne_nil (Nat.toDigits_ne_nil (n := n.natAbs))
    have hc : c.isDigit = true := isDigit_of_mem_toDigits (htext ▸ List.mem_cons_self)
    rw [htext, List.cons_append, readValue_digit hc, ← List.cons_append, ← htext, hread]
    rw [← hback]
    rfl
  · rw [hminus] at hback ⊢
    rw [List.cons_append, readValue]
    dsimp only [Option.bind_eq_bind]
    rw [hread]
    dsimp only [Option.bind_some]
    rw [hback]
    rfl

/-- The text of a value starts with a character that closes nothing. -/
theorem write_head {j : Json} (h : Plain j) :
    ∃ c cs, write j = c :: cs ∧ c ≠ ']' := by
  cases h with
  | null => exact ⟨_, _, rfl, by decide⟩
  | bool b =>
      cases b
      · exact ⟨_, _, rfl, by decide⟩
      · exact ⟨_, _, rfl, by decide⟩
  | number n =>
      rw [write]
      rcases toList_toString n with hdigits | hminus
      · obtain ⟨c, cs, htext⟩ := List.exists_cons_of_ne_nil (Nat.toDigits_ne_nil (n := n.natAbs))
        have hc : c.isDigit = true := isDigit_of_mem_toDigits (htext ▸ List.mem_cons_self)
        refine ⟨c, cs, hdigits.trans htext, ?_⟩
        rintro rfl
        exact absurd hc (by decide)
      · exact ⟨_, _, hminus, by decide⟩
  | string s => exact ⟨_, _, rfl, by decide⟩
  | array h => exact ⟨_, _, rfl, by decide⟩
  | object hnames h => exact ⟨_, _, rfl, by decide⟩

theorem readMember_writeMember {elem : List Char → Option (Json × List Char)}
    {m : String × Json} (h : Reads elem (write m.2) m.2) :
    Reads (readMember elem) (writeMember m) m := by
  intro rest hrest
  have hname := readChars_writeChars m.1.toList (':' :: (write m.2 ++ rest))
  have htext : writeMember m ++ rest =
      '"' :: (writeChars m.1.toList ++ ':' :: (write m.2 ++ rest)) := by
    rw [writeMember, writeString, List.append_assoc]
    rfl
  rw [htext, readMember]
  dsimp only [Option.bind_eq_bind]
  rw [hname]
  change (elem (write m.2 ++ rest)).bind _ = _
  rw [h rest hrest]
  dsimp only [Option.bind_some]
  rw [String.ofList_toList]
  rfl

/-- The reader reads each value from its text. -/
theorem readValue_write {j : Json} (h : Plain j) :
    ∀ fuel, (write j).length < fuel → Reads (readValue fuel) (write j) j := by
  induction h with
  | null =>
      intro fuel hfuel rest _
      obtain ⟨fuel, rfl⟩ : ∃ n, fuel = n + 1 := ⟨fuel - 1, by omega⟩
      rfl
  | bool b =>
      intro fuel hfuel rest _
      obtain ⟨fuel, rfl⟩ : ∃ n, fuel = n + 1 := ⟨fuel - 1, by omega⟩
      cases b
      · rfl
      · rfl
  | number n =>
      intro fuel hfuel
      obtain ⟨fuel, rfl⟩ : ∃ n, fuel = n + 1 := ⟨fuel - 1, by omega⟩
      rw [write]
      exact readValue_number n fuel
  | string s =>
      intro fuel hfuel rest _
      obtain ⟨fuel, rfl⟩ : ∃ n, fuel = n + 1 := ⟨fuel - 1, by omega⟩
      rw [write, writeString, List.cons_append, readValue]
      dsimp only [Option.bind_eq_bind]
      rw [readChars_writeChars]
      dsimp only [Option.bind_some]
      rw [String.ofList_toList]
      rfl
  | @array items hitems ih =>
      intro fuel hfuel rest hrest
      rw [write, List.length_cons] at hfuel
      obtain ⟨fuel, rfl⟩ : ∃ n, fuel = n + 1 := ⟨fuel - 1, by omega⟩
      have hshort : ∀ j ∈ items, (write j).length < fuel := by
        intro j hj
        have hpart : write j ∈ writeItems items := by
          rw [writeItems_eq_map]
          exact List.mem_map_of_mem hj
        have := length_lt_writeSeq ']' hpart
        omega
      have hall : List.Forall₂ (Reads (readValue fuel)) (writeItems items) items := by
        rw [writeItems_eq_map, List.forall₂_map_left_iff]
        exact List.forall₂_same.2 fun j hj => ih j hj fuel (hshort j hj)
      have hhead : ∀ part ∈ writeItems items, ∃ c cs, part = c :: cs ∧ c ≠ ']' := by
        intro part hpart
        rw [writeItems_eq_map] at hpart
        obtain ⟨j, hj, rfl⟩ := List.mem_map.1 hpart
        exact write_head (hitems j hj)
      have hcount : (writeItems items).length < fuel :=
        lt_of_le_of_lt (length_le_writeSeq ']' _) (by omega)
      have hread := readSeq_writeSeq (by decide) (by decide) hall hhead hcount rest
      rw [write, List.cons_append, readValue]
      dsimp only [Option.bind_eq_bind]
      rw [hread]
      rfl
  | @object members hnames hmembers ih =>
      intro fuel hfuel rest hrest
      rw [write, List.length_cons] at hfuel
      obtain ⟨fuel, rfl⟩ : ∃ n, fuel = n + 1 := ⟨fuel - 1, by omega⟩
      have hshort : ∀ m ∈ members, (write m.2).length < fuel := by
        intro m hm
        have hpart : writeMember m ∈ writeMembers members := by
          rw [writeMembers_eq_map]
          exact List.mem_map_of_mem hm
        have := length_lt_writeSeq '}' hpart
        simp only [writeMember, List.length_append, List.length_cons] at this
        omega
      have hall : List.Forall₂ (Reads (readMember (readValue fuel))) (writeMembers members)
          members := by
        rw [writeMembers_eq_map, List.forall₂_map_left_iff]
        exact List.forall₂_same.2 fun m hm => readMember_writeMember (ih m hm fuel (hshort m hm))
      have hhead : ∀ part ∈ writeMembers members, ∃ c cs, part = c :: cs ∧ c ≠ '}' := by
        intro part hpart
        rw [writeMembers_eq_map] at hpart
        obtain ⟨m, hm, rfl⟩ := List.mem_map.1 hpart
        exact ⟨_, _, rfl, by decide⟩
      have hcount : (writeMembers members).length < fuel :=
        lt_of_le_of_lt (length_le_writeSeq '}' _) (by omega)
      have hread := readSeq_writeSeq (by decide) (by decide) hall hhead hcount rest
      rw [write, List.cons_append, readValue]
      dsimp only [Option.bind_eq_bind]
      rw [hread]
      rfl

/-- **Round trip.** A plain value is read back from its text. -/
theorem read_write {j : Json} (h : Plain j) : read (write j) = some j := by
  have hread := readValue_write h _ (Nat.lt_succ_self _) [] (by intro c hc; exact nomatch hc)
  rw [List.append_nil] at hread
  rw [read, hread]

example : write (.object [("a", .array [.number "-1", .null])]) = "\x7b\"a\":[-1,null]\x7d".toList := by
  decide

end AsterBridge.Lib.JsonText
