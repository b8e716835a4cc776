import AsterBridge.Lib.Text
import Mathlib.Data.List.GetD

/-!
# Modified UTF-7

The mailbox name codec of `imap/mutf7.rs` on lists of characters. Code units and bytes are
numbers. `decode_encode` is the round trip; it goes through the runs of base64
(`decodeRun_encodeRun`) and of UTF-16 (`fromUtf16_encodeUtf16`).
-/

set_option autoImplicit false

namespace AsterBridge.Imap.Mutf7

/-- `MODIFIED_BASE64` -/
def modifiedBase64 : List Char :=
  "ABCDEFGHIJKLMNOPQRSTUVWXYZabcdefghijklmnopqrstuvwxyz0123456789+,".toList

/-- `is_direct` -/
def isDirect (c : Char) : Bool := 0x20 ≤ c.toNat && c.toNat ≤ 0x7E && c != '&'

/-! ## UTF-16 -/

/-- `char::encode_utf16` -/
def encodeUtf16 (c : Char) : List Nat :=
  if c.toNat < 0x10000 then [c.toNat]
  else [0xD800 + (c.toNat - 0x10000) / 0x400, 0xDC00 + (c.toNat - 0x10000) % 0x400]

/-- `String::from_utf16`: a surrogate must be one of a pair. -/
def fromUtf16 : List Nat → Option (List Char)
  | [] => some []
  | u :: us =>
      if u < 0xD800 ∨ 0xDFFF < u then (fromUtf16 us).map (Char.ofNat u :: ·)
      else if 0xDBFF < u then none
      else
        match us with
        | [] => none
        | v :: us =>
            if 0xDC00 ≤ v ∧ v ≤ 0xDFFF then
              (fromUtf16 us).map
                (Char.ofNat (0x10000 + (u - 0xD800) * 0x400 + (v - 0xDC00)) :: ·)
            else none

/-- Scalar values leave out the surrogates. -/
theorem scalar_range (c : Char) :
    c.toNat < 0xD800 ∨ 0xDFFF < c.toNat ∧ c.toNat < 0x110000 := c.valid

theorem encodeUtf16_lt (c : Char) : ∀ u ∈ encodeUtf16 c, u < 0x10000 := by
  have hc := scalar_range c
  intro u hu
  unfold encodeUtf16 at hu
  split at hu
  · obtain rfl := List.mem_singleton.1 hu
    assumption
  · simp only [List.mem_cons, List.not_mem_nil, or_false] at hu
    omega

/-- A character is read back from its code units. -/
theorem fromUtf16_encodeUtf16_append (c : Char) (us : List Nat) :
    fromUtf16 (encodeUtf16 c ++ us) = (fromUtf16 us).map (c :: ·) := by
  have hc := scalar_range c
  unfold encodeUtf16
  split
  · have hunit : c.toNat < 0xD800 ∨ 0xDFFF < c.toNat := by omega
    rw [List.singleton_append, fromUtf16.eq_def]
    dsimp only
    rw [if_pos hunit, Char.ofNat_toNat]
  · have hhigh : ¬ (0xD800 + (c.toNat - 0x10000) / 0x400 < 0xD800 ∨
        0xDFFF < 0xD800 + (c.toNat - 0x10000) / 0x400) := by omega
    have hlead : ¬ 0xDBFF < 0xD800 + (c.toNat - 0x10000) / 0x400 := by omega
    have hlow : 0xDC00 ≤ 0xDC00 + (c.toNat - 0x10000) % 0x400 ∧
        0xDC00 + (c.toNat - 0x10000) % 0x400 ≤ 0xDFFF := by omega
    have hvalue : 0x10000 + (0xD800 + (c.toNat - 0x10000) / 0x400 - 0xD800) * 0x400 +
        (0xDC00 + (c.toNat - 0x10000) % 0x400 - 0xDC00) = c.toNat := by omega
    rw [List.cons_append, List.cons_append, List.nil_append, fromUtf16.eq_def]
    dsimp only
    rw [if_neg hhigh, if_neg hlead, if_pos hlow, hvalue, Char.ofNat_toNat]

theorem fromUtf16_encodeUtf16 (cs : List Char) :
    fromUtf16 (cs.flatMap encodeUtf16) = some cs := by
  induction cs with
  | nil => rfl
  | cons c cs ih => rw [List.flatMap_cons, fromUtf16_encodeUtf16_append, ih, Option.map_some]

/-! ## Base64 -/

/-- The symbol of six bits. -/
def symbol (idx : Nat) : Char := modifiedBase64.getD idx 'A'

/-- The first `emit` symbols of a chunk. -/
def chunkSymbols (b0 b1 b2 emit : Nat) : List Char :=
  (List.range emit).map fun i =>
    symbol ((b0 * 0x10000 + b1 * 0x100 + b2) / 2 ^ (18 - 6 * i) % 64)

/-- The loop over `bytes.chunks(3)`. -/
def encodeBytes : List Nat → List Char
  | [] => []
  | [b0] => chunkSymbols b0 0 0 2
  | [b0, b1] => chunkSymbols b0 b1 0 3
  | b0 :: b1 :: b2 :: rest => chunkSymbols b0 b1 b2 4 ++ encodeBytes rest

/-- `u16::to_be_bytes` -/
def toBeBytes (u : Nat) : List Nat := [u / 0x100, u % 0x100]

/-- `encode_run` -/
def encodeRun (units : List Nat) : List Char := encodeBytes (units.flatMap toBeBytes)

/-- The loop of `decode_run`: the bits left over, their number, and the bytes. -/
def decodeSymbols (bits count : Nat) (bytes : List Nat) :
    List Char → Option (Nat × Nat × List Nat)
  | [] => some (bits, count, bytes)
  | c :: cs =>
      match modifiedBase64.idxOf? c with
      | none => none
      | some v =>
          let bits := bits * 64 + v
          if 8 ≤ count + 6 then
            decodeSymbols (bits % 2 ^ (count - 2)) (count - 2)
              (bytes ++ [bits / 2 ^ (count - 2) % 0x100]) cs
          else decodeSymbols (bits % 2 ^ (count + 6)) (count + 6) bytes cs

/-- `bytes.chunks(2)` through `u16::from_be_bytes`. -/
def fromBeBytes : List Nat → List Nat
  | b0 :: b1 :: rest => (b0 * 0x100 + b1) :: fromBeBytes rest
  | _ => []

/-- `decode_run` -/
def decodeRun (run : List Char) : Option (List Nat) :=
  match decodeSymbols 0 0 [] run with
  | none => none
  | some (bits, count, bytes) =>
      if 6 ≤ count ∨ bits ≠ 0 then none
      else if bytes = [] ∨ bytes.length % 2 ≠ 0 then none
      else some (fromBeBytes bytes)

theorem idxOf?_symbol {i : Nat} (h : i < 64) : modifiedBase64.idxOf? (symbol i) = some i := by
  have hall : ∀ i : Fin 64, modifiedBase64.idxOf? (symbol i) = some i.val := by decide +kernel
  exact hall ⟨i, h⟩

/-- Symbols are neither the end of a run nor the start of one. -/
theorem symbol_ne_minus (i : Nat) : symbol i ≠ '-' := by
  intro h
  by_cases hi : i < 64
  · have hidx := idxOf?_symbol hi
    rw [h] at hidx
    exact absurd hidx (by
      rw [show modifiedBase64.idxOf? '-' = none by decide +kernel]
      simp)
  · rw [symbol, List.getD_eq_default _ _ (Nat.not_lt.1 hi)] at h
    exact absurd h (by decide)

theorem decodeSymbols_symbol {bits count i : Nat} {bytes : List Nat} {cs : List Char}
    (h : i < 64) :
    decodeSymbols bits count bytes (symbol i :: cs) =
      if 8 ≤ count + 6 then
        decodeSymbols ((bits * 64 + i) % 2 ^ (count - 2)) (count - 2)
          (bytes ++ [(bits * 64 + i) / 2 ^ (count - 2) % 0x100]) cs
      else decodeSymbols ((bits * 64 + i) % 2 ^ (count + 6)) (count + 6) bytes cs := by
  rw [decodeSymbols, idxOf?_symbol h]

/-- The symbols of a whole chunk give its three bytes and leave no bits. -/
theorem decodeSymbols_chunk {b0 b1 b2 : Nat} (h0 : b0 < 0x100) (h1 : b1 < 0x100)
    (h2 : b2 < 0x100) (bytes : List Nat) (cs : List Char) :
    decodeSymbols 0 0 bytes (chunkSymbols b0 b1 b2 4 ++ cs) =
      decodeSymbols 0 0 (bytes ++ [b0, b1, b2]) cs := by
  have hsymbols : chunkSymbols b0 b1 b2 4 =
      [symbol ((b0 * 0x10000 + b1 * 0x100 + b2) / 2 ^ 18 % 64),
        symbol ((b0 * 0x10000 + b1 * 0x100 + b2) / 2 ^ 12 % 64),
        symbol ((b0 * 0x10000 + b1 * 0x100 + b2) / 2 ^ 6 % 64),
        symbol ((b0 * 0x10000 + b1 * 0x100 + b2) / 2 ^ 0 % 64)] := rfl
  rw [hsymbols]
  simp only [List.cons_append, List.nil_append]
  rw [decodeSymbols_symbol (by omega), if_neg (by omega), decodeSymbols_symbol (by omega),
    if_pos (by omega), decodeSymbols_symbol (by omega), if_pos (by omega),
    decodeSymbols_symbol (by omega), if_pos (by omega)]
  simp only [List.append_assoc, List.cons_append, List.nil_append, Nat.zero_add,
    Nat.reduceSub, Nat.reducePow]
  congr 1
  · omega
  · congr 1
    simp only [List.cons.injEq, and_true]
    exact ⟨by omega, by omega, by omega⟩

/-- Bytes are read back from their symbols, with less than six bits left, all of them 0. -/
theorem decodeSymbols_encodeBytes (input bytes : List Nat) (h : ∀ b ∈ input, b < 0x100) :
    ∃ count < 6, decodeSymbols 0 0 bytes (encodeBytes input) = some (0, count, bytes ++ input) := by
  induction input using encodeBytes.induct generalizing bytes with
  | case1 => exact ⟨0, by omega, by rw [List.append_nil]; rfl⟩
  | case2 b0 =>
      have h0 := h b0 (by simp)
      refine ⟨4, by omega, ?_⟩
      have hsymbols : encodeBytes [b0] =
          [symbol ((b0 * 0x10000 + 0 * 0x100 + 0) / 2 ^ 18 % 64),
            symbol ((b0 * 0x10000 + 0 * 0x100 + 0) / 2 ^ 12 % 64)] := rfl
      rw [hsymbols, decodeSymbols_symbol (by omega), if_neg (by omega),
        decodeSymbols_symbol (by omega), if_pos (by omega)]
      simp only [decodeSymbols, Nat.zero_add, Nat.reduceSub, Nat.reducePow,
        Option.some.injEq, Prod.mk.injEq, true_and, List.append_cancel_left_eq, List.cons.injEq,
        and_true]
      exact ⟨by omega, by omega⟩
  | case3 b0 b1 =>
      have h0 := h b0 (by simp)
      have h1 := h b1 (by simp)
      refine ⟨2, by omega, ?_⟩
      have hsymbols : encodeBytes [b0, b1] =
          [symbol ((b0 * 0x10000 + b1 * 0x100 + 0) / 2 ^ 18 % 64),
            symbol ((b0 * 0x10000 + b1 * 0x100 + 0) / 2 ^ 12 % 64),
            symbol ((b0 * 0x10000 + b1 * 0x100 + 0) / 2 ^ 6 % 64)] := rfl
      rw [hsymbols, decodeSymbols_symbol (by omega), if_neg (by omega),
        decodeSymbols_symbol (by omega), if_pos (by omega), decodeSymbols_symbol (by omega),
        if_pos (by omega)]
      simp only [decodeSymbols, Nat.zero_add, Nat.reduceSub, Nat.reducePow,
        Option.some.injEq, Prod.mk.injEq, true_and, List.append_assoc, List.cons_append,
        List.nil_append, List.append_cancel_left_eq, List.cons.injEq, and_true]
      exact ⟨by omega, by omega, by omega⟩
  | case4 b0 b1 b2 rest ih =>
      have h0 := h b0 (by simp)
      have h1 := h b1 (by simp)
      have h2 := h b2 (by simp)
      obtain ⟨count, hcount, hrest⟩ := ih (bytes ++ [b0, b1, b2]) fun b hb => h b (by simp [hb])
      refine ⟨count, hcount, ?_⟩
      rw [encodeBytes, decodeSymbols_chunk h0 h1 h2, hrest]
      simp

theorem fromBeBytes_toBeBytes (units : List Nat) :
    fromBeBytes (units.flatMap toBeBytes) = units := by
  induction units with
  | nil => rfl
  | cons u units ih =>
      have hu : u / 0x100 * 0x100 + u % 0x100 = u := by omega
      show (u / 0x100 * 0x100 + u % 0x100) :: fromBeBytes (units.flatMap toBeBytes) = _
      rw [ih, hu]

/-- **A run is read back.** -/
theorem decodeRun_encodeRun {units : List Nat} (hne : units ≠ []) (h : ∀ u ∈ units, u < 0x10000) :
    decodeRun (encodeRun units) = some units := by
  have hbytes : ∀ b ∈ units.flatMap toBeBytes, b < 0x100 := by
    intro b hb
    obtain ⟨u, hu, hb⟩ := List.mem_flatMap.1 hb
    have hlt := h u hu
    simp only [toBeBytes, List.mem_cons, List.not_mem_nil, or_false] at hb
    omega
  have hlength : (units.flatMap toBeBytes).length = 2 * units.length := by
    induction units with
    | nil => rfl
    | cons u units ih =>
        simp [toBeBytes]
        omega
  have hsome : units.flatMap toBeBytes ≠ [] := by
    intro hnil
    rw [hnil] at hlength
    exact hne (List.length_eq_zero_iff.1 (by simpa using hlength.symm))
  obtain ⟨count, hcount, hdecode⟩ := decodeSymbols_encodeBytes (units.flatMap toBeBytes) [] hbytes
  rw [List.nil_append] at hdecode
  rw [decodeRun, encodeRun, hdecode]
  dsimp only
  rw [if_neg (by omega), if_neg (by rw [hlength, Nat.mul_mod_right]; simp [hsome]),
    fromBeBytes_toBeBytes]

theorem not_minus_mem_encodeRun (units : List Nat) : '-' ∉ encodeRun units := by
  have hchunk : ∀ b0 b1 b2 emit, '-' ∉ chunkSymbols b0 b1 b2 emit := by
    intro b0 b1 b2 emit hmem
    obtain ⟨i, -, hi⟩ := List.mem_map.1 hmem
    exact symbol_ne_minus _ hi
  rw [encodeRun]
  induction units.flatMap toBeBytes using encodeBytes.induct with
  | case1 => exact List.not_mem_nil
  | case2 b0 => exact hchunk b0 0 0 2
  | case3 b0 b1 => exact hchunk b0 b1 0 3
  | case4 b0 b1 b2 rest ih =>
      rw [encodeBytes, List.mem_append, not_or]
      exact ⟨hchunk b0 b1 b2 4, ih⟩

/-! ## Names -/

/-- The pending code units as a run. -/
def flush (pending : List Nat) : List Char :=
  if pending = [] then [] else '&' :: (encodeRun pending ++ ['-'])

/-- The loop of `encode`. -/
def encodeFrom (pending : List Nat) : List Char → List Char
  | [] => flush pending
  | c :: cs =>
      if isDirect c || c == '&' then
        flush pending ++ (if c = '&' then ['&', '-'] else [c]) ++ encodeFrom [] cs
      else encodeFrom (pending ++ encodeUtf16 c) cs

/-- `encode` -/
def encode (name : List Char) : List Char := encodeFrom [] name

/-- The text of a run between `&` and `-`. -/
def runText (run : List Char) : Option (List Char) :=
  if run = [] then some ['&'] else (decodeRun run).bind fromUtf16

/-- The loop of `decode` a character at a time; `run` is the part of a run read so far. -/
def decodeFrom : Option (List Char) → List Char → Option (List Char)
  | none, [] => some []
  | none, c :: cs =>
      if c = '&' then decodeFrom (some []) cs
      else if isDirect c then (decodeFrom none cs).map (c :: ·)
      else none
  | some _, [] => none
  | some run, c :: cs =>
      if c = '-' then (runText run).bind fun text => (decodeFrom none cs).map (text ++ ·)
      else decodeFrom (some (run ++ [c])) cs

/-- `decode` -/
def decode (encoded : List Char) : Option (List Char) := decodeFrom none encoded

/-- `decode_lenient` -/
def decodeLenient (name : List Char) : List Char :=
  if name.all fun c => c.toNat < 0x80 then (decode name).getD name else name

/-- A run is read up to its end. -/
theorem decodeFrom_run {run : List Char} (h : '-' ∉ run) (before rest : List Char) :
    decodeFrom (some before) (run ++ '-' :: rest) =
      (runText (before ++ run)).bind fun text => (decodeFrom none rest).map (text ++ ·) := by
  induction run generalizing before with
  | nil => rw [List.nil_append, List.append_nil, decodeFrom, if_pos rfl]
  | cons c run ih =>
      simp only [List.mem_cons, not_or] at h
      rw [List.cons_append, decodeFrom, if_neg (Ne.symm h.1), ih h.2, List.append_assoc,
        List.singleton_append]

/-- The pending characters are read back from their run. -/
theorem decodeFrom_flush (text rest : List Char) :
    decodeFrom none (flush (text.flatMap encodeUtf16) ++ rest) =
      (decodeFrom none rest).map (text ++ ·) := by
  cases text with
  | nil => simp [flush]
  | cons c cs =>
      have hne : (c :: cs).flatMap encodeUtf16 ≠ [] := by
        rw [List.flatMap_cons]
        unfold encodeUtf16
        split <;> simp
      have hlt : ∀ u ∈ (c :: cs).flatMap encodeUtf16, u < 0x10000 := by
        intro u hu
        obtain ⟨d, -, hd⟩ := List.mem_flatMap.1 hu
        exact encodeUtf16_lt d u hd
      have hdecode := decodeRun_encodeRun hne hlt
      have hrun : encodeRun ((c :: cs).flatMap encodeUtf16) ≠ [] := by
        intro hnil
        rw [hnil] at hdecode
        exact absurd hdecode (by simp [decodeRun, decodeSymbols])
      rw [flush, if_neg hne, List.cons_append, decodeFrom, if_pos rfl, List.append_assoc,
        List.singleton_append, decodeFrom_run (not_minus_mem_encodeRun _), List.nil_append,
        runText, if_neg hrun, hdecode, Option.bind_some, fromUtf16_encodeUtf16, Option.bind_some]

theorem decodeFrom_encodeFrom (text cs : List Char) :
    decodeFrom none (encodeFrom (text.flatMap encodeUtf16) cs) = some (text ++ cs) := by
  induction cs generalizing text with
  | nil =>
      have hflush := decodeFrom_flush text []
      rw [List.append_nil] at hflush
      rw [encodeFrom, hflush]
      rfl
  | cons c cs ih =>
      rw [encodeFrom]
      split
      · rename_i hdirect
        have hrest : decodeFrom none (encodeFrom [] cs) = some cs := ih []
        rw [List.append_assoc, decodeFrom_flush]
        by_cases hamp : c = '&'
        · -- the escape of the ampersand is an empty run
          subst hamp
          simp [decodeFrom, runText, hrest]
        · have hc : isDirect c = true := by simpa [hamp] using hdirect
          simp [decodeFrom, hamp, hc, hrest]
      · rw [show text.flatMap encodeUtf16 ++ encodeUtf16 c = (text ++ [c]).flatMap encodeUtf16 by
          simp, ih (text ++ [c]), List.append_assoc, List.singleton_append]

/-- **Names round-trip.** -/
theorem decode_encode (name : List Char) : decode (encode name) = some name :=
  decodeFrom_encodeFrom [] name

example : encode "台北".toList = "&U,BTFw-".toList := by decide +kernel

/-- The symbols and the other characters of an encoded name are printable ASCII. -/
theorem printable_encode (name : List Char) :
    ∀ c ∈ encode name, 0x20 ≤ c.toNat ∧ c.toNat ≤ 0x7E := by
  have hsymbol : ∀ i, 0x20 ≤ (symbol i).toNat ∧ (symbol i).toNat ≤ 0x7E := by
    intro i
    have hall : modifiedBase64.all (fun c => 0x20 ≤ c.toNat && c.toNat ≤ 0x7E) = true := by
      decide +kernel
    by_cases hi : i < modifiedBase64.length
    · rw [symbol, List.getD_eq_getElem _ _ hi]
      simpa using List.all_eq_true.1 hall _ (List.getElem_mem hi)
    · rw [symbol, List.getD_eq_default _ _ (Nat.not_lt.1 hi)]
      decide
  have hrun : ∀ units, ∀ c ∈ encodeRun units, 0x20 ≤ c.toNat ∧ c.toNat ≤ 0x7E := by
    have hchunk : ∀ b0 b1 b2 emit, ∀ c ∈ chunkSymbols b0 b1 b2 emit,
        0x20 ≤ c.toNat ∧ c.toNat ≤ 0x7E := by
      intro b0 b1 b2 emit c hc
      obtain ⟨i, -, rfl⟩ := List.mem_map.1 hc
      exact hsymbol _
    intro units
    rw [encodeRun]
    induction units.flatMap toBeBytes using encodeBytes.induct with
    | case1 => exact fun c hc => absurd hc List.not_mem_nil
    | case2 b0 => exact hchunk b0 0 0 2
    | case3 b0 b1 => exact hchunk b0 b1 0 3
    | case4 b0 b1 b2 rest ih =>
        intro c hc
        rw [encodeBytes, List.mem_append] at hc
        exact hc.elim (hchunk b0 b1 b2 4 c) (ih c)
  have hflush : ∀ pending, ∀ c ∈ flush pending, 0x20 ≤ c.toNat ∧ c.toNat ≤ 0x7E := by
    intro pending c hc
    unfold flush at hc
    split at hc
    · exact absurd hc List.not_mem_nil
    · rcases List.mem_cons.1 hc with rfl | hc
      · decide
      · rcases List.mem_append.1 hc with hc | hc
        · exact hrun pending c hc
        · obtain rfl := List.mem_singleton.1 hc
          decide
  have hfrom : ∀ cs pending, ∀ c ∈ encodeFrom pending cs, 0x20 ≤ c.toNat ∧ c.toNat ≤ 0x7E := by
    intro cs
    induction cs with
    | nil => exact hflush
    | cons d cs ih =>
        intro pending c hc
        rw [encodeFrom] at hc
        split at hc
        · rename_i hdirect
          simp only [List.mem_append] at hc
          rcases hc with (hc | hc) | hc
          · exact hflush pending c hc
          · split at hc
            · simp only [List.mem_cons, List.not_mem_nil, or_false] at hc
              rcases hc with rfl | rfl <;> decide
            · rename_i hamp
              obtain rfl := List.mem_singleton.1 hc
              simp only [isDirect, Bool.or_eq_true, Bool.and_eq_true, decide_eq_true_eq,
                beq_iff_eq, hamp, or_false] at hdirect
              exact hdirect.1
          · exact ih [] c hc
        · exact ih _ c hc
  exact hfrom name []

/-- The lenient reader, too, reads back an encoded name. -/
theorem decodeLenient_encode (name : List Char) : decodeLenient (encode name) = name := by
  have hascii : ((encode name).all fun c => c.toNat < 0x80) = true := by
    rw [List.all_eq_true]
    intro c hc
    have hrange := printable_encode name c hc
    simp only [decide_eq_true_eq]
    omega
  rw [decodeLenient, if_pos hascii, decode_encode]
  rfl

end AsterBridge.Imap.Mutf7
