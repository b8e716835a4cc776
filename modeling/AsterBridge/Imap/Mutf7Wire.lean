import AsterBridge.Imap.Mutf7
import AsterBridge.Imap.Strings
import AsterBridge.Lib.Base64

/-!
# What the mailbox name codec accepts

`utf7_encode_modified` of `imap/server.rs` is a second encoder of modified UTF-7, over the base64
engine `STANDARD_NO_PAD`; it writes what `mutf7::encode` writes. `Decodes` says on strings of bits
what an encoded name stands for, and `decodes_of_decode` that `mutf7::decode` reads nothing else.
-/

set_option autoImplicit false

namespace AsterBridge.Imap.Mutf7

open AsterBridge.Lib

/-! ## The second encoder -/

/-- The closure `flush` of `utf7_encode_modified`. -/
def flushLabel (buf16 : List Nat) : List Char :=
  if buf16 = [] then []
  else
    '&' :: (replaceChar '/' [','] (Base64.encodeNoPad ((buf16.flatMap toBeBytes).map Nat.toUInt8)) ++
      ['-'])

/-- The loop of `utf7_encode_modified`. -/
def encodeLabelFrom (buf16 : List Nat) : List Char → List Char
  | [] => flushLabel buf16
  | c :: cs =>
      if c = '&' then flushLabel buf16 ++ ('&' :: '-' :: encodeLabelFrom [] cs)
      else if 0x20 ≤ c.toNat ∧ c.toNat ≤ 0x7E then flushLabel buf16 ++ c :: encodeLabelFrom [] cs
      else encodeLabelFrom (buf16 ++ encodeUtf16 c) cs

/-- `utf7_encode_modified` -/
def utf7EncodeModified (s : List Char) : List Char := encodeLabelFrom [] s

/-- The digit of base64 with the comma for the slash. -/
theorem symbol_eq_digit {i : Nat} (h : i < 64) :
    replaceChar '/' [','] [Base64.digit i] = [symbol i] := by
  have hall : ∀ i : Fin 64, replaceChar '/' [','] [Base64.digit i.1] = [symbol i.1] := by
    decide +kernel
  exact hall ⟨i, h⟩

theorem replaceChar_append (c : Char) (with_ xs ys : List Char) :
    replaceChar c with_ (xs ++ ys) = replaceChar c with_ xs ++ replaceChar c with_ ys :=
  List.flatMap_append

/-- The digit of six bits, unpadded and with the comma. -/
theorem wire_digit {i : Nat} (h : i < 64) (rest : List Char) :
    replaceChar '/' [','] ((Base64.digit i :: rest).filter (· ≠ '=')) =
      symbol i :: replaceChar '/' [','] (rest.filter (· ≠ '=')) := by
  have hkeep : decide (Base64.digit i ≠ '=') = true := decide_eq_true (Base64.digit_ne_pad h)
  rw [List.filter_cons, if_pos hkeep]
  exact (replaceChar_append '/' [','] [Base64.digit i] _).trans (by rw [symbol_eq_digit h]; rfl)

theorem wire_pad (rest : List Char) :
    replaceChar '/' [','] (('=' :: rest).filter (· ≠ '=')) =
      replaceChar '/' [','] (rest.filter (· ≠ '=')) := by
  rfl

/-- The engine and `encode_run` write the same symbols. -/
theorem replaceChar_encodeNoPad (bytes : List UInt8) :
    replaceChar '/' [','] (Base64.encodeNoPad bytes) = encodeBytes (bytes.map UInt8.toNat) := by
  rw [Base64.encodeNoPad]
  fun_induction Base64.encode bytes with
  | case1 => rfl
  | case2 a =>
      have ha := a.toNat_lt
      rw [wire_digit (by omega), wire_digit (by omega), wire_pad, wire_pad]
      simp only [List.map_cons, List.map_nil, encodeBytes, chunkSymbols, List.range_succ,
        List.range_zero, List.nil_append, List.cons_append]
      rw [show (a.toNat * 65536 + 0 * 256 + 0) / 2 ^ (18 - 6 * 0) % 64 = a.toNat / 4 by omega,
        show (a.toNat * 65536 + 0 * 256 + 0) / 2 ^ (18 - 6 * 1) % 64 = a.toNat % 4 * 16 by omega]
      rfl
  | case3 a b =>
      have ha := a.toNat_lt
      have hb := b.toNat_lt
      rw [wire_digit (by omega), wire_digit (by omega), wire_digit (by omega), wire_pad]
      simp only [List.map_cons, List.map_nil, encodeBytes, chunkSymbols, List.range_succ,
        List.range_zero, List.nil_append, List.cons_append]
      rw [show (a.toNat * 65536 + b.toNat * 256 + 0) / 2 ^ (18 - 6 * 0) % 64 = a.toNat / 4 by omega,
        show (a.toNat * 65536 + b.toNat * 256 + 0) / 2 ^ (18 - 6 * 1) % 64 =
          a.toNat % 4 * 16 + b.toNat / 16 by omega,
        show (a.toNat * 65536 + b.toNat * 256 + 0) / 2 ^ (18 - 6 * 2) % 64 =
          b.toNat % 16 * 4 by omega]
      rfl
  | case4 a b c rest ih =>
      have ha := a.toNat_lt
      have hb := b.toNat_lt
      have hc := c.toNat_lt
      rw [wire_digit (by omega), wire_digit (by omega), wire_digit (by omega),
        wire_digit (by omega), ih]
      simp only [List.map_cons, encodeBytes, chunkSymbols, List.range_succ, List.range_zero,
        List.nil_append, List.cons_append]
      rw [show (a.toNat * 65536 + b.toNat * 256 + c.toNat) / 2 ^ (18 - 6 * 0) % 64 =
          a.toNat / 4 by omega,
        show (a.toNat * 65536 + b.toNat * 256 + c.toNat) / 2 ^ (18 - 6 * 1) % 64 =
          a.toNat % 4 * 16 + b.toNat / 16 by omega,
        show (a.toNat * 65536 + b.toNat * 256 + c.toNat) / 2 ^ (18 - 6 * 2) % 64 =
          b.toNat % 16 * 4 + c.toNat / 64 by omega,
        show (a.toNat * 65536 + b.toNat * 256 + c.toNat) / 2 ^ (18 - 6 * 3) % 64 =
          c.toNat % 64 by omega]
      rfl

/-- Both encoders flush the same run. -/
theorem flushLabel_eq {buf16 : List Nat} (h : ∀ u ∈ buf16, u < 0x10000) :
    flushLabel buf16 = flush buf16 := by
  have hbytes : ((buf16.flatMap toBeBytes).map Nat.toUInt8).map UInt8.toNat =
      buf16.flatMap toBeBytes := by
    rw [List.map_map]
    refine (List.map_congr_left fun b hb => ?_).trans (List.map_id' _)
    obtain ⟨u, hu, hb⟩ := List.mem_flatMap.1 hb
    have hlt := h u hu
    simp only [toBeBytes, List.mem_cons, List.not_mem_nil, or_false] at hb
    show (Nat.toUInt8 b).toNat = b
    rw [Nat.toUInt8_eq, UInt8.toNat_ofNat']
    omega
  rw [flushLabel, flush, replaceChar_encodeNoPad, hbytes, encodeRun]

theorem encodeLabelFrom_eq (cs : List Char) {buf16 : List Nat} (h : ∀ u ∈ buf16, u < 0x10000) :
    encodeLabelFrom buf16 cs = encodeFrom buf16 cs := by
  have hnil : ∀ u ∈ ([] : List Nat), u < 0x10000 := fun _ hu => absurd hu List.not_mem_nil
  induction cs generalizing buf16 with
  | nil => rw [encodeLabelFrom, encodeFrom, flushLabel_eq h]
  | cons c cs ih =>
      rw [encodeLabelFrom, encodeFrom, flushLabel_eq h]
      by_cases hamp : c = '&'
      · rw [if_pos hamp, if_pos (by simp [hamp]), if_pos hamp, ih hnil, List.append_assoc]
        rfl
      · rw [if_neg hamp, if_neg hamp]
        by_cases hrange : 0x20 ≤ c.toNat ∧ c.toNat ≤ 0x7E
        · rw [if_pos hrange, if_pos (by simp [isDirect, hamp, hrange]), ih hnil, List.append_assoc]
          rfl
        · rw [if_neg hrange, if_neg]
          · apply ih
            intro u hu
            rcases List.mem_append.1 hu with hold | hnew
            · exact h u hold
            · exact encodeUtf16_lt c u hnew
          · simp only [isDirect, Bool.or_eq_true, Bool.and_eq_true, decide_eq_true_eq, beq_iff_eq,
              hamp, or_false]
            exact fun hdirect => hrange hdirect.1

/-- **Two encoders, one text.** -/
theorem utf7EncodeModified_eq (s : List Char) : utf7EncodeModified s = encode s :=
  encodeLabelFrom_eq s fun _ hu => absurd hu List.not_mem_nil

/-! ## Strings of bits -/

/-- The last `width` bits of a number, the highest first. -/
def bits : Nat → Nat → List Bool
  | 0, _ => []
  | width + 1, n => bits width (n / 2) ++ [n % 2 == 1]

theorem bits_add (a b n : Nat) : bits (a + b) n = bits a (n / 2 ^ b) ++ bits b n := by
  induction b generalizing n with
  | zero => rw [Nat.add_zero, Nat.pow_zero, Nat.div_one, bits, List.append_nil]
  | succ b ih =>
      have hdiv : n / 2 / 2 ^ b = n / 2 ^ (b + 1) := by
        rw [Nat.div_div_eq_div_mul, Nat.pow_succ, Nat.mul_comm]
      rw [← Nat.add_assoc, bits, ih, bits, hdiv, List.append_assoc]

theorem bits_mod (b n : Nat) : bits b (n % 2 ^ b) = bits b n := by
  induction b generalizing n with
  | zero => rfl
  | succ b ih =>
      have hhigh : n % 2 ^ (b + 1) / 2 = n / 2 % 2 ^ b := by
        rw [Nat.pow_succ, Nat.mul_comm, Nat.mod_mul_right_div_self]
      have hlow : n % 2 ^ (b + 1) % 2 = n % 2 :=
        Nat.mod_mod_of_dvd n (Dvd.intro_left (2 ^ b) (Nat.pow_succ 2 b).symm)
      rw [bits, bits, hhigh, ih, hlow]

theorem bits_zero (b : Nat) : bits b 0 = List.replicate b false := by
  induction b with
  | zero => rfl
  | succ b ih =>
      rw [bits, Nat.zero_div, ih, List.replicate_succ']
      rfl

/-- The number of a symbol. -/
def symbolValue (c : Char) : Nat := modifiedBase64.idxOf c

/-- `run` is a run of base64 for `text`: its symbols are in the alphabet, six bits each, and the
bits are those of the text in big-endian UTF-16 with less than a symbol of zeros behind. -/
structure IsRun (run text : List Char) : Prop where
  symbols : ∀ c ∈ run, c ∈ modifiedBase64
  bits_eq : ∃ pad < 6, run.flatMap (fun c => bits 6 (symbolValue c)) =
    (text.flatMap encodeUtf16).flatMap (bits 16) ++ List.replicate pad false
  text_ne_nil : text ≠ []

/-- What an encoded name stands for: direct characters verbatim, the escape of the ampersand, and
runs. -/
inductive Decodes : List Char → List Char → Prop where
  | nil : Decodes [] []
  | direct {c : Char} {e s : List Char} (hc : isDirect c = true) (h : Decodes e s) :
      Decodes (c :: e) (c :: s)
  | ampersand {e s : List Char} (h : Decodes e s) : Decodes ('&' :: '-' :: e) ('&' :: s)
  | run {run text e s : List Char} (hrun : IsRun run text) (h : Decodes e s) :
      Decodes ('&' :: (run ++ '-' :: e)) (text ++ s)

/-! ## Reading runs -/

/-- **The bits of a run** are those of the bytes with what is left over. -/
theorem decodeSymbols_bits {run : List Char} {b n b' n' : Nat} {bytes bytes' : List Nat}
    (h : decodeSymbols b n bytes run = some (b', n', bytes')) (hbytes : ∀ x ∈ bytes, x < 0x100) :
    (∀ c ∈ run, c ∈ modifiedBase64) ∧ (∀ x ∈ bytes', x < 0x100) ∧
      bytes'.flatMap (bits 8) ++ bits n' b' =
        bytes.flatMap (bits 8) ++ (bits n b ++ run.flatMap fun c => bits 6 (symbolValue c)) := by
  induction run generalizing b n bytes with
  | nil =>
      simp only [decodeSymbols, Option.some.injEq, Prod.mk.injEq] at h
      obtain ⟨rfl, rfl, rfl⟩ := h
      exact ⟨fun _ hc => absurd hc List.not_mem_nil, hbytes, by simp⟩
  | cons c run ih =>
      rw [decodeSymbols] at h
      cases hidx : modifiedBase64.idxOf? c with
      | none =>
          rw [hidx] at h
          exact absurd h (by simp)
      | some v =>
          obtain ⟨hlt, hget, -⟩ := List.idxOf?_eq_some_iff.1 hidx
          have hmem : c ∈ modifiedBase64 := hget ▸ List.getElem_mem hlt
          have hvalue : symbolValue c = v := by
            rw [symbolValue, List.idxOf_eq_getD_idxOf?, hidx]
            rfl
          have hv : v < 2 ^ 6 := hlt
          -- six bits more than there were
          have hnext : bits n b ++ bits 6 v = bits (n + 6) (b * 64 + v) := by
            have hhigh : (b * 64 + v) / 2 ^ 6 = b := by omega
            have hlow : (b * 64 + v) % 2 ^ 6 = v := by omega
            rw [bits_add, hhigh, ← bits_mod 6 (b * 64 + v), hlow]
          rw [hidx] at h
          dsimp only at h
          split at h
          · rename_i hbyte
            have hsplit : n + 6 = 8 + (n - 2) := by omega
            have hall : ∀ x ∈ bytes ++ [(b * 64 + v) / 2 ^ (n - 2) % 0x100], x < 0x100 := by
              intro x hx
              rcases List.mem_append.1 hx with hold | hnew
              · exact hbytes x hold
              · rw [List.mem_singleton.1 hnew]
                exact Nat.mod_lt _ (by decide)
            obtain ⟨hsymbols, hlast, heq⟩ := ih h hall
            refine ⟨List.forall_mem_cons.2 ⟨hmem, hsymbols⟩, hlast, ?_⟩
            have hfirst : bits 8 ((b * 64 + v) / 2 ^ (n - 2) % 0x100) =
                bits 8 ((b * 64 + v) / 2 ^ (n - 2)) := bits_mod 8 _
            rw [heq, List.flatMap_append, List.flatMap_singleton, hfirst, bits_mod, List.flatMap_cons,
              hvalue, ← List.append_assoc (bits n b), hnext, hsplit, bits_add]
            simp only [List.append_assoc]
          · obtain ⟨hsymbols, hlast, heq⟩ := ih h hbytes
            refine ⟨List.forall_mem_cons.2 ⟨hmem, hsymbols⟩, hlast, ?_⟩
            rw [heq, bits_mod, List.flatMap_cons, hvalue, ← List.append_assoc (bits n b), hnext]

/-- Two bytes are a unit. -/
theorem fromBeBytes_bits {bytes : List Nat} (heven : bytes.length % 2 = 0)
    (h : ∀ x ∈ bytes, x < 0x100) :
    (fromBeBytes bytes).flatMap (bits 16) = bytes.flatMap (bits 8) ∧
      ∀ u ∈ fromBeBytes bytes, u < 0x10000 := by
  fun_induction fromBeBytes bytes with
  | case1 b0 b1 rest ih =>
      have h0 := h b0 List.mem_cons_self
      have h1 := h b1 (List.mem_cons_of_mem _ List.mem_cons_self)
      rw [List.length_cons, List.length_cons] at heven
      obtain ⟨hbits, hlt⟩ := ih (by omega) fun x hx =>
        h x (List.mem_cons_of_mem _ (List.mem_cons_of_mem _ hx))
      constructor
      · have hhigh : (b0 * 0x100 + b1) / 2 ^ 8 = b0 := by omega
        have hlow : (b0 * 0x100 + b1) % 2 ^ 8 = b1 := by omega
        have hunit : bits 16 (b0 * 0x100 + b1) = bits 8 b0 ++ bits 8 b1 := by
          rw [bits_add 8 8, hhigh, ← bits_mod 8 (b0 * 0x100 + b1), hlow]
        rw [List.flatMap_cons, hunit, hbits, List.flatMap_cons, List.flatMap_cons,
          List.append_assoc]
      · intro u hu
        rcases List.mem_cons.1 hu with rfl | hu
        · omega
        · exact hlt u hu
  | case2 bytes hshort =>
      cases bytes with
      | nil => simp
      | cons b0 rest =>
          cases rest with
          | nil => exact absurd heven (by simp)
          | cons b1 rest => exact absurd rfl (hshort b0 b1 rest)

theorem toNat_ofNat {n : Nat} (h : n < 0xD800 ∨ 0xDFFF < n ∧ n < 0x110000) :
    (Char.ofNat n).toNat = n := by
  rw [Char.ofNat, dif_pos h]
  rfl

/-- Code units are those of the text that is read from them. -/
theorem encodeUtf16_of_fromUtf16 {us : List Nat} {text : List Char}
    (h : fromUtf16 us = some text) (hlt : ∀ u ∈ us, u < 0x10000) :
    text.flatMap encodeUtf16 = us := by
  induction us using fromUtf16.induct generalizing text with
  | case1 =>
      rw [fromUtf16.eq_def] at h
      obtain rfl := Option.some.inj h
      rfl
  | case2 u us hunit ih =>
      have hu := hlt u List.mem_cons_self
      rw [fromUtf16.eq_def] at h
      dsimp only at h
      rw [if_pos hunit] at h
      obtain ⟨rest, hrest, rfl⟩ := Option.map_eq_some_iff.1 h
      have hchar : (Char.ofNat u).toNat = u := toNat_ofNat (by omega)
      rw [List.flatMap_cons, ih hrest fun v hv => hlt v (List.mem_cons_of_mem _ hv), encodeUtf16,
        hchar, if_pos hu, List.singleton_append]
  | case3 u us hsurrogate hlow =>
      rw [fromUtf16.eq_def] at h
      dsimp only at h
      rw [if_neg hsurrogate, if_pos hlow] at h
      exact absurd h (by simp)
  | case4 u hsurrogate hhigh =>
      rw [fromUtf16.eq_def] at h
      dsimp only at h
      rw [if_neg hsurrogate, if_neg hhigh] at h
      exact absurd h (by simp)
  | case5 u hsurrogate hhigh v us hpair ih =>
      rw [fromUtf16.eq_def] at h
      dsimp only at h
      rw [if_neg hsurrogate, if_neg hhigh, if_pos hpair] at h
      obtain ⟨rest, hrest, rfl⟩ := Option.map_eq_some_iff.1 h
      have hchar : (Char.ofNat (0x10000 + (u - 0xD800) * 0x400 + (v - 0xDC00))).toNat =
          0x10000 + (u - 0xD800) * 0x400 + (v - 0xDC00) := toNat_ofNat (by omega)
      have hlead : 0xD800 + (0x10000 + (u - 0xD800) * 0x400 + (v - 0xDC00) - 0x10000) / 0x400 = u := by
        omega
      have htrail : 0xDC00 + (0x10000 + (u - 0xD800) * 0x400 + (v - 0xDC00) - 0x10000) % 0x400 = v := by
        omega
      rw [List.flatMap_cons, ih hrest fun w hw =>
          hlt w (List.mem_cons_of_mem _ (List.mem_cons_of_mem _ hw)), encodeUtf16, hchar,
        if_neg (by omega), hlead, htrail]
      rfl
  | case6 u hsurrogate hhigh v us hpair =>
      rw [fromUtf16.eq_def] at h
      dsimp only at h
      rw [if_neg hsurrogate, if_neg hhigh, if_neg hpair] at h
      exact absurd h (by simp)

/-- A run that is read is a run of its text. -/
theorem isRun_of_runText {run text : List Char} (hne : run ≠ []) (h : runText run = some text) :
    IsRun run text := by
  rw [runText, if_neg hne] at h
  obtain ⟨units, hunits, htext⟩ := Option.bind_eq_some_iff.1 h
  unfold decodeRun at hunits
  cases hdecode : decodeSymbols 0 0 [] run with
  | none =>
      rw [hdecode] at hunits
      exact absurd hunits (by simp)
  | some r =>
      obtain ⟨left, count, bytes⟩ := r
      rw [hdecode] at hunits
      dsimp only at hunits
      split at hunits
      · exact absurd hunits (by simp)
      · rename_i hpadding
        split at hunits
        · exact absurd hunits (by simp)
        · rename_i hbytes
          obtain rfl := Option.some.inj hunits
          obtain ⟨hsymbols, hlt, heq⟩ := decodeSymbols_bits hdecode
            (fun _ hx => absurd hx List.not_mem_nil)
          obtain ⟨hunit, hunitlt⟩ := @fromBeBytes_bits bytes (by omega) hlt
          have hutf16 := encodeUtf16_of_fromUtf16 htext hunitlt
          have hzero : left = 0 := by omega
          refine ⟨hsymbols, ⟨count, by omega, ?_⟩, ?_⟩
          · rw [hutf16, hunit, ← bits_zero, ← hzero, heq]
            rfl
          · rintro rfl
            -- no text, no units, so no bytes
            rw [← hutf16] at hunit
            have hlength := congrArg List.length hunit
            cases bytes with
            | nil => exact hbytes (Or.inl rfl)
            | cons b rest =>
                rw [List.flatMap_cons, List.length_append] at hlength
                have height : (bits 8 b).length = 8 := rfl
                rw [height, List.flatMap_nil, List.flatMap_nil, List.length_nil] at hlength
                omega

/-- A run ends at its first `-`. -/
theorem decodeFrom_some {e before s : List Char} (h : decodeFrom (some before) e = some s) :
    ∃ run e' text s', e = run ++ '-' :: e' ∧ runText (before ++ run) = some text ∧
      decodeFrom none e' = some s' ∧ s = text ++ s' := by
  induction e generalizing before with
  | nil => exact absurd h (by simp [decodeFrom])
  | cons c e ih =>
      rw [decodeFrom] at h
      split at h
      · rename_i hminus
        obtain ⟨text, htext, hrest⟩ := Option.bind_eq_some_iff.1 h
        obtain ⟨s', hs', rfl⟩ := Option.map_eq_some_iff.1 hrest
        exact ⟨[], e, text, s', by rw [hminus]; rfl, by rw [List.append_nil]; exact htext, hs', rfl⟩
      · obtain ⟨run, e', text, s', rfl, htext, hs', rfl⟩ := ih h
        refine ⟨c :: run, e', text, s', rfl, ?_, hs', rfl⟩
        rw [List.append_cons]
        exact htext

/-- **`decode` reads nothing else.** -/
theorem decodes_of_decode (e : List Char) {s : List Char} (h : decode e = some s) :
    Decodes e s := by
  induction hn : e.length using Nat.strong_induction_on generalizing e s with
  | _ n ih =>
      rw [decode] at h
      cases e with
      | nil =>
          obtain rfl := Option.some.inj h
          exact .nil
      | cons c e =>
          rw [decodeFrom] at h
          rw [List.length_cons] at hn
          split at h
          · rename_i hamp
            subst hamp
            obtain ⟨run, e', text, s', rfl, htext, hs', rfl⟩ := decodeFrom_some h
            rw [List.nil_append] at htext
            rw [List.length_append, List.length_cons] at hn
            have hrest := ih e'.length (by omega) e' hs' rfl
            by_cases hrun : run = []
            · subst hrun
              rw [runText, if_pos rfl] at htext
              obtain rfl := Option.some.inj htext
              exact .ampersand hrest
            · exact .run (isRun_of_runText hrun htext) hrest
          · split at h
            · rename_i hdirect
              obtain ⟨s', hs', rfl⟩ := Option.map_eq_some_iff.1 h
              exact .direct hdirect (ih e.length (by omega) e hs' rfl)
            · exact absurd h (by simp)

/-- Nothing but printable ASCII is decoded. -/
theorem Decodes.printable {e s : List Char} (h : Decodes e s) :
    ∀ c ∈ e, 0x20 ≤ c.toNat ∧ c.toNat ≤ 0x7E := by
  have hall : (modifiedBase64.all fun c => decide (0x20 ≤ c.toNat ∧ c.toNat ≤ 0x7E)) = true := by
    decide +kernel
  have hsymbol : ∀ c ∈ modifiedBase64, 0x20 ≤ c.toNat ∧ c.toNat ≤ 0x7E := fun c hc =>
    of_decide_eq_true (List.all_eq_true.1 hall c hc)
  induction h with
  | nil => exact fun _ hc => absurd hc List.not_mem_nil
  | direct hc _ ih =>
      simp only [isDirect, Bool.and_eq_true, decide_eq_true_eq] at hc
      exact List.forall_mem_cons.2 ⟨hc.1, ih⟩
  | ampersand _ ih =>
      exact List.forall_mem_cons.2 ⟨by decide, List.forall_mem_cons.2 ⟨by decide, ih⟩⟩
  | run hrun _ ih =>
      intro c hc
      rcases List.mem_cons.1 hc with rfl | hc
      · decide
      · rcases List.mem_append.1 hc with hc | hc
        · exact hsymbol c (hrun.symbols c hc)
        · exact List.forall_mem_cons.2 ⟨by decide, ih⟩ c hc

/-- **The mailbox name codec.** -/
theorem codec_is_exact (s e : List Char) :
    (∀ c ∈ encode s, 0x20 ≤ c.toNat ∧ c.toNat ≤ 0x7E) ∧ decode (encode s) = some s ∧
      Function.Injective encode ∧ utf7EncodeModified s = encode s ∧
      (∀ text, decode e = some text → Decodes e text) ∧
      ((∃ c ∈ e, ¬(0x20 ≤ c.toNat ∧ c.toNat ≤ 0x7E)) → decode e = none) := by
  refine ⟨printable_encode s, decode_encode s, ?_, utf7EncodeModified_eq s,
    fun _ h => decodes_of_decode e h, ?_⟩
  · intro a b hab
    have hboth := congrArg decode hab
    rw [decode_encode, decode_encode] at hboth
    exact Option.some.inj hboth
  · rintro ⟨c, hc, hrange⟩
    cases h : decode e with
    | none => rfl
    | some text => exact absurd ((decodes_of_decode e h).printable c hc) hrange

end AsterBridge.Imap.Mutf7
