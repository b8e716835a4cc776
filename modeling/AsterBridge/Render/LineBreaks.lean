import AsterBridge.Render.Message

/-!
# Line breaks and sizes

A text is clean when every line break in it is CRLF. `to_crlf` makes a text clean, adds to
its length what `crlf_normalized_len` predicts, and leaves clean texts alone.
-/

set_option autoImplicit false

namespace AsterBridge.Render

open AsterBridge.Lib AsterBridge.Lib.Text AsterBridge.Lib.Lines

/-! ## Lengths -/

section Lengths

variable {s t : List Char} {c : Char}

@[simp] theorem utf8Len_nil : utf8Len [] = 0 := rfl

@[simp] theorem utf8Len_cons (c : Char) (s : List Char) :
    utf8Len (c :: s) = c.utf8Size + utf8Len s := by
  simp [utf8Len]

@[simp] theorem utf8Len_append (s t : List Char) : utf8Len (s ++ t) = utf8Len s + utf8Len t := by
  simp [utf8Len]

theorem utf8Len_flatMap {α : Type} (l : List α) (f : α → List Char) :
    utf8Len (l.flatMap f) = (l.map fun a => utf8Len (f a)).sum := by
  induction l with
  | nil => rfl
  | cons a l ih => rw [List.flatMap_cons, utf8Len_append, ih, List.map_cons, List.sum_cons]

/-- ASCII text has one byte for each character. -/
theorem utf8Len_of_ascii (h : ∀ c ∈ s, c.toNat < 0x80) : utf8Len s = s.length := by
  induction s with
  | nil => rfl
  | cons c s ih =>
      have hone : c.utf8Size = 1 := by
        have hc := h c List.mem_cons_self
        rw [Char.utf8Size_eq_one_iff]
        exact UInt32.le_iff_toNat_le.2 (Nat.le_of_lt_succ hc)
      rw [utf8Len_cons, hone, ih fun d hd => h d (List.mem_cons_of_mem _ hd), List.length_cons,
        Nat.add_comm]

end Lengths

/-! ## Clean texts -/

/-- Every line break is CRLF. -/
def Clean (s : List Char) : Prop := toCrlf s = s

section Clean

variable {s t : List Char} {c : Char}

theorem getLast?_ne_of_cons {d : Char} (h : (c :: s).getLast? ≠ some d) : s.getLast? ≠ some d := by
  cases s with
  | nil => simp
  | cons e s => rwa [List.getLast?_cons_cons] at h

/-- The parts are converted by themselves where no CR meets an LF. -/
theorem toCrlf_append (h : s.getLast? ≠ some '\r' ∨ t.head? ≠ some '\n') :
    toCrlf (s ++ t) = toCrlf s ++ toCrlf t := by
  fun_induction toCrlf s with
  | case1 rest ih =>
      rw [List.cons_append, List.cons_append, toCrlf, ih]
      · rfl
      · exact h.imp_left fun hlast => getLast?_ne_of_cons (getLast?_ne_of_cons hlast)
  | case2 rest hrest ih =>
      have hhead : (rest ++ t).head? ≠ some '\n' := by
        cases rest with
        | nil =>
            simp only [List.getLast?_singleton, ne_eq, not_true_eq_false, false_or] at h
            exact h
        | cons d rest =>
            intro hd
            simp only [List.cons_append, List.head?_cons, Option.some.injEq] at hd
            exact hrest rest (by rw [hd])
      rw [List.cons_append, toCrlf_cr hhead, ih]
      · rfl
      · exact h.imp_left getLast?_ne_of_cons
  | case3 rest ih =>
      rw [List.cons_append, toCrlf, ih]
      · rfl
      · exact h.imp_left getLast?_ne_of_cons
  | case4 c rest hcrlf hcr hlf ih =>
      rw [List.cons_append, toCrlf_cons_of_plain ⟨hcr, hlf⟩, ih]
      · rfl
      · exact h.imp_left getLast?_ne_of_cons
  | case5 => rfl

theorem Clean.append (hs : Clean s) (ht : Clean t) : Clean (s ++ t) := by
  have hlast := toCrlf_last s
  rw [hs] at hlast
  rw [Clean, toCrlf_append (Or.inl hlast), hs, ht]

theorem clean_nil : Clean [] := rfl

theorem clean_crlf : Clean crlf := rfl

theorem clean_of_noBreak (h : NoBreak s) : Clean s := by
  induction s with
  | nil => rfl
  | cons c s ih => rw [Clean, toCrlf_cons_of_plain (h c List.mem_cons_self), ih h.tail]

/-- `to_crlf` makes a text clean. -/
theorem clean_toCrlf (s : List Char) : Clean (toCrlf s) := by
  have hbreak : ∀ {t : List Char}, Clean t → Clean ('\r' :: '\n' :: t) := fun ht =>
    clean_crlf.append ht
  fun_induction toCrlf s with
  | case1 rest ih => exact hbreak ih
  | case2 rest hrest ih => exact hbreak ih
  | case3 rest ih => exact hbreak ih
  | case4 c rest hcrlf hcr hlf ih => rw [Clean, toCrlf_cons_of_plain ⟨hcr, hlf⟩, ih]
  | case5 => rfl

/-- `to_crlf` takes nothing away. -/
theorem utf8Len_le_toCrlf (s : List Char) : utf8Len s ≤ utf8Len (toCrlf s) := by
  fun_induction toCrlf s with
  | case1 rest ih => simpa using ih
  | case2 rest hrest ih =>
      simp only [utf8Len_cons]
      omega
  | case3 rest ih =>
      simp only [utf8Len_cons]
      omega
  | case4 c rest hcrlf hcr hlf ih => simpa using ih
  | case5 => rfl

end Clean

/-! ## `crlf_normalized_len` -/

section Normalized

variable {s : List Char}

theorem crlfLen_of_plain {b : UInt8} (h : b ≠ 10 ∧ b ≠ 13) (prev : Option UInt8) (bytes : Bytes) :
    Db.crlfLen prev (b :: bytes) = 1 + Db.crlfLen (some b) bytes := by
  rw [Db.crlfLen, if_neg]
  rintro (⟨hb, _⟩ | ⟨hb, _⟩)
  · exact h.1 hb
  · exact h.2 hb

/-- The loop over bytes that are neither CR nor LF. -/
theorem crlfLen_append_of_plain {cs : Bytes} (h : ∀ b ∈ cs, b ≠ 10 ∧ b ≠ 13) (bytes : Bytes)
    {b : UInt8} (hb : b ≠ 13) :
    ∃ b', Db.crlfLen (some b) (cs ++ bytes) = cs.length + Db.crlfLen (some b') bytes ∧ b' ≠ 13 := by
  induction cs generalizing b with
  | nil => exact ⟨b, (Nat.zero_add _).symm, hb⟩
  | cons d cs ih =>
      have hd := h d List.mem_cons_self
      obtain ⟨last, hlast, hne⟩ := ih (fun e he => h e (List.mem_cons_of_mem _ he)) hd.2
      refine ⟨last, ?_, hne⟩
      rw [List.cons_append, crlfLen_of_plain hd, hlast, List.length_cons]
      omega

/-- Only the character CR has the byte CR, and only LF the byte LF. -/
theorem crlfLen_encodeChar {c : Char} (h : c ≠ '\r' ∧ c ≠ '\n') (prev : Option UInt8)
    (bytes : Bytes) : ∃ b, Db.crlfLen prev (String.utf8EncodeChar c ++ bytes) =
      c.utf8Size + Db.crlfLen (some b) bytes ∧ b ≠ 13 := by
  have hplain : ∀ b ∈ String.utf8EncodeChar c, b ≠ 10 ∧ b ≠ 13 := by
    intro b hb
    constructor
    · rintro rfl
      exact h.2 (Utf8.eq_of_mem_utf8EncodeChar (by decide) hb)
    · rintro rfl
      exact h.1 (Utf8.eq_of_mem_utf8EncodeChar (by decide) hb)
  rw [← String.length_utf8EncodeChar]
  cases hbytes : String.utf8EncodeChar c with
  | nil =>
      have hpos := Char.utf8Size_pos c
      rw [← String.length_utf8EncodeChar, hbytes] at hpos
      exact absurd hpos (lt_irrefl 0)
  | cons b cs =>
      rw [hbytes] at hplain
      have hb := hplain b List.mem_cons_self
      obtain ⟨last, hlast, hne⟩ := crlfLen_append_of_plain
        (fun d hd => hplain d (List.mem_cons_of_mem _ hd)) bytes hb.2
      refine ⟨last, ?_, hne⟩
      rw [List.cons_append, crlfLen_of_plain hb, hlast, List.length_cons]
      omega

theorem head?_encode_ne (h : s.head? ≠ some '\n') :
    (s.flatMap String.utf8EncodeChar).head? ≠ some 10 := by
  cases s with
  | nil => simp
  | cons c s =>
      have hc : c ≠ '\n' := fun hc => h (by rw [hc]; rfl)
      intro hhead
      cases hbytes : String.utf8EncodeChar c with
      | nil =>
          have hpos := Char.utf8Size_pos c
          rw [← String.length_utf8EncodeChar, hbytes] at hpos
          exact lt_irrefl 0 hpos
      | cons b cs =>
          rw [List.flatMap_cons, hbytes, List.cons_append, List.head?_cons,
            Option.some.injEq] at hhead
          apply hc
          apply Utf8.eq_of_mem_utf8EncodeChar (b := 10) (by decide)
          rw [hbytes, hhead]
          exact List.mem_cons_self

/-- The byte before matters to an LF only. -/
theorem crlfLen_congr {bytes : Bytes} (h : bytes.head? ≠ some 10) (prev prev' : Option UInt8) :
    Db.crlfLen prev bytes = Db.crlfLen prev' bytes := by
  cases bytes with
  | nil => rfl
  | cons b bs =>
      have hb : b ≠ 10 := fun hb => h (by rw [hb]; rfl)
      simp only [Db.crlfLen, hb, false_and, false_or]

theorem crlfLen_eq (s : List Char) (prev : Option UInt8) (h : prev ≠ some 13) :
    Db.crlfLen prev (s.flatMap String.utf8EncodeChar) = utf8Len (toCrlf s) := by
  have hcr : String.utf8EncodeChar '\r' = [13] := rfl
  have hlf : String.utf8EncodeChar '\n' = [10] := rfl
  have hbreak : ∀ t : List Char, utf8Len ('\r' :: '\n' :: t) = 2 + utf8Len t := by
    intro t
    rw [utf8Len_cons, utf8Len_cons, ← Nat.add_assoc]
    rfl
  fun_induction toCrlf s generalizing prev with
  | case1 rest ih =>
      rw [List.flatMap_cons, List.flatMap_cons, hcr, hlf, List.singleton_append,
        List.singleton_append, Db.crlfLen, Db.crlfLen, ih (some 10) (by decide), hbreak,
        if_neg (by simp), if_neg (by simp), ← Nat.add_assoc]
  | case2 rest hrest ih =>
      have hhead : rest.head? ≠ some '\n' := by
        cases rest with
        | nil => simp
        | cons d rest =>
            intro hd
            rw [List.head?_cons, Option.some.injEq] at hd
            exact hrest rest (by rw [hd])
      have hnext := head?_encode_ne hhead
      rw [List.flatMap_cons, hcr, List.singleton_append, Db.crlfLen, if_pos (by simp [hnext]),
        crlfLen_congr hnext (some 13) none, ih none (by simp), hbreak]
  | case3 rest ih =>
      rw [List.flatMap_cons, hlf, List.singleton_append, Db.crlfLen, ih (some 10) (by decide),
        if_pos (by simp [h]), hbreak]
  | case4 c rest hcrlf hcr' hlf' ih =>
      obtain ⟨b, hlen, hb⟩ :=
        crlfLen_encodeChar ⟨hcr', hlf'⟩ prev (rest.flatMap String.utf8EncodeChar)
      rw [List.flatMap_cons, hlen, ih (some b) (by simpa using hb), utf8Len_cons]
  | case5 => rfl

/-- `crlf_normalized_len` is the length of what `to_crlf` makes. -/
theorem crlfNormalizedLen_eq (s : List Char) :
    Db.crlfNormalizedLen (String.ofList s) = utf8Len (toCrlf s) := by
  have hbytes := Utf8.encode_eq_flatMap (String.ofList s)
  rw [String.toList_ofList, Utf8.encode] at hbytes
  rw [Db.crlfNormalizedLen, hbytes]
  exact crlfLen_eq s none (by simp)

end Normalized

end AsterBridge.Render
