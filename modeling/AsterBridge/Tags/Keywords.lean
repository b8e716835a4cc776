import AsterBridge.Imap.Mutf7Wire
import AsterBridge.Lib.Utf8

/-!
# Keywords of labels

`tags.rs`: an IMAP keyword for a label name, and the name that a keyword stands for. A
keyword is the name with its other characters in shifted runs. Mail clients make keywords of
their own from a name, the readable form with `=` and the folded form of a shifted run, and
`name_for_keyword` looks for these two before it decodes.
-/

set_option autoImplicit false

namespace AsterBridge.Tags

open AsterBridge.Lib AsterBridge.Lib.Text
open AsterBridge.Imap (replaceChar)
open AsterBridge.Imap.Mutf7 (encodeUtf16 fromUtf16 toBeBytes fromBeBytes)

/-! ## Constants -/

/-- `MAX_NAME_CHARS` -/
def maxNameChars : ℕ := 100

/-- `MAX_KEYWORD_LEN` -/
def maxKeywordLen : ℕ := 128

/-- `RESERVED_KEYWORDS` -/
def reservedKeywords : List String :=
  ["Junk", "NonJunk", "NotJunk", "JunkRecorded", "Forwarded", "Redirected", "MDNSent",
    "receipt-handled", "Recent", "Deleted", "Seen", "Answered", "Flagged", "Draft", "Old",
    "Phishing", "NotPhishing"]

/-- `ATOM_SPECIALS` -/
def atomSpecials : List Char := ['(', ')', '{', '%', '*', '"', '\\', ']']

/-- `READABLE_KEY_ESCAPED` -/
def readableKeyEscaped : List UInt8 := Utf8.encode "=()[]\x7b\x7d%*\"\\<>;&"

/-- `MAX_READABLE_KEY_LEN` -/
def maxReadableKeyLen : ℕ := 50

/-- `HASHED_KEY_PREFIX` -/
def hashedKeyPrefix : List Char := "&x-moz-".toList

/-- `HASHED_KEY_BYTES` -/
def hashedKeyBytes : ℕ := 16

/-! ## Names and keywords -/

/-- The length of a text in bytes. -/
def byteLen (cs : List Char) : ℕ := (String.ofList cs).utf8ByteSize

/-- `validate_name` -/
def validateName (name : List Char) : Except String Unit :=
  if trim name = [] then .error "label name cannot be empty"
  else if maxNameChars < name.length then .error "label name is longer than 100 characters"
  else if name.any isControl then .error "label name contains control characters"
  else .ok ()

/-- `is_local_keyword` -/
def isLocalKeyword (keyword : List Char) : Bool :=
  keyword.head? == some '$' ||
    reservedKeywords.any fun reserved => eqIgnoreAsciiCase reserved.toList keyword

/-- `is_direct` -/
def isDirect (c : Char) : Bool :=
  0x20 < c.toNat && c.toNat < 0x7f && c != '&' && !atomSpecials.contains c

/-- `push_run` -/
def pushRun (run : List ℕ) : List Char :=
  if run = [] then []
  else
    '&' :: (replaceChar '/' [','] (Base64.encodeNoPad ((run.flatMap toBeBytes).map Nat.toUInt8)) ++
      ['-'])

/-- The body of the loop of `encode_name`: what is written, and the run after it. -/
def encodeChar (forced : Bool) (run : List ℕ) (c : Char) : List Char × List ℕ :=
  if c = '&' ∧ forced = false then (pushRun run ++ ['&', '-'], [])
  else if isDirect c ∧ forced = false then (pushRun run ++ [c], [])
  else if forced then (pushRun (run ++ encodeUtf16 c), [])
  else ([], run ++ encodeUtf16 c)

/-- The loop of `encode_name`; only the first character can be forced into a run. -/
def encodeFrom (forced : Bool) (run : List ℕ) : List Char → List Char
  | [] => pushRun run
  | c :: cs => (encodeChar forced run c).1 ++ encodeFrom false (encodeChar forced run c).2 cs

/-- `encode_name` -/
def encodeName (name : List Char) : List Char := encodeFrom (isLocalKeyword name) [] name

/-- The text of a run between `&` and `-`. -/
def runText (run : List Char) : Option (List Char) :=
  if run = [] then some ['&']
  else
    (Base64.decodeNoPad (replaceChar ',' ['/'] run)).bind fun bytes =>
      if bytes = [] ∨ bytes.length % 2 ≠ 0 then none
      else fromUtf16 (fromBeBytes (bytes.map UInt8.toNat))

/-- The loop of `decode_keyword` a character at a time; `run` is the part of a run read so
far. -/
def decodeFrom : Option (List Char) → List Char → Option (List Char)
  | none, [] => some []
  | none, c :: cs =>
      if c = '&' then decodeFrom (some []) cs else (decodeFrom none cs).map (c :: ·)
  | some _, [] => none
  | some run, c :: cs =>
      if c = '-' then (runText run).bind fun text => (decodeFrom none cs).map (text ++ ·)
      else decodeFrom (some (run ++ [c])) cs

/-- `decode_keyword` -/
def decodeKeyword (keyword : List Char) : Option (List Char) := decodeFrom none keyword

/-- `keyword_for_text` -/
def keywordForText (text : List Char) : Option (List Char) :=
  if trim text = [] ∨ trim text ≠ text ∨ text.any isControl then none
  else if byteLen (encodeName text) ≤ maxKeywordLen then some (encodeName text) else none

/-- `keyword_for_name` -/
def keywordForName (name : List Char) : Option (List Char) :=
  match validateName name with
  | .ok () => keywordForText name
  | .error _ => none

/-- `keyword_text` -/
def keywordText (keyword : List Char) : Option (List Char) := decodeKeyword keyword

/-- `is_atom_keyword`; a character outside ASCII has bytes that no atom has. -/
def isAtomKeyword (keyword : List Char) : Bool :=
  keyword ≠ [] && byteLen keyword ≤ maxKeywordLen &&
    keyword.all fun c => 0x20 < c.toNat && c.toNat < 0x7f && !atomSpecials.contains c

/-! ## The forms of mail clients -/

/-- `is_folded_shift_key` -/
def isFoldedShiftKey (keyword : List Char) : Bool :=
  !keyword.any Char.isUpper &&
    ((keyword.splitOn '&').drop 1).any fun run => (run.takeWhile (· != '-')).any Char.isLower

/-- `{:02x}` of a byte. -/
def hexByte (b : UInt8) : List Char :=
  [Nat.digitChar (b.toNat / 16), Nat.digitChar (b.toNat % 16)]

/-- What `readable_client_key` writes for a byte. -/
def readableByte (b : UInt8) : List Char :=
  if 0x20 < b ∧ b < 0x7f ∧ b ∉ readableKeyEscaped then [(Char.ofNat b.toNat).toLower]
  else '=' :: hexByte b

section Client

variable (sha256 : List UInt8 → List UInt8)

/-- `readable_client_key` -/
def readableClientKey (text : List Char) : List Char :=
  let bytes := Utf8.encode (String.ofList text)
  let key := bytes.flatMap readableByte
  let key := if key = [] then "tag".toList else key
  if maxReadableKeyLen < key.length then
    hashedKeyPrefix ++ ((sha256 bytes).take hashedKeyBytes).flatMap hexByte
  else key

/-- The value of a hexadecimal digit, in either case. -/
def hexValue (b : UInt8) : Option ℕ :=
  if 0x30 ≤ b ∧ b ≤ 0x39 then some (b.toNat - 0x30)
  else if 0x41 ≤ b ∧ b ≤ 0x46 then some (b.toNat - 0x37)
  else if 0x61 ≤ b ∧ b ≤ 0x66 then some (b.toNat - 0x57)
  else none

/-- The loop of `readable_key_text`. -/
def readableBytes : List UInt8 → Option (List UInt8)
  | [] => some []
  | b :: rest =>
      if b = 0x3d then
        match rest with
        | high :: low :: rest =>
            (hexValue high).bind fun h => (hexValue low).bind fun l =>
              (readableBytes rest).map ((16 * h + l).toUInt8 :: ·)
        | _ => none
      else (readableBytes rest).map (b :: ·)

/-- `readable_key_text` -/
def readableKeyText (keyword : List Char) : Option (List Char) :=
  if !keyword.contains '=' || keyword.contains '&' then none
  else
    ((readableBytes (Utf8.encode (String.ofList keyword))).bind Utf8.fromUtf8).bind fun text =>
      if readableClientKey sha256 text = keyword.map Char.toLower then some text else none

/-- `name_for_keyword` -/
def nameForKeyword (keyword : List Char) : Option (List Char) :=
  if isLocalKeyword keyword || keyword.head? == some '\\' then none
  else
    match readableKeyText sha256 keyword with
    | some name => if (keywordForName name).isSome then some name else none
    | none =>
        if isFoldedShiftKey keyword then none
        else
          (decodeKeyword keyword).bind fun name =>
            (keywordForName name).bind fun canonical =>
              if eqIgnoreAsciiCase canonical keyword then some name else none

end Client

/-! ## Runs -/

/-- A run as the mailbox name codec writes it. -/
theorem pushRun_eq {run : List ℕ} (h : ∀ u ∈ run, u < 0x10000) :
    pushRun run = Imap.Mutf7.flush run := Imap.Mutf7.flushLabel_eq h

theorem units_lt (text : List Char) : ∀ u ∈ text.flatMap encodeUtf16, u < 0x10000 := by
  intro u hu
  obtain ⟨c, -, hc⟩ := List.mem_flatMap.1 hu
  exact Imap.Mutf7.encodeUtf16_lt c u hc

/-- The bytes of code units, and back. -/
theorem bytes_toNat {run : List ℕ} (h : ∀ u ∈ run, u < 0x10000) :
    ((run.flatMap toBeBytes).map Nat.toUInt8).map UInt8.toNat = run.flatMap toBeBytes := by
  rw [List.map_map]
  refine (List.map_congr_left fun b hb => ?_).trans (List.map_id' _)
  obtain ⟨u, hu, hb⟩ := List.mem_flatMap.1 hb
  have hlt := h u hu
  simp only [toBeBytes, List.mem_cons, List.not_mem_nil, or_false] at hb
  rw [Function.comp, Nat.toUInt8_eq, UInt8.toNat_ofNat']
  omega

/-- The comma goes back to the slash that it stands for. -/
theorem replaceChar_comma {cs : List Char} (h : ',' ∉ cs) :
    replaceChar ',' ['/'] (replaceChar '/' [','] cs) = cs := by
  induction cs with
  | nil => rfl
  | cons c cs ih =>
      have hc : c ≠ ',' := fun heq => h (heq ▸ List.mem_cons_self)
      have hrest := ih fun hmem => h (List.mem_cons_of_mem _ hmem)
      unfold replaceChar at hrest ⊢
      rw [List.flatMap_cons, List.flatMap_append, hrest]
      split
      case isTrue hslash =>
        rw [hslash]
        rfl
      case isFalse =>
        rw [List.flatMap_singleton, if_neg hc, List.singleton_append]

theorem comma_notMem_encodeNoPad (bytes : List UInt8) : ',' ∉ Base64.encodeNoPad bytes := by
  have hdigit : ∀ n : Fin 64, Base64.digit n ≠ ',' := by decide
  intro h
  rcases Base64.mem_encode (List.mem_filter.1 h).1 with hpad | ⟨n, hn, hcomma⟩
  · exact absurd hpad (by decide)
  · exact hdigit ⟨n, hn⟩ hcomma.symm

/-- The run of a text is read back. -/
theorem runText_run {text : List Char} (h : text ≠ []) :
    runText (replaceChar '/' [',']
      (Base64.encodeNoPad (((text.flatMap encodeUtf16).flatMap toBeBytes).map Nat.toUInt8))) =
        some text := by
  have hunits : text.flatMap encodeUtf16 ≠ [] := by
    cases text with
    | nil => exact absurd rfl h
    | cons c text =>
        rw [List.flatMap_cons]
        unfold encodeUtf16
        split <;> simp
  generalize hbytes : ((text.flatMap encodeUtf16).flatMap toBeBytes).map Nat.toUInt8 = bytes
  have hnat : bytes.map UInt8.toNat = (text.flatMap encodeUtf16).flatMap toBeBytes := by
    rw [← hbytes, bytes_toNat (units_lt text)]
  have hlen : bytes.length = 2 * (text.flatMap encodeUtf16).length := by
    rw [← hbytes, List.length_map]
    generalize text.flatMap encodeUtf16 = units
    induction units with
    | nil => rfl
    | cons u units ih =>
        rw [List.flatMap_cons, List.length_append, ih, List.length_cons, toBeBytes]
        simp only [List.length_cons, List.length_nil]
        omega
  have hpos := List.length_pos_iff.2 hunits
  have hdecode := Base64.decodeNoPad_encodeNoPad bytes
  have hback := replaceChar_comma (comma_notMem_encodeNoPad bytes)
  rw [runText, if_neg, hback, hdecode, Option.bind_some, if_neg, hnat,
    Imap.Mutf7.fromBeBytes_toBeBytes, Imap.Mutf7.fromUtf16_encodeUtf16]
  · rintro (hnil | hodd)
    · rw [hnil, List.length_nil] at hlen
      omega
    · omega
  · intro hnil
    rw [hnil] at hback
    rw [← hback] at hdecode
    have hempty : bytes = [] := (Option.some.inj hdecode).symm
    rw [hempty, List.length_nil] at hlen
    omega

/-- A run is read up to its end. -/
theorem decodeFrom_run {run : List Char} (h : '-' ∉ run) (before rest : List Char) :
    decodeFrom (some before) (run ++ '-' :: rest) =
      (runText (before ++ run)).bind fun text => (decodeFrom none rest).map (text ++ ·) := by
  induction run generalizing before with
  | nil => rw [List.nil_append, List.append_nil, decodeFrom, if_pos rfl]
  | cons c run ih =>
      simp only [List.mem_cons, not_or] at h
      rw [List.cons_append, decodeFrom, if_neg (Ne.symm h.1), ih h.2, List.append_assoc,
        List.singleton_append]

theorem decodeFrom_pushRun (text rest : List Char) :
    decodeFrom none (pushRun (text.flatMap encodeUtf16) ++ rest) =
      (decodeFrom none rest).map (text ++ ·) := by
  cases text with
  | nil =>
      rw [List.flatMap_nil, pushRun, if_pos rfl, List.nil_append]
      exact Option.map_id'.symm
  | cons c cs =>
      have hne : (c :: cs).flatMap encodeUtf16 ≠ [] := by
        rw [List.flatMap_cons]
        unfold encodeUtf16
        split <;> simp
      have hminus := Imap.Mutf7.not_minus_mem_encodeRun ((c :: cs).flatMap encodeUtf16)
      have hflush := pushRun_eq (units_lt (c :: cs))
      rw [pushRun, if_neg hne, Imap.Mutf7.flush, if_neg hne] at hflush
      rw [← (List.append_inj_left' (List.cons.inj hflush).2 rfl)] at hminus
      rw [pushRun, if_neg hne, List.cons_append, decodeFrom, if_pos rfl, List.append_assoc,
        List.singleton_append, decodeFrom_run hminus, List.nil_append,
        runText_run (List.cons_ne_nil c cs), Option.bind_some]

/-! ## Encoded names -/

/-- A character that an atom may have. -/
def IsAtomChar (c : Char) : Prop :=
  0x20 < c.toNat ∧ c.toNat < 0x7f ∧ atomSpecials.contains c = false

theorem isAtomChar_of_isDirect {c : Char} (h : isDirect c = true) : IsAtomChar c := by
  simp only [isDirect, Bool.and_eq_true, decide_eq_true_eq, Bool.not_eq_true'] at h
  exact ⟨h.1.1.1, h.1.1.2, h.2⟩

theorem ne_shift_of_isDirect {c : Char} (h : isDirect c = true) : c ≠ '&' := by
  rintro rfl
  exact absurd h (by decide)

/-- The characters of a run are atom characters. -/
theorem isAtomChar_of_mem_pushRun {run : List ℕ} {c : Char} (h : c ∈ pushRun run) :
    IsAtomChar c := by
  have hdigit : ∀ n : Fin 64, 0x20 < (Base64.digit n).toNat ∧ (Base64.digit n).toNat < 0x7f ∧
      atomSpecials.contains (Base64.digit n) = false := by decide +kernel
  unfold pushRun at h
  split at h
  · exact absurd h List.not_mem_nil
  · rcases List.mem_cons.1 h with rfl | h
    · exact ⟨by decide, by decide, by decide⟩
    rcases List.mem_append.1 h with h | h
    · obtain ⟨d, hd, hc⟩ := List.mem_flatMap.1 h
      split at hc
      · obtain rfl := List.mem_singleton.1 hc
        exact ⟨by decide, by decide, by decide⟩
      · obtain rfl := List.mem_singleton.1 hc
        obtain ⟨hmem, hpad⟩ := List.mem_filter.1 hd
        rcases Base64.mem_encode hmem with rfl | ⟨n, hn, rfl⟩
        · exact absurd rfl (of_decide_eq_true hpad)
        · exact hdigit ⟨n, hn⟩
    · obtain rfl := List.mem_singleton.1 h
      exact ⟨by decide, by decide, by decide⟩

theorem isAtomChar_of_mem_encodeChar {forced : Bool} {run : List ℕ} {c d : Char}
    (h : d ∈ (encodeChar forced run c).1) : IsAtomChar d := by
  unfold encodeChar at h
  split at h
  case isTrue =>
    rcases List.mem_append.1 h with h | h
    · exact isAtomChar_of_mem_pushRun h
    · rcases List.mem_pair.1 h with rfl | rfl <;> exact ⟨by decide, by decide, by decide⟩
  case isFalse =>
    split at h
    case isTrue hdirect =>
      rcases List.mem_append.1 h with h | h
      · exact isAtomChar_of_mem_pushRun h
      · exact List.mem_singleton.1 h ▸ isAtomChar_of_isDirect hdirect.1
    case isFalse =>
      split at h
      · exact isAtomChar_of_mem_pushRun h
      · exact absurd h List.not_mem_nil

theorem isAtomChar_of_mem_encodeFrom {forced : Bool} {run : List ℕ} {cs : List Char} {c : Char}
    (h : c ∈ encodeFrom forced run cs) : IsAtomChar c := by
  induction cs generalizing forced run with
  | nil => exact isAtomChar_of_mem_pushRun h
  | cons d cs ih =>
      rw [encodeFrom] at h
      rcases List.mem_append.1 h with h | h
      · exact isAtomChar_of_mem_encodeChar h
      · exact ih h

/-- A text after pending characters is read back with them. -/
theorem decodeFrom_encodeFrom (text cs : List Char) :
    decodeFrom none (encodeFrom false (text.flatMap encodeUtf16) cs) = some (text ++ cs) := by
  induction cs generalizing text with
  | nil =>
      have hrun := decodeFrom_pushRun text []
      rw [List.append_nil] at hrun
      rw [encodeFrom, hrun]
      rfl
  | cons c cs ih =>
      have hrest : decodeFrom none (encodeFrom false [] cs) = some cs := ih []
      rw [encodeFrom, encodeChar]
      split
      case isTrue hshift =>
        rw [List.append_assoc, decodeFrom_pushRun, hshift.1]
        simp [decodeFrom, runText, hrest]
      case isFalse hplain =>
        split
        case isTrue hdirect =>
          have hc := ne_shift_of_isDirect hdirect.1
          rw [List.append_assoc, decodeFrom_pushRun]
          simp [decodeFrom, hc, hrest]
        case isFalse =>
          have hpending : text.flatMap encodeUtf16 ++ encodeUtf16 c =
              (text ++ [c]).flatMap encodeUtf16 := by simp
          rw [if_neg Bool.false_ne_true, List.nil_append, hpending, ih, List.append_assoc,
            List.singleton_append]

/-- **A keyword is decoded to its name.** -/
theorem decodeKeyword_encodeName (name : List Char) :
    decodeKeyword (encodeName name) = some name := by
  rw [encodeName, decodeKeyword]
  cases hlocal : isLocalKeyword name with
  | false => exact decodeFrom_encodeFrom [] name
  | true =>
      cases name with
      | nil => rfl
      | cons c cs =>
          have hrun := decodeFrom_pushRun [c] (encodeFrom false [] cs)
          have hrest : decodeFrom none (encodeFrom false [] cs) = some cs :=
            decodeFrom_encodeFrom [] cs
          rw [List.flatMap_singleton] at hrun
          rw [encodeFrom, encodeChar, if_neg (by simp), if_neg (by simp), if_pos rfl,
            List.nil_append, hrun, hrest]
          rfl

/-- Pending characters begin with a run. -/
theorem head_encodeFrom_run {run : List ℕ} (h : run ≠ []) (cs : List Char) :
    (encodeFrom false run cs).head? = some '&' := by
  have hpush : ∀ rest, (pushRun run ++ rest).head? = some '&' := by
    intro rest
    rw [pushRun, if_neg h]
    rfl
  induction cs generalizing run with
  | nil =>
      rw [encodeFrom, ← List.append_nil (pushRun run)]
      exact hpush []
  | cons c cs ih =>
      rw [encodeFrom, encodeChar]
      split
      case isTrue =>
        rw [List.append_assoc]
        exact hpush _
      case isFalse =>
        split
        case isTrue =>
          rw [List.append_assoc]
          exact hpush _
        case isFalse =>
          have hne : run ++ encodeUtf16 c ≠ [] := fun hnil => h (List.append_eq_nil_iff.1 hnil).1
          rw [if_neg Bool.false_ne_true, List.nil_append]
          refine ih hne fun rest => ?_
          rw [pushRun, if_neg hne]
          rfl

theorem encodeUtf16_ne_nil (c : Char) : encodeUtf16 c ≠ [] := by
  unfold encodeUtf16
  split <;> simp

/-- A keyword begins with a run, or as its name. -/
theorem head_encodeFrom {cs : List Char} {c : Char}
    (h : (encodeFrom false [] cs).head? = some c) : c = '&' ∨ cs.head? = some c := by
  cases cs with
  | nil => exact absurd h (by simp [encodeFrom, pushRun])
  | cons d cs =>
      rw [encodeFrom, encodeChar] at h
      split at h
      case isTrue => exact .inl (Option.some.inj h).symm
      case isFalse =>
        split at h
        case isTrue => exact .inr h
        case isFalse =>
          rw [if_neg Bool.false_ne_true, List.nil_append, List.nil_append,
            head_encodeFrom_run (encodeUtf16_ne_nil d)] at h
          exact .inl (Option.some.inj h).symm

/-- A keyword without a run is its name. -/
theorem encodeFrom_of_notMem {cs : List Char} (h : '&' ∉ encodeFrom false [] cs) :
    encodeFrom false [] cs = cs := by
  induction cs with
  | nil => rfl
  | cons c cs ih =>
      rw [encodeFrom, encodeChar] at h ⊢
      split at h
      case isTrue => exact absurd (by simp [pushRun]) h
      case isFalse hplain =>
        rw [if_neg hplain]
        split at h
        case isTrue hdirect =>
          rw [if_pos hdirect]
          have hrest := ih fun hmem => h (List.mem_append_right _ hmem)
          show (pushRun [] ++ [c]) ++ encodeFrom false [] cs = c :: cs
          rw [hrest]
          rfl
        case isFalse =>
          rw [if_neg Bool.false_ne_true, List.nil_append, List.nil_append] at h
          exact absurd (List.mem_of_mem_head? (head_encodeFrom_run (encodeUtf16_ne_nil c) cs)) h

/-- No reserved keyword has a run. -/
theorem not_reserved_of_shift {keyword : List Char} (h : '&' ∈ keyword) :
    (reservedKeywords.any fun reserved => eqIgnoreAsciiCase reserved.toList keyword) = false := by
  have hshift : ∀ reserved ∈ reservedKeywords, '&' ∉ reserved.toList.map Char.toLower := by
    decide +kernel
  rw [List.any_eq_false]
  intro reserved hreserved hsame
  refine hshift reserved hreserved ?_
  rw [beq_iff_eq.1 hsame]
  exact List.mem_map_of_mem h

/-- A name that is a local keyword begins with a run. -/
theorem head_encodeName {name : List Char} (h : isLocalKeyword name = true) :
    (encodeName name).head? = some '&' := by
  cases name with
  | nil => exact absurd h (by decide)
  | cons c cs =>
      rw [encodeName, h, encodeFrom, encodeChar, if_neg (by simp), if_neg (by simp), if_pos rfl,
        List.nil_append, pushRun, if_neg (encodeUtf16_ne_nil c)]
      rfl

/-- The keyword of a name is not a local keyword. -/
theorem isLocalKeyword_encodeName (name : List Char) :
    isLocalKeyword (encodeName name) = false := by
  cases hlocal : isLocalKeyword name with
  | true =>
      have hhead := head_encodeName hlocal
      rw [isLocalKeyword, not_reserved_of_shift (List.mem_of_mem_head? hhead), hhead]
      rfl
  | false =>
      have hencode : encodeName name = encodeFrom false [] name := by rw [encodeName, hlocal]
      by_cases hshift : '&' ∈ encodeName name
      · rw [isLocalKeyword, not_reserved_of_shift hshift, Bool.or_false, beq_eq_false_iff_ne]
        intro hhead
        rw [hencode] at hhead
        rcases head_encodeFrom hhead with hamp | hname
        · exact absurd hamp (by decide)
        · rw [isLocalKeyword, hname] at hlocal
          exact absurd hlocal (by simp)
      · rw [hencode] at hshift ⊢
        rw [encodeFrom_of_notMem hshift, hlocal]

/-- A keyword without a run is its name. -/
theorem encodeName_of_notMem {name : List Char} (h : '&' ∉ encodeName name) :
    encodeName name = name := by
  have hlocal : isLocalKeyword name = false := by
    rw [Bool.eq_false_iff]
    exact fun hlocal => h (List.mem_of_mem_head? (head_encodeName hlocal))
  rw [encodeName, hlocal] at h ⊢
  exact encodeFrom_of_notMem h

/-! ## Readable keys -/

/-- An escape of a readable key stands for one byte. -/
theorem length_readableBytes {bytes out : List UInt8} (h : readableBytes bytes = some out) :
    out.length ≤ bytes.length ∧ (0x3d ∈ bytes → out.length < bytes.length) := by
  fun_induction readableBytes bytes generalizing out with
  | case1 =>
      rw [← Option.some.inj h]
      exact ⟨Nat.le_refl _, fun hmem => absurd hmem List.not_mem_nil⟩
  | case2 high low rest ih =>
      obtain ⟨hv, -, h⟩ := Option.bind_eq_some_iff.1 h
      obtain ⟨lv, -, h⟩ := Option.bind_eq_some_iff.1 h
      obtain ⟨tail, htail, rfl⟩ := Option.map_eq_some_iff.1 h
      have hle := (ih htail).1
      simp only [List.length_cons]
      exact ⟨by omega, fun _ => by omega⟩
  | case3 => exact nomatch h
  | case4 b rest hb ih =>
      obtain ⟨tail, htail, rfl⟩ := Option.map_eq_some_iff.1 h
      obtain ⟨hle, hlt⟩ := ih htail
      simp only [List.length_cons]
      refine ⟨by omega, fun hmem => ?_⟩
      have hrest := hlt ((List.mem_cons.1 hmem).resolve_left (Ne.symm hb))
      omega

/-- The name that a readable key stands for is not the name that has this keyword. -/
theorem ne_of_readableKeyText {sha256 : List UInt8 → List UInt8} {name text : List Char}
    (h : readableKeyText sha256 (encodeName name) = some text) : text ≠ name := by
  rintro rfl
  unfold readableKeyText at h
  split at h
  case isTrue => exact nomatch h
  case isFalse hform =>
    simp only [Bool.or_eq_true, Bool.not_eq_true', List.contains_iff_mem, not_or,
      Bool.not_eq_false] at hform
    obtain ⟨hescape, hshift⟩ := hform
    have hname := encodeName_of_notMem hshift
    have hascii : ∀ c ∈ text, c.toNat < 0x80 := by
      intro c hc
      rw [← hname] at hc
      exact (isAtomChar_of_mem_encodeFrom hc).2.1.trans (by decide)
    rw [hname] at h hescape
    obtain ⟨back, hback, h⟩ := Option.bind_eq_some_iff.1 h
    obtain ⟨bytes, hbytes, hread⟩ := Option.bind_eq_some_iff.1 hback
    split at h
    case isFalse => exact nomatch h
    case isTrue =>
      obtain rfl := Option.some.inj h
      have hmem : 0x3d ∈ Utf8.encode (String.ofList back) := by
        rw [Utf8.encode_eq_flatMap, String.toList_ofList]
        exact List.mem_flatMap.2 ⟨'=', hescape, by decide⟩
      have hlt := (length_readableBytes hbytes).2 hmem
      rw [Utf8.length_encode_of_ascii hascii] at hlt
      exact absurd (Utf8.length_le_of_fromUtf8 hread) (by omega)

/-! ## Names and their keywords -/

section Names

variable {name keyword : List Char}

/-- What a name with a keyword is, and what its keyword is. -/
theorem eq_of_keywordForName (h : keywordForName name = some keyword) :
    keyword = encodeName name ∧ byteLen keyword ≤ maxKeywordLen ∧ name ≠ [] := by
  unfold keywordForName at h
  split at h
  case h_1 =>
    unfold keywordForText at h
    split at h
    case isTrue => exact nomatch h
    case isFalse htext =>
      split at h
      case isTrue hlen =>
        obtain rfl := Option.some.inj h
        refine ⟨rfl, hlen, ?_⟩
        rintro rfl
        exact htext (.inl rfl)
      case isFalse => exact nomatch h
  case h_2 => exact nomatch h

/-- The keyword of a name is an atom. -/
theorem isAtomKeyword_of_keywordForName (h : keywordForName name = some keyword) :
    isAtomKeyword keyword = true := by
  obtain ⟨rfl, hlen, hname⟩ := eq_of_keywordForName h
  have hne : encodeName name ≠ [] := by
    intro hnil
    have hdecode := decodeKeyword_encodeName name
    rw [hnil] at hdecode
    exact hname (Option.some.inj hdecode).symm
  rw [isAtomKeyword, Bool.and_eq_true, Bool.and_eq_true]
  refine ⟨⟨decide_eq_true hne, decide_eq_true hlen⟩, List.all_eq_true.2 fun c hc => ?_⟩
  obtain ⟨hlow, hhigh, hspecial⟩ := isAtomChar_of_mem_encodeFrom hc
  rw [hspecial, Bool.not_false, Bool.and_true, decide_eq_true hlow, decide_eq_true hhigh]
  rfl

/-- A keyword with neither of the client forms is decoded. -/
theorem nameForKeyword_eq {sha256 : List UInt8 → List UInt8}
    (h : keywordForName name = some keyword) (hreadable : readableKeyText sha256 keyword = none) :
    nameForKeyword sha256 keyword = if isFoldedShiftKey keyword then none else some name := by
  obtain ⟨rfl, -, -⟩ := eq_of_keywordForName h
  have hslash : ((encodeName name).head? == some '\\') = false := by
    rw [beq_eq_false_iff_ne]
    intro hhead
    have hatom := isAtomChar_of_mem_encodeFrom (List.mem_of_mem_head? hhead)
    exact absurd hatom.2.2 (by decide)
  have hsame : eqIgnoreAsciiCase (encodeName name) (encodeName name) = true := beq_self_eq_true _
  rw [nameForKeyword, isLocalKeyword_encodeName, hslash, if_neg (by decide), hreadable]
  dsimp only
  rw [decodeKeyword_encodeName, Option.bind_some, h, Option.bind_some, if_pos hsame]

end Names

/-- **Keywords of labels are faithful**: the keyword of a name is an atom that no client uses
for itself, it is decoded to the name, and no other name has it. A client that stores it gets
the name, unless the keyword has one of the forms that clients make of a name. -/
theorem label_keywords_are_faithful (sha256 : List UInt8 → List UInt8) :
    (∀ name keyword : List Char, keywordForName name = some keyword →
      isAtomKeyword keyword = true ∧ byteLen keyword ≤ 128 ∧ isLocalKeyword keyword = false ∧
      keywordText keyword = some name ∧
      (nameForKeyword sha256 keyword = some name ↔
        readableKeyText sha256 keyword = none ∧ isFoldedShiftKey keyword = false) ∧
      (readableKeyText sha256 keyword = none →
        ∀ other, nameForKeyword sha256 keyword = some other → other = name)) ∧
    (∀ name other keyword : List Char, keywordForName name = some keyword →
      keywordForName other = some keyword → name = other) := by
  constructor
  · intro name keyword h
    obtain ⟨rfl, hlen, -⟩ := eq_of_keywordForName h
    refine ⟨isAtomKeyword_of_keywordForName h, hlen, isLocalKeyword_encodeName name,
      decodeKeyword_encodeName name, ?_, ?_⟩
    · cases hreadable : readableKeyText sha256 (encodeName name) with
      | none =>
          rw [nameForKeyword_eq h hreadable]
          cases isFoldedShiftKey (encodeName name) <;> simp
      | some text =>
          refine iff_of_false (fun hname => ?_) fun hnone => nomatch hnone.1
          unfold nameForKeyword at hname
          split at hname
          case isTrue => exact nomatch hname
          case isFalse =>
            rw [hreadable] at hname
            dsimp only at hname
            split at hname
            case isTrue =>
              exact ne_of_readableKeyText hreadable (Option.some.inj hname)
            case isFalse => exact nomatch hname
    · intro hreadable other hother
      rw [nameForKeyword_eq h hreadable] at hother
      split at hother
      case isTrue => exact nomatch hother
      case isFalse => exact (Option.some.inj hother).symm
  · intro name other keyword h hother
    have hname := decodeKeyword_encodeName name
    rw [← (eq_of_keywordForName h).1, (eq_of_keywordForName hother).1,
      decodeKeyword_encodeName other] at hname
    exact (Option.some.inj hname).symm

/-- The label `Work`. -/
theorem work_is_faithful :
    keywordText ['W', 'o', 'r', 'k'] = some ['W', 'o', 'r', 'k'] ∧
      (['W', 'o', 'r', 'k'] : List Char) = ['W', 'o', 'r', 'k'] := by
  have hwork : keywordForName ['W', 'o', 'r', 'k'] = some ['W', 'o', 'r', 'k'] := by
    decide +kernel
  exact ⟨((label_keywords_are_faithful id).1 _ _ hwork).2.2.2.1,
    (label_keywords_are_faithful id).2 _ _ _ hwork hwork⟩

/-- The label `mais=20tarde` has a keyword that stands for the name `mais tarde`, and the
keyword of the label `榧` stands for no name. -/
theorem readable_keyword_is_another_name :
    (keywordForName "mais=20tarde".toList = some "mais=20tarde".toList ∧
      nameForKeyword id "mais=20tarde".toList = some "mais tarde".toList) ∧
    keywordForName "榧".toList = some "&aac-".toList ∧
    nameForKeyword id "&aac-".toList = none := by
  decide +kernel

end AsterBridge.Tags
