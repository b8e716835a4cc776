import AsterBridge.Imap.FlagPushes
import AsterBridge.Lib.Unicode
import AsterBridge.Lib.Words

/-!
# The items of STORE

How STORE and UID STORE of `imap/server.rs` read `op_and_flags`: the routing to the labels, the
operation and the silence are substrings of the whole text, the system flags are recognised with or
without their backslash. `store_reads_flags_iff` says for which lists of flags that is the meaning
of the item.
-/

set_option autoImplicit false

namespace AsterBridge.Imap.StoreFlags

open AsterBridge.Lib AsterBridge.Lib.Text

/-- `to_ascii_uppercase` -/
def upper (s : List Char) : List Char := s.map Char.toUpper

/-- The first character after the opening parenthesis. -/
def flagStart (s : List Char) : Nat :=
  match s.idxOf? '(' with
  | some p => p + 1
  | none => 0

/-- `flag_str`: the text between the first opening and the last closing parenthesis. -/
def flagText (s : List Char) : List Char :=
  let stop := (rfind ')' s).getD s.length
  if flagStart s ≤ stop then (s.take stop).drop (flagStart s) else []

/-- The bit of the name of a system flag. -/
def flagBit (name : List Char) : BitVec 32 :=
  if name = "SEEN".toList then 1
  else if name = "ANSWERED".toList then 2
  else if name = "FLAGGED".toList then 4
  else if name = "DELETED".toList then 8
  else if name = "DRAFT".toList then 16
  else 0

/-- The bit that the loop of `parse_store_flags` takes from a token. -/
def tokenBit (token : List Char) : BitVec 32 := flagBit ((upper token).dropWhile (· = '\\'))

/-- The operation of `parse_store_flags`. -/
def parseOp (up : List Char) : Int :=
  if contains up "+FLAGS".toList then 1 else if contains up "-FLAGS".toList then -1 else 0

/-- `parse_store_flags` -/
def parseStoreFlags (s : List Char) : Int × BitVec 32 × Bool :=
  let up := upper s
  (parseOp up, (splitWhitespace (flagText s)).foldl (fun mask token => mask ||| tokenBit token) 0,
    contains up ".SILENT".toList)

/-- A character of a keyword. -/
def isKeywordChar (c : Char) : Bool :=
  0x20 < c.toNat && c.toNat < 0x7F && !("()\x7b%*\"\\]".toList.contains c)

/-- `MAX_KEYWORD_LEN` -/
def maxKeywordLen : Nat := 128

/-- `is_keyword` -/
def isKeyword (token : List Char) : Bool :=
  !token.isEmpty && token.length ≤ maxKeywordLen && token.all isKeywordChar

/-- `parse_store_keywords` -/
def parseStoreKeywords (s : List Char) : Option (List (List Char)) :=
  let up := upper s
  if !contains up "FLAGS".toList || contains up "X-GM-LABELS".toList then none
  else
    -- without parentheses the list begins after the item
    let list := if flagStart s = 0 then
        ((flagText s).dropWhile fun c => !isWhitespace c).drop 1 else flagText s
    some ((splitWhitespace list).filter fun t => t.head? ≠ some '\\' && isKeyword t)

/-- `trim_end_matches(".SILENT")`, at most `fuel` times. -/
def trimSilent : Nat → List Char → List Char
  | 0, s => s
  | fuel + 1, s =>
      if ".SILENT".toList.isSuffixOf s then trimSilent fuel (s.take (s.length - 7)) else s

/-- `is_store_flags_item` -/
def isStoreFlagsItem (s : List Char) : Bool :=
  let item := upper (s.takeWhile fun c => !(isWhitespace c || c == '('))
  ["FLAGS".toList, "+FLAGS".toList, "-FLAGS".toList].contains (trimSilent item.length item)

/-- What STORE and UID STORE make of an item. -/
inductive StoreItem where
  | gmLabels
  | unsupported
  | flags (op : Int) (mask : BitVec 32) (silent : Bool) (keywords : Option (List (List Char)))
deriving DecidableEq

/-- The branches of STORE in `run_session_inner`. -/
def storeItem (opAndFlags : List Char) : StoreItem :=
  if contains (upper opAndFlags) "X-GM-LABELS".toList then .gmLabels
  else if !isStoreFlagsItem opAndFlags then .unsupported
  else
    let (op, mask, silent) := parseStoreFlags opAndFlags
    .flags op mask silent (parseStoreKeywords opAndFlags)

/-! ## What an item means -/

/-- The operations of STORE. -/
inductive StoreOp where
  | replace
  | add
  | remove
deriving DecidableEq

/-- The number of an operation. -/
def StoreOp.code : StoreOp → Int
  | .replace => 0
  | .add => 1
  | .remove => -1

/-- The sign before `FLAGS`. -/
def StoreOp.sign : StoreOp → List Char
  | .replace => []
  | .add => ['+']
  | .remove => ['-']

/-- The name of an item. -/
def itemName (op : StoreOp) (silent : Bool) : List Char :=
  op.sign ++ "FLAGS".toList ++ if silent then ".SILENT".toList else []

/-- A token of a list of flags: a keyword, or a backslash and an atom. -/
def IsFlag (token : List Char) : Prop :=
  isKeyword token = true ∨
    ∃ atom, token = '\\' :: atom ∧ atom ≠ [] ∧ atom.all isKeywordChar = true

/-- The token is a system flag. -/
def isSystem (token : List Char) : Bool := token.head? = some '\\'

/-- The bits of the system flags of a list. -/
def systemMask (tokens : List (List Char)) : BitVec 32 :=
  ((tokens.filter isSystem).map fun token => flagBit (upper (token.drop 1))).foldl (· ||| ·) 0

/-- The keywords of a list. -/
def keywords (tokens : List (List Char)) : List (List Char) :=
  tokens.filter fun token => !isSystem token

/-- An item with its list: the name, `gap` blanks, and the flags in parentheses. -/
def storeText (item : List Char) (gap : Nat) (tokens : List (List Char)) : List Char :=
  item ++ (List.replicate gap ' ' ++ '(' :: ([' '].intercalate tokens ++ [')']))

/-- No token has `needle`, in any case. -/
def Without (needle : String) (tokens : List (List Char)) : Prop :=
  ∀ token ∈ tokens, contains (upper token) needle.toList = false

instance (needle : String) (tokens : List (List Char)) : Decidable (Without needle tokens) :=
  List.decidableBAll _ _

/-- The flags cannot be taken for something else: no flag has a part that says otherwise what the
item is, and a keyword has the name of a system flag only beside that flag. -/
structure Unconfusable (op : StoreOp) (silent : Bool) (tokens : List (List Char)) : Prop where
  labels : Without "X-GM-LABELS" tokens
  silence : silent = true ∨ Without ".SILENT" tokens
  add : op = .add ∨ Without "+FLAGS" tokens
  remove : op ≠ .replace ∨ Without "-FLAGS" tokens
  names : ∀ token ∈ keywords tokens, systemMask tokens ||| flagBit (upper token) = systemMask tokens

/-! ## Masks -/

section Masks

variable {m b : BitVec 32} {l : List (BitVec 32)}

theorem zero_or (b : BitVec 32) : 0 ||| b = b := BitVec.zero_or

theorem foldl_or_init (m : BitVec 32) (l : List (BitVec 32)) :
    l.foldl (· ||| ·) m = m ||| l.foldl (· ||| ·) 0 := by
  induction l generalizing m with
  | nil => simp
  | cons b l ih =>
      rw [List.foldl_cons, List.foldl_cons, ih, ih (0 ||| b), zero_or, BitVec.or_assoc]

theorem foldl_or_cons : (b :: l).foldl (· ||| ·) 0 = b ||| l.foldl (· ||| ·) 0 := by
  rw [List.foldl_cons, foldl_or_init, zero_or]

/-- The bits of a list are those that a test selects with the others. -/
theorem foldl_or_filter {α : Type} (f : α → BitVec 32) (p : α → Bool) (xs : List α) :
    (xs.map f).foldl (· ||| ·) 0 = ((xs.filter p).map f).foldl (· ||| ·) 0 |||
      ((xs.filter fun a => !p a).map f).foldl (· ||| ·) 0 := by
  induction xs with
  | nil => simp
  | cons a xs ih =>
      rw [List.map_cons, foldl_or_cons, ih]
      cases hp : p a with
      | true =>
          rw [List.filter_cons_of_pos hp, List.filter_cons_of_neg (by simp [hp]), List.map_cons,
            foldl_or_cons, BitVec.or_assoc]
      | false =>
          rw [List.filter_cons_of_neg (by simp [hp]), List.filter_cons_of_pos (by simp [hp]),
            List.map_cons, foldl_or_cons, ← BitVec.or_assoc, ← BitVec.or_assoc,
            BitVec.or_comm (f a)]

/-- A mask has all the bits of a list. -/
theorem or_foldl_eq_iff : m ||| l.foldl (· ||| ·) 0 = m ↔ ∀ b ∈ l, m ||| b = m := by
  induction l generalizing m with
  | nil => simp
  | cons b l ih =>
      rw [foldl_or_cons, ← BitVec.or_assoc, List.forall_mem_cons]
      constructor
      · intro h
        have hb : m ||| b = m := by
          have hrest : m ||| l.foldl (· ||| ·) 0 ||| b = m := by
            rwa [BitVec.or_assoc, BitVec.or_comm _ b, ← BitVec.or_assoc]
          calc m ||| b = m ||| l.foldl (· ||| ·) 0 ||| b ||| b := by rw [hrest]
            _ = m ||| l.foldl (· ||| ·) 0 ||| b := by rw [BitVec.or_assoc, BitVec.or_self]
            _ = m := hrest
        rw [hb] at h
        exact ⟨hb, ih.1 h⟩
      · rintro ⟨hb, hl⟩
        rw [hb]
        exact ih.2 hl

end Masks

/-! ## The text of an item -/

section Item

variable {item : List Char} {gap : Nat} {tokens : List (List Char)} {op : StoreOp} {silent : Bool}

theorem upper_append (s t : List Char) : upper (s ++ t) = upper s ++ upper t := List.map_append

theorem upper_intercalate (tokens : List (List Char)) :
    upper ([' '].intercalate tokens) = [' '].intercalate (tokens.map upper) := by
  induction tokens with
  | nil => rfl
  | cons t tokens ih =>
      cases tokens with
      | nil => simp
      | cons t' tokens =>
          rw [List.intercalate_cons_cons, upper_append, upper_append, ih]
          simp only [List.map_cons, List.intercalate_cons_cons]
          rfl

theorem upper_storeText : upper (storeText item gap tokens) =
    storeText (upper item) gap (tokens.map upper) := by
  have hgap : upper (List.replicate gap ' ') = List.replicate gap ' ' := List.map_replicate
  have hlist : upper ('(' :: ([' '].intercalate tokens ++ [')'])) =
      '(' :: ([' '].intercalate (tokens.map upper) ++ [')']) := by
    rw [← upper_intercalate]
    exact congrArg ('(' :: ·) List.map_append
  rw [storeText, upper_append, upper_append, hgap, hlist, storeText]

/-- A substring of the text of an item is in its name or in a flag. -/
theorem contains_storeText {needle : List Char} (hne : needle ≠ []) (hblank : ' ' ∉ needle)
    (hopen : '(' ∉ needle) (hclose : ')' ∉ needle) : contains (storeText item gap tokens) needle =
      (contains item needle || tokens.any fun t => contains t needle) := by
  rw [Bool.eq_iff_iff, Bool.or_eq_true, List.any_eq_true, contains_iff, contains_iff]
  simp only [contains_iff]
  induction gap generalizing item with
  | zero =>
      rw [storeText, List.replicate_zero, List.nil_append, infix_cut hopen, infix_cut hclose,
        infix_intercalate hblank hne]
      simp [hne]
  | succ gap ih =>
      have hstep : storeText item (gap + 1) tokens = item ++ ' ' :: storeText [] gap tokens := rfl
      rw [hstep, infix_cut hblank, ih]
      simp [hne]

/-- The name of an item has no blank and no parenthesis. -/
theorem item_chars (h : upper item = itemName op silent) :
    ∀ c ∈ item, isWhitespace c = false ∧ c ≠ '(' := by
  have hall : ∀ op silent, ((itemName op silent).all fun c =>
      decide (c.toNat < 0x80 ∧ isWhitespace c = false ∧ c ≠ '(')) = true := by
    intro op silent
    cases op <;> cases silent <;> decide
  have hname : ∀ op silent, ∀ c ∈ itemName op silent,
      c.toNat < 0x80 ∧ isWhitespace c = false ∧ c ≠ '(' := fun op silent c hc =>
    of_decide_eq_true (List.all_eq_true.1 (hall op silent) c hc)
  intro c hc
  obtain ⟨hlt, hplain, hopen⟩ := hname op silent c.toUpper (h ▸ List.mem_map_of_mem hc)
  have hascii : c.toNat < 0x80 := by
    by_contra hbeyond
    rw [Unicode.toUpper_of_not_ascii (Nat.not_lt.1 hbeyond)] at hlt
    exact hbeyond hlt
  exact Unicode.ascii_forall (P := fun c => isWhitespace c.toUpper = false → c.toUpper ≠ '(' →
    isWhitespace c = false ∧ c ≠ '(') (by decide +kernel) hascii hplain hopen

/-- The list begins after the first parenthesis. -/
theorem flagStart_append {pre : List Char} (h : '(' ∉ pre) (rest : List Char) :
    flagStart (pre ++ '(' :: rest) = pre.length + 1 := by
  have hidx : (pre ++ '(' :: rest).idxOf? '(' = some pre.length := by
    rw [List.idxOf?_eq_some_iff]
    refine ⟨by simp, by simp, fun j hj heq => h ?_⟩
    rw [List.getElem_append_left hj] at heq
    exact heq ▸ List.getElem_mem hj
  rw [flagStart, hidx]

theorem storeText_eq : storeText item gap tokens =
    (item ++ List.replicate gap ' ') ++ '(' :: ([' '].intercalate tokens ++ [')']) :=
  (List.append_assoc ..).symm

theorem flagStart_storeText (h : '(' ∉ item) :
    flagStart (storeText item gap tokens) = item.length + gap + 1 := by
  have hpre : '(' ∉ item ++ List.replicate gap ' ' := by simp [h]
  rw [storeText_eq, flagStart_append hpre, List.length_append, List.length_replicate]

/-- The list is what stands between the parentheses. -/
theorem flagText_storeText (h : '(' ∉ item) :
    flagText (storeText item gap tokens) = [' '].intercalate tokens := by
  have hsplit : storeText item gap tokens =
      ((item ++ List.replicate gap ' ') ++ ['('] ++ [' '].intercalate tokens) ++ ')' :: [] := by
    rw [storeText_eq]
    simp
  have hlast : (rfind ')' (storeText item gap tokens)).getD (storeText item gap tokens).length =
      item.length + gap + 1 + ([' '].intercalate tokens).length := by
    rw [hsplit, rfind_append_cons List.not_mem_nil]
    simp only [Option.getD_some, List.length_append, List.length_replicate, List.length_singleton]
  unfold flagText
  dsimp only
  rw [hlast, flagStart_storeText h, if_pos (Nat.le_add_right _ _), hsplit]
  have hlength : (item ++ List.replicate gap ' ' ++ ['(']).length = item.length + gap + 1 := by
    simp [Nat.add_assoc]
  rw [List.take_append_of_le_length (by rw [List.length_append, hlength]), ← hlength,
    List.take_of_length_le (by rw [List.length_append]), List.drop_left]

/-- The name is recognised as an item of flags. -/
theorem isStoreFlagsItem_storeText (h : upper item = itemName op silent) :
    isStoreFlagsItem (storeText item gap tokens) = true := by
  have hchars := item_chars h
  have htake : (storeText item gap tokens).takeWhile (fun c => !(isWhitespace c || c == '(')) =
      item := by
    have hhead : ∃ d rest, storeText item gap tokens = item ++ d :: rest ∧
        (isWhitespace d || d == '(') = true := by
      cases gap with
      | zero => exact ⟨'(', _, rfl, by decide⟩
      | succ gap => exact ⟨' ', _, rfl, by decide⟩
    obtain ⟨d, rest, heq, hd⟩ := hhead
    rw [heq, List.takeWhile_append_of_pos, List.takeWhile_cons_of_neg (by simp [hd]),
      List.append_nil]
    intro c hc
    obtain ⟨hplain, hopen⟩ := hchars c hc
    simp [hplain, hopen]
  have hnames : ∀ op silent, ["FLAGS".toList, "+FLAGS".toList, "-FLAGS".toList].contains
      (trimSilent (itemName op silent).length (itemName op silent)) = true := by
    intro op silent
    cases op <;> cases silent <;> decide
  unfold isStoreFlagsItem
  dsimp only
  rw [htake, h]
  exact hnames op silent

end Item

/-! ## Tokens -/

section Tokens

variable {token : List Char} {tokens : List (List Char)}

theorem keywordChar_plain {c : Char} (h : isKeywordChar c = true) :
    isWhitespace c = false ∧ c ≠ '\\' ∧ c.toUpper ≠ '\\' := by
  have hrange : c.toNat < 0x80 := by
    simp only [isKeywordChar, Bool.and_eq_true, decide_eq_true_eq] at h
    omega
  exact Unicode.ascii_forall (P := fun c => isKeywordChar c = true →
    isWhitespace c = false ∧ c ≠ '\\' ∧ c.toUpper ≠ '\\') (by decide +kernel) hrange h

theorem chars_of_isKeyword (h : isKeyword token = true) :
    token ≠ [] ∧ ∀ c ∈ token, isKeywordChar c = true := by
  simp only [isKeyword, Bool.and_eq_true, List.all_eq_true] at h
  refine ⟨?_, h.2⟩
  rintro rfl
  exact absurd h.1.1 (by decide)

theorem isSystem_of_keyword (h : isKeyword token = true) : isSystem token = false := by
  obtain ⟨hne, hchars⟩ := chars_of_isKeyword h
  cases token with
  | nil => exact absurd rfl hne
  | cons c rest =>
      have hc := (keywordChar_plain (hchars c List.mem_cons_self)).2.1
      simp [isSystem, hc]

/-- Flags are words. -/
theorem IsFlag.isWord (h : IsFlag token) : IsWord token := by
  rcases h with hkeyword | ⟨atom, rfl, -, hchars⟩
  · obtain ⟨hne, hchars⟩ := chars_of_isKeyword hkeyword
    exact ⟨hne, fun c hc => (keywordChar_plain (hchars c hc)).1⟩
  · refine ⟨List.cons_ne_nil _ _, List.forall_mem_cons.2 ⟨by decide, fun c hc => ?_⟩⟩
    exact (keywordChar_plain (List.all_eq_true.1 hchars c hc)).1

theorem upper_dropWhile (h : ∀ c ∈ token, isKeywordChar c = true) :
    (upper token).dropWhile (· = '\\') = upper token := by
  cases token with
  | nil => rfl
  | cons c rest =>
      have hc := (keywordChar_plain (h c List.mem_cons_self)).2.2
      show (c.toUpper :: upper rest).dropWhile _ = _
      rw [List.dropWhile_cons_of_neg (by simpa using hc)]
      rfl

/-- A system flag gives the bit of its name. -/
theorem tokenBit_system (h : IsFlag token) (hsystem : isSystem token = true) :
    tokenBit token = flagBit (upper (token.drop 1)) := by
  rcases h with hkeyword | ⟨atom, rfl, -, hchars⟩
  · rw [isSystem_of_keyword hkeyword] at hsystem
    exact absurd hsystem (by decide)
  · have hslash : Char.toUpper '\\' = '\\' := by decide
    show flagBit ((Char.toUpper '\\' :: upper atom).dropWhile (· = '\\')) = flagBit (upper atom)
    rw [hslash, List.dropWhile_cons_of_pos (by decide),
      upper_dropWhile fun c hc => List.all_eq_true.1 hchars c hc]

/-- A keyword is taken for the system flag of its name. -/
theorem tokenBit_keyword (h : IsFlag token) (hsystem : isSystem token = false) :
    tokenBit token = flagBit (upper token) := by
  rcases h with hkeyword | ⟨atom, rfl, -, -⟩
  · rw [tokenBit, upper_dropWhile (chars_of_isKeyword hkeyword).2]
  · exact absurd hsystem (by simp [isSystem])

/-- The mask of a list: its system flags, and the keywords with their names. -/
theorem foldl_tokenBit (h : ∀ t ∈ tokens, IsFlag t) :
    tokens.foldl (fun mask token => mask ||| tokenBit token) 0 = systemMask tokens |||
      ((keywords tokens).map fun t => flagBit (upper t)).foldl (· ||| ·) 0 := by
  have hmap : tokens.foldl (fun mask token => mask ||| tokenBit token) 0 =
      (tokens.map tokenBit).foldl (· ||| ·) 0 := List.foldl_map.symm
  have hsystem : (tokens.filter isSystem).map tokenBit =
      (tokens.filter isSystem).map fun t => flagBit (upper (t.drop 1)) := by
    refine List.map_congr_left fun t ht => ?_
    obtain ⟨hmem, hs⟩ := List.mem_filter.1 ht
    exact tokenBit_system (h t hmem) hs
  have hkeyword : (keywords tokens).map tokenBit =
      (keywords tokens).map fun t => flagBit (upper t) := by
    refine List.map_congr_left fun t ht => ?_
    obtain ⟨hmem, hs⟩ := List.mem_filter.1 ht
    exact tokenBit_keyword (h t hmem) (by simpa using hs)
  rw [hmap, foldl_or_filter tokenBit isSystem, hsystem, systemMask, ← hkeyword]
  rfl

/-- The keywords are the tokens that `parse_store_keywords` keeps. -/
theorem filter_keywords (h : ∀ t ∈ tokens, IsFlag t) :
    tokens.filter (fun t => t.head? ≠ some '\\' && isKeyword t) = keywords tokens := by
  refine List.filter_congr fun t ht => ?_
  rcases h t ht with hkeyword | ⟨atom, rfl, -, -⟩
  · have hsystem := isSystem_of_keyword hkeyword
    rw [isSystem] at hsystem
    simp [isSystem, hkeyword]
  · simp [isSystem]

end Tokens

/-! ## The meaning of an item -/

section Meaning

variable {item : List Char} {gap : Nat} {tokens : List (List Char)} {op : StoreOp} {silent : Bool}

/-- Some token has `needle`, in any case. -/
def anyHas (needle : String) (tokens : List (List Char)) : Bool :=
  tokens.any fun t => contains (upper t) needle.toList

theorem anyHas_eq_false {needle : String} : anyHas needle tokens = false ↔ Without needle tokens := by
  simp [anyHas, Without]

/-- A substring that is looked for is found in the name or in a flag. -/
theorem contains_upper_storeText (h : upper item = itemName op silent) {needle : String}
    (hne : needle.toList ≠ []) (hblank : ' ' ∉ needle.toList) (hopen : '(' ∉ needle.toList)
    (hclose : ')' ∉ needle.toList) : contains (upper (storeText item gap tokens)) needle.toList =
      (contains (itemName op silent) needle.toList || anyHas needle tokens) := by
  rw [upper_storeText, contains_storeText hne hblank hopen hclose, h, List.any_map, anyHas]
  rfl

theorem contains_itemName (op : StoreOp) (silent : Bool) :
    contains (itemName op silent) "X-GM-LABELS".toList = false ∧
      contains (itemName op silent) "FLAGS".toList = true ∧
      contains (itemName op silent) ".SILENT".toList = silent ∧
      contains (itemName op silent) "+FLAGS".toList = decide (op = .add) ∧
      contains (itemName op silent) "-FLAGS".toList = decide (op = .remove) := by
  cases op <;> cases silent <;> decide

/-- What the code makes of an item with a list of flags. -/
theorem storeItem_eq (h : upper item = itemName op silent) (htokens : ∀ t ∈ tokens, IsFlag t) :
    storeItem (storeText item gap tokens) =
      if anyHas "X-GM-LABELS" tokens then .gmLabels
      else
        .flags
          (if decide (op = .add) || anyHas "+FLAGS" tokens then 1
            else if decide (op = .remove) || anyHas "-FLAGS" tokens then -1 else 0)
          (systemMask tokens ||| ((keywords tokens).map fun t => flagBit (upper t)).foldl (· ||| ·) 0)
          (silent || anyHas ".SILENT" tokens) (some (keywords tokens)) := by
  obtain ⟨hlabels, hflags, hsilent, hadd, hremove⟩ := contains_itemName op silent
  have hopen : '(' ∉ item := fun hmem => (item_chars h '(' hmem).2 rfl
  have htext : flagText (storeText item gap tokens) = [' '].intercalate tokens :=
    flagText_storeText hopen
  have hstart : flagStart (storeText item gap tokens) ≠ 0 := by
    rw [flagStart_storeText hopen]
    exact Nat.succ_ne_zero _
  have hwords := splitWhitespace_intercalate fun t ht => (htokens t ht).isWord
  unfold storeItem
  rw [contains_upper_storeText h (by decide) (by decide) (by decide) (by decide), hlabels,
    Bool.false_or]
  split
  · rfl
  · rename_i hno
    have hno : anyHas "X-GM-LABELS" tokens = false := by simpa using hno
    rw [isStoreFlagsItem_storeText h, parseStoreFlags, parseOp, parseStoreKeywords]
    dsimp only
    rw [contains_upper_storeText h (by decide) (by decide) (by decide) (by decide),
      contains_upper_storeText h (by decide) (by decide) (by decide) (by decide),
      contains_upper_storeText h (by decide) (by decide) (by decide) (by decide),
      contains_upper_storeText h (by decide) (by decide) (by decide) (by decide),
      contains_upper_storeText h (by decide) (by decide) (by decide) (by decide),
      hlabels, hflags, hsilent, hadd, hremove, hno, if_neg hstart, htext, hwords,
      foldl_tokenBit htokens, filter_keywords htokens]
    rfl

/-- The operation is that of the name where no flag says otherwise. -/
theorem op_eq_iff (added removed : Bool) :
    (if decide (op = .add) || added then (1 : Int)
      else if decide (op = .remove) || removed then -1 else 0) = op.code ↔
      (op = .add ∨ added = false) ∧ (op ≠ .replace ∨ removed = false) := by
  cases op <;> cases added <;> cases removed <;> decide

/-- **When STORE stores the flags it is given**: the item and its list are read as operation,
silence, system flags and keywords exactly where no flag can be taken for something else. -/
theorem store_reads_flags_iff (gap : Nat) (hitem : upper item = itemName op silent)
    (htokens : ∀ t ∈ tokens, IsFlag t) :
    storeItem (storeText item gap tokens) =
        .flags op.code (systemMask tokens) silent (some (keywords tokens)) ↔
      Unconfusable op silent tokens := by
  rw [storeItem_eq hitem htokens]
  have hmask := or_foldl_eq_iff (m := systemMask tokens)
    (l := (keywords tokens).map fun t => flagBit (upper t))
  rw [List.forall_mem_map] at hmask
  cases hlabels : anyHas "X-GM-LABELS" tokens with
  | true =>
      rw [if_pos rfl]
      refine iff_of_false (by simp) fun h => ?_
      rw [anyHas_eq_false.2 h.labels] at hlabels
      exact absurd hlabels (by decide)
  | false =>
      rw [if_neg (by decide), StoreItem.flags.injEq, op_eq_iff, hmask]
      simp only [and_true]
      constructor
      · rintro ⟨⟨hadd, hremove⟩, hnames, hsilent⟩
        refine ⟨anyHas_eq_false.1 hlabels, ?_, hadd.imp_right anyHas_eq_false.1,
          hremove.imp_right anyHas_eq_false.1, hnames⟩
        cases silent with
        | true => exact Or.inl rfl
        | false =>
            rw [Bool.false_or] at hsilent
            exact Or.inr (anyHas_eq_false.1 hsilent)
      · intro h
        refine ⟨⟨h.add.imp_right anyHas_eq_false.2, h.remove.imp_right anyHas_eq_false.2⟩, h.names, ?_⟩
        rcases h.silence with rfl | hwithout
        · rfl
        · rw [anyHas_eq_false.2 hwithout, Bool.or_false]

theorem store_reads_flags_iff_seen :
    storeItem "+flags.silent ($Label1 \\Seen)".toList = .flags 1 1 true (some ["$Label1".toList]) :=
  (@store_reads_flags_iff "+flags.silent".toList ["$Label1".toList, "\\Seen".toList] .add true 1
    (by decide) (by
      intro t ht
      simp only [List.mem_cons, List.not_mem_nil, or_false] at ht
      rcases ht with rfl | rfl
      · exact Or.inl (by decide)
      · exact Or.inr ⟨"Seen".toList, rfl, by decide, by decide⟩)).2
    ⟨by decide, by decide, by decide, by decide, by decide⟩

/-- **A keyword named after a system flag**: `FLAGS (deleted)` sets `\Deleted` on a message. -/
theorem keyword_deletes :
    IsFlag "deleted".toList ∧
      parseStoreFlags "FLAGS (deleted)".toList = (0, 8, false) ∧
      systemMask ["deleted".toList] = 0 ∧
      applyFlags 1 0 8 = 8 ∧ applyFlags 1 0 (systemMask ["deleted".toList]) = 0 :=
  ⟨Or.inl (by decide), by decide, by decide, by decide, by decide⟩

end Meaning

end AsterBridge.Imap.StoreFlags
