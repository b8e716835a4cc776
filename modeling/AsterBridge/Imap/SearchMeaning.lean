import AsterBridge.Imap.Search

/-!
# The meaning of SEARCH

A query is a tree of keys (`Key`). `search_eval` reads the tokens of a tree, and of nothing after
them, and returns the boolean value of the tree; `tokenize_search_criteria` makes these tokens from
the line that the tree is written as. Over arbitrary tokens, what is read does not depend on the
message (`searchEval_sameReading`), and reading goes on (`searchEval_length`).
-/

set_option autoImplicit false

namespace AsterBridge.Imap.Search

open AsterBridge.Lib AsterBridge.Lib.Text AsterBridge.Lib.Unicode

/-! ## Keys -/

/-- A sequence set, as `is_sequence_set` has it. -/
abbrev SetText := { set : List Char // isSequenceSet set = true }

/-- A search key. -/
inductive Key where
  | flag (key : FlagKey)
  | arg (key : ArgKey) (text : List Char)
  | header (field pattern : List Char)
  | uid (set : SetText)
  | sequence (set : SetText)
  | not (key : Key)
  | or (left right : Key)
  | list (keys : List Key)

mutual

/-- The depth that `search_eval` reaches in a key. -/
def Key.nesting : Key → Nat
  | .flag _ | .arg _ _ | .header _ _ | .uid _ | .sequence _ => 1
  | .not key => key.nesting + 1
  | .or left right => max left.nesting right.nesting + 1
  | .list keys => keysNesting keys + 1

def keysNesting : List Key → Nat
  | [] => 0
  | key :: keys => max key.nesting (keysNesting keys)

end

mutual

/-- The tokens of a key. -/
def Key.tokens : Key → List (List Char)
  | .flag key => [key.name.toList]
  | .arg key text => [key.name.toList, text]
  | .header field pattern => ["HEADER".toList, field, pattern]
  | .uid set => ["UID".toList, set.val]
  | .sequence set => [set.val]
  | .not key => "NOT".toList :: key.tokens
  | .or left right => "OR".toList :: (left.tokens ++ right.tokens)
  | .list keys => ['('] :: (keysTokens keys ++ [[')']])

def keysTokens : List Key → List (List Char)
  | [] => []
  | key :: keys => key.tokens ++ keysTokens keys

end

mutual

/-- The line of a key. -/
def Key.render : Key → List Char
  | .flag key => key.name.toList
  | .arg key text => key.name.toList ++ ' ' :: quoteSearchString text
  | .header field pattern =>
      "HEADER".toList ++ ' ' :: (quoteSearchString field ++ ' ' :: quoteSearchString pattern)
  | .uid set => "UID".toList ++ ' ' :: set.val
  | .sequence set => set.val
  | .not key => "NOT".toList ++ ' ' :: key.render
  | .or left right => "OR".toList ++ ' ' :: (left.render ++ ' ' :: right.render)
  | .list keys => '(' :: (renderKeys keys ++ [')'])

/-- Keys next to each other. -/
def renderKeys : List Key → List Char
  | [] => []
  | [key] => key.render
  | key :: keys => key.render ++ ' ' :: renderKeys keys

end

mutual

/-- The boolean value of a key. -/
def Key.holds (x : SearchCrates) (t : Target) : Key → Bool
  | .flag key => key.holds t.msg
  | .arg key text => key.holds x t (some text)
  | .header field pattern => headerHolds x t field pattern
  | .uid set => uidHolds t (some set.val)
  | .sequence set => seqHolds t set.val
  | .not key => !key.holds x t
  | .or left right => left.holds x t || right.holds x t
  | .list keys => keysHold x t keys

/-- Keys next to each other hold together. -/
def keysHold (x : SearchCrates) (t : Target) : List Key → Bool
  | [] => true
  | key :: keys => key.holds x t && keysHold x t keys

end

/-! ## Words of a line -/

/-- A character that neither ends a token nor starts a quoted string. -/
def PlainChar (c : Char) : Prop := c ≠ '"' ∧ c ≠ '(' ∧ c ≠ ')' ∧ isWhitespace c = false

instance (c : Char) : Decidable (PlainChar c) := inferInstanceAs (Decidable (_ ∧ _ ∧ _ ∧ _))

/-- A token ends here: at the end of the line, a blank or a closing parenthesis. -/
def Ends (rest : List Char) : Prop :=
  rest = [] ∨ (∃ cs, rest = ' ' :: cs) ∨ ∃ cs, rest = ')' :: cs

section Tokens

variable {w rest : List Char}

theorem ends_nil : Ends [] := Or.inl rfl

theorem ends_blank : Ends (' ' :: rest) := Or.inr (Or.inl ⟨rest, rfl⟩)

theorem ends_closing : Ends (')' :: rest) := Or.inr (Or.inr ⟨rest, rfl⟩)

theorem tokenizeFrom_plain (h : ∀ c ∈ w, PlainChar c) (current : List Char) :
    tokenizeFrom current .plain (w ++ rest) = tokenizeFrom (current ++ w) .plain rest := by
  induction w generalizing current with
  | nil => rw [List.nil_append, List.append_nil]
  | cons c w ih =>
      obtain ⟨hquote, hopen, hclose, hblank⟩ := h c List.mem_cons_self
      have hbracket : ¬(c = '(' ∨ c = ')') := fun h => h.elim hopen hclose
      have hstep : tokenizeFrom current .plain (c :: (w ++ rest)) =
          tokenizeFrom (current ++ [c]) .plain (w ++ rest) := by
        rw [tokenizeFrom, if_neg hquote, if_neg hbracket, if_neg (by rw [hblank]; decide)]
      rw [List.cons_append, hstep, ih fun d hd => h d (List.mem_cons_of_mem _ hd),
        List.append_assoc, List.singleton_append]

/-- A word is one token. -/
theorem tokenizeFrom_word (h : ∀ c ∈ w, PlainChar c) (hne : w ≠ []) (hrest : Ends rest) :
    tokenizeFrom [] .plain (w ++ rest) = w :: tokenizeFrom [] .plain rest := by
  have hword : lastWord w = [w] := if_neg hne
  rw [tokenizeFrom_plain h, List.nil_append]
  rcases hrest with rfl | ⟨cs, rfl⟩ | ⟨cs, rfl⟩
  · rw [tokenizeFrom, hword]
    rfl
  · rw [tokenizeFrom_blank, tokenizeFrom_skip, hword]
    rfl
  · rw [tokenizeFrom_closing, tokenizeFrom_closing, hword]
    rfl

/-- A word and the blank after it. -/
theorem tokenizeFrom_word_blank (h : ∀ c ∈ w, PlainChar c) (hne : w ≠ []) :
    tokenizeFrom [] .plain (w ++ ' ' :: rest) = w :: tokenizeFrom [] .plain rest := by
  rw [tokenizeFrom_word h hne ends_blank, tokenizeFrom_skip]

/-- Inside quotes, an escaped text is read up to the closing quote. -/
theorem tokenizeFrom_quoted (raw current : List Char) :
    tokenizeFrom current .quoted
        (raw.flatMap (fun c => if c = '"' ∨ c = '\\' then ['\\', c] else [c]) ++ '"' :: rest) =
      (current ++ raw) :: tokenizeFrom [] .plain rest := by
  induction raw generalizing current with
  | nil =>
      rw [List.flatMap_nil, List.nil_append, tokenizeFrom, if_pos rfl, List.append_nil]
  | cons c raw ih =>
      have hcurrent : current ++ c :: raw = (current ++ [c]) ++ raw := by
        rw [List.append_assoc, List.singleton_append]
      rw [List.flatMap_cons, List.append_assoc, hcurrent, ← ih]
      by_cases hspecial : c = '"' ∨ c = '\\'
      · -- the backslash takes the next character as it is
        rw [if_pos hspecial, List.cons_append, List.singleton_append, tokenizeFrom,
          if_neg (by decide), if_pos rfl, tokenizeFrom]
      · rw [if_neg hspecial, List.singleton_append, tokenizeFrom,
          if_neg fun h => hspecial (Or.inl h), if_neg fun h => hspecial (Or.inr h)]

/-- A quoted string is one token, whatever is in it. -/
theorem tokenizeFrom_quote (raw : List Char) :
    tokenizeFrom [] .plain (quoteSearchString raw ++ rest) =
      raw :: tokenizeFrom [] .plain rest := by
  rw [quoteSearchString, List.cons_append, List.append_assoc, List.singleton_append, tokenizeFrom,
    if_pos rfl, tokenizeFrom_quoted, List.nil_append]

end Tokens

/-! ## Names and sets -/

theorem Criterion.name_plain (c : Criterion) (hopen : c ≠ .opening) (hclose : c ≠ .closing) :
    (∀ d ∈ c.name.toList, PlainChar d) ∧ c.name.toList ≠ [] := by
  have hall : (c.name.toList.all fun d => decide (PlainChar d)) = true ∧ c.name.toList ≠ [] := by
    cases c with
    | opening => exact absurd rfl hopen
    | closing => exact absurd rfl hclose
    | flag key => cases key <;> decide
    | arg key => cases key <;> decide
    | not => decide
    | or => decide
    | header => decide
    | uid => decide
  refine ⟨?_, hall.2⟩
  intro d hd
  exact of_decide_eq_true (List.all_eq_true.1 hall.1 d hd)

/-- The name of a criterion names this criterion. -/
theorem criterionOf_name (c : Criterion) : criterionOf c.name.toList = some c := by
  cases c with
  | flag key => cases key <;> decide
  | arg key => cases key <;> decide
  | opening => decide
  | closing => decide
  | not => decide
  | or => decide
  | header => decide
  | uid => decide

/-- A character of a sequence set. -/
def SetChar (c : Char) : Prop := c = '*' ∨ c = ':' ∨ c = ',' ∨ c.isDigit = true

instance (c : Char) : Decidable (SetChar c) := inferInstanceAs (Decidable (_ ∨ _ ∨ _ ∨ _))

section Sets

variable {c : Char} {v set : List Char}

theorem SetChar.plain (h : SetChar c) : PlainChar c := by
  rcases h with rfl | rfl | rfl | h
  · decide
  · decide
  · decide
  · obtain ⟨hlow, hhigh⟩ : 48 ≤ c.toNat ∧ c.toNat ≤ 57 := by
      rw [Char.isDigit, Bool.and_eq_true, decide_eq_true_eq, decide_eq_true_eq] at h
      exact h
    have hnot : ∀ d : Char, (d.toNat < 48 ∨ 57 < d.toNat) → c ≠ d := by
      rintro d hd rfl
      omega
    refine ⟨hnot _ (by decide), hnot _ (by decide), hnot _ (by decide), ?_⟩
    unfold isWhitespace
    simp only [Bool.or_eq_false_iff, Bool.and_eq_false_iff, decide_eq_false_iff_not, beq_eq_false_iff_ne]
    omega

theorem setChar_of_isSetNumber (h : isSetNumber v = true) : ∀ c ∈ v, SetChar c := by
  intro c hc
  rw [isSetNumber, Bool.or_eq_true, decide_eq_true_eq, Bool.and_eq_true] at h
  rcases h with rfl | ⟨hdigits, -⟩
  · exact Or.inl (List.mem_singleton.1 hc)
  · exact Or.inr (Or.inr (Or.inr (List.all_eq_true.1 hdigits c hc)))

theorem setChar_of_isSequenceSet (h : isSequenceSet set = true) : ∀ c ∈ set, SetChar c := by
  intro c hc
  rw [isSequenceSet, Bool.and_eq_true, List.all_eq_true] at h
  by_cases hcomma : c = ','
  · exact Or.inr (Or.inr (Or.inl hcomma))
  · obtain ⟨part, hpart, hmem⟩ := exists_mem_splitOn hc hcomma
    have hparts := h.2 part hpart
    cases hsplit : splitOnce ':' part with
    | none =>
        rw [hsplit] at hparts
        exact setChar_of_isSetNumber hparts c hmem
    | some ab =>
        obtain ⟨a, b⟩ := ab
        rw [hsplit] at hparts
        obtain ⟨ha, hb⟩ := Bool.and_eq_true_iff.1 hparts
        rw [eq_of_splitOnce hsplit, List.mem_append, List.mem_cons] at hmem
        rcases hmem with hleft | hcolon | hright
        · exact setChar_of_isSetNumber ha c hleft
        · exact Or.inr (Or.inl hcolon)
        · exact setChar_of_isSetNumber hb c hright

theorem SetText.plain (set : SetText) : (∀ c ∈ set.val, PlainChar c) ∧ set.val ≠ [] := by
  refine ⟨fun c hc => (setChar_of_isSequenceSet set.property c hc).plain, ?_⟩
  rintro hnil
  exact absurd (hnil ▸ set.property) (by decide)

/-- No criterion has the name of a sequence set. -/
theorem SetText.criterionOf_eq_none (set : SetText) : criterionOf set.val = none := by
  have hnames : ∀ d ∈ criteria, (d.name.toList.any fun e => decide ¬SetChar e) = true := by
    intro d _
    cases d with
    | flag key => cases key <;> decide
    | arg key => cases key <;> decide
    | opening => decide
    | closing => decide
    | not => decide
    | or => decide
    | header => decide
    | uid => decide
  rw [criterionOf, List.find?_eq_none]
  intro d hd hname
  obtain ⟨e, he, hbad⟩ := List.any_eq_true.1 (hnames d hd)
  rw [of_decide_eq_true hname] at he
  exact of_decide_eq_true hbad (setChar_of_isSequenceSet set.property e he)

end Sets

/-! ## From the line to the tokens -/

theorem tokenizeFrom_name (c : Criterion) {rest : List Char} (hopen : c ≠ .opening)
    (hclose : c ≠ .closing) (hrest : Ends rest) :
    tokenizeFrom [] .plain (c.name.toList ++ rest) =
      c.name.toList :: tokenizeFrom [] .plain rest :=
  tokenizeFrom_word (c.name_plain hopen hclose).1 (c.name_plain hopen hclose).2 hrest

theorem tokenizeFrom_name_blank (c : Criterion) (hopen : c ≠ .opening) (hclose : c ≠ .closing)
    (rest : List Char) :
    tokenizeFrom [] .plain (c.name.toList ++ ' ' :: rest) =
      c.name.toList :: tokenizeFrom [] .plain rest :=
  tokenizeFrom_word_blank (c.name_plain hopen hclose).1 (c.name_plain hopen hclose).2

theorem Key.render_arg (key : ArgKey) (text : List Char) :
    (Key.arg key text).render = key.name.toList ++ ' ' :: quoteSearchString text := rfl

theorem Key.render_header (field pattern : List Char) :
    (Key.header field pattern).render =
      "HEADER".toList ++ ' ' :: (quoteSearchString field ++ ' ' :: quoteSearchString pattern) := rfl

theorem Key.render_uid (set : SetText) :
    (Key.uid set).render = "UID".toList ++ ' ' :: set.val := rfl

theorem Key.render_not (key : Key) :
    (Key.not key).render = "NOT".toList ++ ' ' :: key.render := rfl

theorem Key.render_or (left right : Key) :
    (Key.or left right).render =
      "OR".toList ++ ' ' :: (left.render ++ ' ' :: right.render) := rfl

theorem Key.render_list (keys : List Key) :
    (Key.list keys).render = '(' :: (renderKeys keys ++ [')']) := rfl

mutual

/-- The line of a key gives its tokens, in front of anything that ends a token. -/
theorem Key.tokenize_render : ∀ (key : Key) {rest : List Char}, Ends rest →
    tokenizeFrom [] .plain (key.render ++ rest) = key.tokens ++ tokenizeFrom [] .plain rest
  | .flag key, rest, hrest =>
      tokenizeFrom_name (.flag key) (nomatch ·) (nomatch ·) hrest
  | .arg key text, rest, hrest => by
      have hname := tokenizeFrom_name_blank (.arg key) (nomatch ·) (nomatch ·)
        (quoteSearchString text ++ rest)
      rw [Key.render_arg, List.append_assoc, List.cons_append]
      refine hname.trans ?_
      rw [tokenizeFrom_quote]
      rfl
  | .header field pattern, rest, hrest => by
      have hname := tokenizeFrom_name_blank .header (nomatch ·) (nomatch ·)
        (quoteSearchString field ++ ' ' :: (quoteSearchString pattern ++ rest))
      rw [Key.render_header, List.append_assoc, List.cons_append, List.append_assoc, List.cons_append]
      refine hname.trans ?_
      rw [tokenizeFrom_quote, tokenizeFrom_skip, tokenizeFrom_quote]
      rfl
  | .uid set, rest, hrest => by
      have hname := tokenizeFrom_name_blank .uid (nomatch ·) (nomatch ·) (set.val ++ rest)
      rw [Key.render_uid, List.append_assoc, List.cons_append]
      refine hname.trans ?_
      rw [tokenizeFrom_word set.plain.1 set.plain.2 hrest]
      rfl
  | .sequence set, rest, hrest => tokenizeFrom_word set.plain.1 set.plain.2 hrest
  | .not key, rest, hrest => by
      have hname := tokenizeFrom_name_blank .not (nomatch ·) (nomatch ·) (key.render ++ rest)
      rw [Key.render_not, List.append_assoc, List.cons_append]
      refine hname.trans ?_
      rw [key.tokenize_render hrest]
      rfl
  | .or left right, rest, hrest => by
      have hname := tokenizeFrom_name_blank .or (nomatch ·) (nomatch ·)
        (left.render ++ ' ' :: (right.render ++ rest))
      rw [Key.render_or, List.append_assoc, List.cons_append, List.append_assoc, List.cons_append]
      refine hname.trans ?_
      rw [left.tokenize_render ends_blank, tokenizeFrom_skip, right.tokenize_render hrest,
        Key.tokens, List.cons_append, List.append_assoc]
      rfl
  | .list keys, rest, hrest => by
      have hopening : tokenizeFrom [] .plain ('(' :: (renderKeys keys ++ ')' :: rest)) =
          ['('] :: tokenizeFrom [] .plain (renderKeys keys ++ ')' :: rest) := by
        rw [tokenizeFrom, if_neg (by decide), if_pos (Or.inl rfl)]
        rfl
      rw [Key.render_list, List.cons_append, List.append_assoc, List.singleton_append, hopening,
        tokenize_renderKeys keys ends_closing, tokenizeFrom_closing, Key.tokens, List.cons_append,
        List.append_assoc]
      rfl

theorem tokenize_renderKeys : ∀ (keys : List Key) {rest : List Char}, Ends rest →
    tokenizeFrom [] .plain (renderKeys keys ++ rest) =
      keysTokens keys ++ tokenizeFrom [] .plain rest
  | [], rest, hrest => rfl
  | [key], rest, hrest => by
      rw [renderKeys, keysTokens, keysTokens, List.append_nil]
      exact key.tokenize_render hrest
  | key :: second :: keys, rest, hrest => by
      rw [renderKeys, List.append_assoc, List.cons_append, key.tokenize_render ends_blank,
        tokenizeFrom_skip, tokenize_renderKeys (second :: keys) hrest, ← List.append_assoc,
        ← keysTokens]
      exact List.cons_ne_nil _ _

end

/-! ## From the tokens to the value -/

section Eval

variable {x : SearchCrates} {t : Target}

/-- The first token of a key is not a closing parenthesis. -/
theorem Key.tokens_cons (key : Key) : ∃ token rest, key.tokens = token :: rest ∧ token ≠ [')'] := by
  cases key with
  | flag key => exact ⟨_, _, rfl, by cases key <;> decide⟩
  | arg key text => exact ⟨_, _, rfl, by cases key <;> decide⟩
  | header field pattern => exact ⟨_, _, rfl, by decide⟩
  | uid set => exact ⟨_, _, rfl, by decide⟩
  | sequence set =>
      refine ⟨_, _, rfl, ?_⟩
      intro hclose
      exact absurd (hclose ▸ set.property) (by decide)
  | not key => exact ⟨_, _, rfl, by decide⟩
  | or left right => exact ⟨_, _, rfl, by decide⟩
  | list keys => exact ⟨_, _, rfl, by decide⟩

theorem Key.nesting_pos (key : Key) : 0 < key.nesting := by
  cases key <;> exact Nat.succ_pos _

mutual

/-- **One key.** `search_eval` takes the tokens of a key and nothing after them, and returns its
value. -/
theorem Key.searchEval_tokens : ∀ (key : Key) (levels : Nat) (rest : List (List Char))
    (u : Option (List Char)), key.nesting ≤ levels →
    searchEval x t levels ⟨key.tokens ++ rest, u⟩ = (⟨rest, u⟩, some (key.holds x t))
  | key, 0, rest, u, h => absurd key.nesting_pos (by omega)
  | .flag key, levels + 1, rest, u, h => by
      have hname : criterionOf key.name.toList = some (.flag key) := criterionOf_name (.flag key)
      simp only [Key.tokens, List.cons_append, searchEval, hname]
      rfl
  | .arg key text, levels + 1, rest, u, h => by
      have hname : criterionOf key.name.toList = some (.arg key) := criterionOf_name (.arg key)
      simp only [Key.tokens, List.cons_append, searchEval, hname]
      rfl
  | .header field pattern, levels + 1, rest, u, h => by
      have hname : criterionOf "HEADER".toList = some .header := criterionOf_name .header
      simp only [Key.tokens, List.cons_append, searchEval, hname]
      rfl
  | .uid set, levels + 1, rest, u, h => by
      have hname : criterionOf "UID".toList = some .uid := criterionOf_name .uid
      simp only [Key.tokens, List.cons_append, searchEval, hname]
      rfl
  | .sequence set, levels + 1, rest, u, h => by
      simp only [Key.tokens, List.cons_append, searchEval, set.criterionOf_eq_none,
        if_pos set.property]
      rfl
  | .not key, levels + 1, rest, u, h => by
      have hname : criterionOf "NOT".toList = some .not := criterionOf_name .not
      have hkey := key.searchEval_tokens levels rest u (by rw [Key.nesting] at h; omega)
      simp only [Key.tokens, List.cons_append, searchEval, hname, hkey]
      rfl
  | .or left right, levels + 1, rest, u, h => by
      have hname : criterionOf "OR".toList = some .or := criterionOf_name .or
      rw [Key.nesting] at h
      have hleft := left.searchEval_tokens levels (right.tokens ++ rest) u (by omega)
      have hright := right.searchEval_tokens levels rest u (by omega)
      simp only [Key.tokens, List.cons_append, List.append_assoc, searchEval, hname, hleft, hright,
        Evaluated.andThen_some]
      rfl
  | .list keys, levels + 1, rest, u, h => by
      have hname : criterionOf ['('] = some .opening := criterionOf_name .opening
      have hkeys := searchList_tokens keys levels rest u true
        ((keysTokens keys ++ [')'] :: rest).length + 1)
        (by rw [Key.nesting] at h; omega) (by simp only [List.length_append]; omega)
      simp only [Key.tokens, List.cons_append, List.append_assoc, List.nil_append, searchEval,
        hname, hkeys]
      rw [Bool.true_and]
      rfl

/-- The loop of a list goes through the keys and takes the closing parenthesis. -/
theorem searchList_tokens : ∀ (keys : List Key) (levels : Nat) (rest : List (List Char))
    (u : Option (List Char)) (result : Bool) (fuel : Nat), keysNesting keys ≤ levels →
    (keysTokens keys).length < fuel →
    searchList (searchEval x t levels) fuel result ⟨keysTokens keys ++ [')'] :: rest, u⟩ =
      (⟨rest, u⟩, some (result && keysHold x t keys))
  | keys, levels, rest, u, result, 0, h, hfuel => absurd hfuel (Nat.not_lt_zero _)
  | [], levels, rest, u, result, fuel + 1, h, hfuel => by
      rw [keysHold, Bool.and_true]
      rfl
  | key :: keys, levels, rest, u, result, fuel + 1, h, hfuel => by
      obtain ⟨token, tokens, htokens, hclose⟩ := key.tokens_cons
      rw [keysNesting] at h
      rw [keysTokens, List.length_append, htokens, List.length_cons] at hfuel
      have hkey := key.searchEval_tokens levels (keysTokens keys ++ [')'] :: rest) u (by omega)
      have hkeys := searchList_tokens keys levels rest u (result && key.holds x t) fuel (by omega)
        (by omega)
      rw [keysTokens, List.append_assoc, searchList]
      rw [htokens] at hkey ⊢
      simp only [List.cons_append] at hkey ⊢
      rw [if_neg hclose, hkey, Evaluated.andThen_some, hkeys, keysHold, Bool.and_assoc]

end

/-- The loop of `search_matches_noting` goes through the keys. -/
theorem searchAll_tokens (keys : List Key) (levels : Nat) (h : ∀ key ∈ keys, key.nesting ≤ levels)
    (u : Option (List Char)) (matched : Bool) (fuel : Nat) (hfuel : (keysTokens keys).length < fuel) :
    searchAll (searchEval x t levels) fuel matched ⟨keysTokens keys, u⟩ =
      (⟨[], u⟩, some (matched && keysHold x t keys)) := by
  induction keys generalizing matched fuel with
  | nil =>
      obtain ⟨fuel, rfl⟩ := Nat.exists_eq_add_one_of_ne_zero (Nat.ne_zero_of_lt hfuel)
      rw [keysHold, Bool.and_true]
      rfl
  | cons key keys ih =>
      obtain ⟨fuel, rfl⟩ := Nat.exists_eq_add_one_of_ne_zero (Nat.ne_zero_of_lt hfuel)
      obtain ⟨token, tokens, htokens, -⟩ := key.tokens_cons
      rw [keysTokens, List.length_append, htokens, List.length_cons] at hfuel
      have hkey := key.searchEval_tokens (x := x) (t := t) levels (keysTokens keys) u
        (h key List.mem_cons_self)
      have hkeys := ih (fun k hk => h k (List.mem_cons_of_mem _ hk)) (matched && key.holds x t) fuel
        (by omega)
      rw [keysTokens, searchAll]
      rw [htokens] at hkey ⊢
      simp only [List.cons_append] at hkey ⊢
      rw [hkey, Evaluated.andThen_some, hkeys, keysHold, Bool.and_assoc]

/-- **From the line to the value.** -/
theorem searchMatchesNoting_renderKeys (keys : List Key)
    (h : ∀ key ∈ keys, key.nesting ≤ maxSearchNesting) (u : Option (List Char)) :
    searchMatchesNoting x t (renderKeys keys) u = (some (keysHold x t keys), u) := by
  have htokens : tokenizeSearchCriteria (renderKeys keys) = keysTokens keys := by
    have hline := tokenize_renderKeys keys ends_nil
    rw [List.append_nil] at hline
    rw [tokenizeSearchCriteria, hline]
    exact List.append_nil _
  unfold searchMatchesNoting
  dsimp only
  rw [htokens, searchAll_tokens keys maxSearchNesting h u true _ (Nat.lt_succ_self _),
    Bool.true_and]

end Eval

/-! ## Arbitrary tokens -/

/-- Two results after the same reading: up to the same token, with the same criterion noted, and
both with a value or both without. -/
def SameOutcome (e e' : Evaluated) : Prop := e.1 = e'.1 ∧ e.2.isSome = e'.2.isSome

/-- Two evaluations read the same. -/
def SameReading (eval eval' : Reader → Evaluated) : Prop := ∀ r, SameOutcome (eval r) (eval' r)

/-- An evaluation takes tokens from the front, and at least one before it gives a value. -/
def Consumes (eval : Reader → Evaluated) : Prop :=
  ∀ r, (eval r).1.rest <:+ r.rest ∧
    (r.rest ≠ [] → (eval r).2.isSome = true → (eval r).1.rest.length < r.rest.length)

section Reading

variable {eval eval' : Reader → Evaluated}

/-- What follows a result reads the same when it reads the same from every reader. -/
theorem SameOutcome.andThen {e e' : Evaluated} (h : SameOutcome e e')
    {f f' : Reader → Bool → Evaluated} (hf : ∀ r v w, SameOutcome (f r v) (f' r w)) :
    SameOutcome (e.andThen f) (e'.andThen f') := by
  obtain ⟨r, v⟩ := e
  obtain ⟨r', w⟩ := e'
  obtain ⟨hreader, hsome⟩ := h
  obtain rfl : r = r' := hreader
  cases v with
  | none =>
      cases w with
      | none => exact ⟨rfl, rfl⟩
      | some w => cases hsome
  | some v =>
      cases w with
      | none => cases hsome
      | some w => exact hf r v w

/-- What follows a result takes its tokens from those that are left. -/
theorem suffix_andThen {e : Evaluated} {tokens : List (List Char)} (h : e.1.rest <:+ tokens)
    {f : Reader → Bool → Evaluated} (hf : ∀ r v, (f r v).1.rest <:+ r.rest) :
    (e.andThen f).1.rest <:+ tokens := by
  obtain ⟨r, v⟩ := e
  cases v with
  | none => exact h
  | some v => exact (hf r v).trans h

theorem searchList_same (h : SameReading eval eval') (fuel : Nat) (a b : Bool) (r : Reader) :
    SameOutcome (searchList eval fuel a r) (searchList eval' fuel b r) := by
  induction fuel generalizing a b r with
  | zero => exact ⟨rfl, rfl⟩
  | succ fuel ih =>
      unfold searchList
      cases hrest : r.rest with
      | nil => exact ⟨rfl, rfl⟩
      | cons token rest =>
          dsimp only
          by_cases hclose : token = [')']
          · rw [if_pos hclose, if_pos hclose]
            exact ⟨rfl, rfl⟩
          · rw [if_neg hclose, if_neg hclose]
            exact (h r).andThen fun r v w => ih _ _ r

theorem searchList_suffix (h : Consumes eval) (fuel : Nat) (a : Bool) (r : Reader) :
    (searchList eval fuel a r).1.rest <:+ r.rest := by
  induction fuel generalizing a r with
  | zero => exact List.suffix_refl _
  | succ fuel ih =>
      unfold searchList
      cases hrest : r.rest with
      | nil =>
          change r.rest <:+ []
          exact hrest ▸ List.suffix_refl _
      | cons token rest =>
          dsimp only
          by_cases hclose : token = [')']
          · rw [if_pos hclose]
            exact List.suffix_cons _ _
          · rw [if_neg hclose, ← hrest]
            exact suffix_andThen (h r).1 fun r v => ih _ r

/-- The loop of a list ends: it stops before its fuel does. -/
theorem searchList_fuel (h : Consumes eval) {fuel fuel' : Nat} {r : Reader}
    (hfuel : r.rest.length < fuel) (hfuel' : r.rest.length < fuel') (a : Bool) :
    searchList eval fuel a r = searchList eval fuel' a r := by
  induction fuel generalizing fuel' a r with
  | zero => exact absurd hfuel (Nat.not_lt_zero _)
  | succ fuel ih =>
      obtain ⟨fuel', rfl⟩ := Nat.exists_eq_add_one_of_ne_zero (Nat.ne_zero_of_lt hfuel')
      unfold searchList
      cases hrest : r.rest with
      | nil => rfl
      | cons token rest =>
          dsimp only
          by_cases hclose : token = [')']
          · rw [if_pos hclose, if_pos hclose]
          · rw [if_neg hclose, if_neg hclose]
            have hstep := (h r).2 (by rw [hrest]; exact List.cons_ne_nil _ _)
            cases heval : eval r with
            | mk r₁ v =>
                cases v with
                | none => rfl
                | some v =>
                    rw [heval] at hstep
                    have hlt : r₁.rest.length < r.rest.length := hstep rfl
                    exact ih (by omega) (by omega) _

/-- The loop over the criteria ends. -/
theorem searchAll_fuel (h : Consumes eval) {fuel fuel' : Nat} {r : Reader}
    (hfuel : r.rest.length < fuel) (hfuel' : r.rest.length < fuel') (a : Bool) :
    searchAll eval fuel a r = searchAll eval fuel' a r := by
  induction fuel generalizing fuel' a r with
  | zero => exact absurd hfuel (Nat.not_lt_zero _)
  | succ fuel ih =>
      obtain ⟨fuel', rfl⟩ := Nat.exists_eq_add_one_of_ne_zero (Nat.ne_zero_of_lt hfuel')
      unfold searchAll
      cases hrest : r.rest with
      | nil => rfl
      | cons token rest =>
          dsimp only
          have hstep := (h r).2 (by rw [hrest]; exact List.cons_ne_nil _ _)
          cases heval : eval r with
          | mk r₁ v =>
              cases v with
              | none => rfl
              | some v =>
                  rw [heval] at hstep
                  have hlt : r₁.rest.length < r.rest.length := hstep rfl
                  exact ih (by omega) (by omega) _

end Reading

section Messages

variable {x : SearchCrates} {t : Target}

/-- **What is read does not depend on the message.** -/
theorem searchEval_sameReading (t t' : Target) (levels : Nat) :
    SameReading (searchEval x t levels) (searchEval x t' levels) := by
  induction levels with
  | zero => exact fun _ => ⟨rfl, rfl⟩
  | succ levels ih =>
      intro r
      unfold searchEval
      cases r.rest with
      | nil => exact ⟨rfl, rfl⟩
      | cons token rest =>
          dsimp only
          cases criterionOf token with
          | none =>
              dsimp only
              split <;> exact ⟨rfl, rfl⟩
          | some criterion =>
              cases criterion with
              | opening => exact searchList_same ih _ _ _ _
              | closing => exact ⟨rfl, rfl⟩
              | flag key => exact ⟨rfl, rfl⟩
              | arg key => exact ⟨rfl, rfl⟩
              | header => exact ⟨rfl, rfl⟩
              | uid => exact ⟨rfl, rfl⟩
              | not => exact (ih _).andThen fun _ _ _ => ⟨rfl, rfl⟩
              | or => exact (ih _).andThen fun r _ _ => (ih r).andThen fun _ _ _ => ⟨rfl, rfl⟩

theorem Reader.next_suffix (r : Reader) : r.next.2.rest <:+ r.rest := List.tail_suffix _

/-- Behind its first token, `search_eval` takes tokens from the front. -/
theorem searchEval_suffix {levels : Nat} (ih : Consumes (searchEval x t levels)) {r : Reader}
    {token : List Char} {rest : List (List Char)} (hrest : r.rest = token :: rest) :
    (searchEval x t (levels + 1) r).1.rest <:+ rest := by
  unfold searchEval
  rw [hrest]
  dsimp only
  cases criterionOf token with
  | none =>
      dsimp only
      split <;> exact List.suffix_refl _
  | some criterion =>
      cases criterion with
      | opening => exact searchList_suffix ih _ _ _
      | closing => exact List.suffix_refl _
      | flag key => exact List.suffix_refl _
      | arg key => exact Reader.next_suffix _
      | header => exact (Reader.next_suffix _).trans (Reader.next_suffix _)
      | uid => exact Reader.next_suffix _
      | not => exact suffix_andThen (ih _).1 fun _ _ => List.suffix_refl _
      | or =>
          exact suffix_andThen (ih _).1 fun r _ =>
            suffix_andThen (ih r).1 fun _ _ => List.suffix_refl _

theorem searchEval_consumes (levels : Nat) : Consumes (searchEval x t levels) := by
  induction levels with
  | zero => exact fun r => ⟨List.suffix_refl _, fun _ hsome => nomatch hsome⟩
  | succ levels ih =>
      intro r
      cases hrest : r.rest with
      | nil =>
          have heval : searchEval x t (levels + 1) r = (r, some true) := by
            rw [searchEval, hrest]
          rw [heval]
          exact ⟨hrest ▸ List.suffix_refl _, fun hne => absurd rfl hne⟩
      | cons token rest =>
          have hsuffix := searchEval_suffix ih hrest
          refine ⟨hsuffix.trans (List.suffix_cons _ _), fun _ _ => ?_⟩
          exact Nat.lt_succ_of_le hsuffix.length_le

/-- At a depth that is allowed, `search_eval` advances, whether it gives a value or not. -/
theorem searchEval_length {levels : Nat} {r : Reader} (hrest : r.rest ≠ []) :
    (searchEval x t (levels + 1) r).1.rest.length < r.rest.length := by
  obtain ⟨token, rest, hcons⟩ := List.exists_cons_of_ne_nil hrest
  have hsuffix := searchEval_suffix (searchEval_consumes (x := x) (t := t) levels) hcons
  rw [hcons]
  exact Nat.lt_succ_of_le hsuffix.length_le

end Messages

/-! ## Queries and tokens -/

/-- **SEARCH is the boolean meaning of the query.** A line of keys, nested no deeper than
`MAX_SEARCH_NESTING`, is evaluated to the value of its trees. Over any tokens, `search_eval` ends
(a loop stops before its fuel), goes forward, by at least one token where there is one and the depth
is allowed, and reads the same whatever the message. -/
theorem search_means_the_query (x : SearchCrates) :
    (∀ (t : Target) (keys : List Key) (u : Option (List Char)),
      (∀ key ∈ keys, key.nesting ≤ maxSearchNesting) →
      searchMatchesNoting x t (renderKeys keys) u = (some (keysHold x t keys), u)) ∧
    ∀ (t : Target) (levels : Nat) (r : Reader),
      (∀ fuel result, r.rest.length < fuel →
        searchList (searchEval x t levels) fuel result r =
          searchList (searchEval x t levels) (r.rest.length + 1) result r) ∧
      (searchEval x t levels r).1.rest <:+ r.rest ∧
      (r.rest ≠ [] → levels ≠ 0 →
        (searchEval x t levels r).1.rest.length < r.rest.length) ∧
      ∀ t', SameOutcome (searchEval x t levels r) (searchEval x t' levels r) := by
  constructor
  · intro t keys u h
    exact searchMatchesNoting_renderKeys keys h u
  · intro t levels r
    have hconsumes := searchEval_consumes (x := x) (t := t) levels
    refine ⟨?_, (hconsumes r).1, ?_, fun t' => searchEval_sameReading t t' levels r⟩
    · intro fuel result hfuel
      exact searchList_fuel hconsumes hfuel (Nat.lt_succ_self _) result
    · intro hrest hlevels
      obtain ⟨levels, rfl⟩ := Nat.exists_eq_add_one_of_ne_zero hlevels
      exact searchEval_length hrest

/-- No JSON and no dates. -/
def noCrates : SearchCrates where
  fromStr _ := none
  cases := CaseMaps.ascii
  rfc3339 _ := none
  rfc2822 _ := none
  fromFormat _ _ := none

/-- A seen message of Ann's, the only one of its mailbox. -/
def fromAnn : Target where
  msg := ⟨none, some "ann".toList, none, none, 5, 1, none, none, 7⟩
  position := ⟨1, 1, 7⟩
  keywords := []

/-- `OR UNSEEN (FROM ")")` says what it says, with a parenthesis in the string. -/
theorem search_means_the_query_parenthesis :
    searchMatchesNoting noCrates fromAnn "OR UNSEEN (FROM \")\")".toList none =
      (some false, none) := by
  have hline : renderKeys [.or (.flag .unseen) (.list [.arg .sender ")".toList])] =
      "OR UNSEEN (FROM \")\")".toList := by decide +kernel
  have hvalue : keysHold noCrates fromAnn
      [.or (.flag .unseen) (.list [.arg .sender ")".toList])] = false := by decide +kernel
  rw [← hline, ← hvalue]
  refine (search_means_the_query noCrates).1 fromAnn _ none ?_
  intro key hkey
  rw [List.mem_singleton.1 hkey]
  decide

/-- Without a token there is nothing to advance over. -/
theorem no_token_no_advance :
    ¬∀ r : Reader,
      (searchEval noCrates fromAnn maxSearchNesting r).1.rest.length < r.rest.length := by
  intro h
  exact absurd (h ⟨[], none⟩) (Nat.not_lt_zero _)

end AsterBridge.Imap.Search
