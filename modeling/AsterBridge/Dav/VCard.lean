import AsterBridge.Lib.Json
import AsterBridge.Lib.Lines
import AsterBridge.Lib.Unicode

/-!
# vCard text

The text functions of `dav/vcard.rs`: escaping, folding, parameters and properties. What
`push_property` writes, `parse_properties` reads back, whatever the value and the parameters
hold (`parseLine_propertyLine`, `unfoldFrom_push`).
-/

set_option autoImplicit false

namespace AsterBridge.Dav

open AsterBridge.Lib AsterBridge.Lib.Text AsterBridge.Lib.Lines AsterBridge.Lib.Unicode

/-! ## Values -/

/-- The arms of `escape_value`. -/
def escapeChar (c : Char) : List Char :=
  match c with
  | '\\' => ['\\', '\\']
  | ',' => ['\\', ',']
  | ';' => ['\\', ';']
  | '\n' => ['\\', 'n']
  | '\r' => []
  | c => [c]

/-- `escape_value` -/
def escapeValue (value : List Char) : List Char := value.flatMap escapeChar

/-- `unescape_value` -/
def unescapeValue : List Char → List Char
  | [] => []
  | ['\\'] => ['\\']
  | '\\' :: c :: rest => (if c = 'n' ∨ c = 'N' then '\n' else c) :: unescapeValue rest
  | c :: rest => c :: unescapeValue rest

/-- The loop of `split_unescaped`. -/
def splitLoop (separator : Char) (current : List Char) (escaped : Bool) :
    List Char → List (List Char)
  | [] => [if escaped then current ++ ['\\'] else current]
  | c :: rest =>
      if escaped then splitLoop separator (current ++ ['\\', c]) false rest
      else if c = '\\' then splitLoop separator current true rest
      else if c = separator then current :: splitLoop separator [] false rest
      else splitLoop separator (current ++ [c]) false rest

/-- `split_unescaped` -/
def splitUnescaped (value : List Char) (separator : Char) : List (List Char) :=
  splitLoop separator [] false value

/-! ## Lines -/

/-- `FOLD_WIDTH` -/
def foldWidth : Nat := 73

/-- The loop of `fold_line`. -/
def foldLoop (width : Nat) (first : Bool) : List Char → List Char
  | [] => crlf
  | c :: rest =>
      if width + c.utf8Size > foldWidth ∧ !first then
        crlf ++ ' ' :: c :: foldLoop (1 + c.utf8Size) false rest
      else c :: foldLoop (width + c.utf8Size) false rest

/-- `fold_line` -/
def foldLine (line out : List Char) : List Char := out ++ foldLoop 0 true line

/-- `strip_suffix` of a CR. -/
def stripCr (raw : List Char) : List Char :=
  if raw.getLast? = some '\r' then raw.dropLast else raw

/-- The step of `unfold`. -/
def unfoldStep (lines : List (List Char)) (raw : List Char) : List (List Char) :=
  let line := stripCr raw
  match lines.getLast? with
  | some last =>
      if line.head? = some ' ' ∨ line.head? = some '\t' then
        lines.dropLast ++ [last ++ line.drop 1]
      else lines ++ [line]
  | none => lines ++ [line]

/-- `unfold` -/
def unfold (text : List Char) : List (List Char) := (text.splitOn '\n').foldl unfoldStep []

/-! ## Properties -/

/-- `VCardProperty` -/
structure VCardProperty where
  name : List Char
  params : List (List Char × List Char)
  value : List Char
deriving DecidableEq

/-- `trim_matches` of the quote. -/
def trimQuotes (s : List Char) : List Char := (s.dropWhile (· == '"')).rdropWhile (· == '"')

/-- `types` -/
def VCardProperty.types (T : CaseMaps) (p : VCardProperty) : List (List Char) :=
  (((p.params.filter fun kv => eqIgnoreAsciiCase kv.1 "TYPE".toList).flatMap
    fun kv => kv.2.splitOn ',').map fun v => T.toLowercase (trimQuotes (trim v))).filter (· ≠ [])

/-- The first loop of `parse_params`. -/
def segmentLoop (current : List Char) (inQuotes : Bool) : List Char → List (List Char)
  | [] => [current]
  | c :: rest =>
      if c = '"' then segmentLoop (current ++ [c]) (!inQuotes) rest
      else if c = ';' ∧ !inQuotes then current :: segmentLoop [] inQuotes rest
      else segmentLoop (current ++ [c]) inQuotes rest

/-- The second loop of `parse_params`. -/
def parseSegment (T : CaseMaps) (segment : List Char) : List Char × List Char :=
  match splitOnce '=' segment with
  | some (key, value) => (T.toUppercase (trim key), trimQuotes (trim value))
  | none => ("TYPE".toList, trim segment)

/-- `parse_params` -/
def parseParams (T : CaseMaps) (raw : List Char) : List (List Char × List Char) :=
  ((segmentLoop [] false raw).filter (· ≠ [])).map (parseSegment T)

/-- `find_value_colon`, with the text before the colon and the text after it. -/
def splitAtColon (inQuotes : Bool) : List Char → Option (List Char × List Char)
  | [] => none
  | c :: rest =>
      if c = ':' ∧ !inQuotes then some ([], rest)
      else (splitAtColon (if c = '"' then !inQuotes else inQuotes) rest).map
        fun parts => (c :: parts.1, parts.2)

/-- The part of a name after the last dot. -/
def afterDot (name : List Char) : List Char :=
  match rfind '.' name with
  | some pos => name.drop (pos + 1)
  | none => name

/-- The loop of `parse_properties`. -/
def parseLine (T : CaseMaps) (line : List Char) : Option VCardProperty :=
  if trim line = [] then none
  else
    (splitAtColon false line).map fun (head, value) =>
      let rawName := head.takeWhile (· ≠ ';')
      let params := match splitOnce ';' head with
        | some (_, raw) => parseParams T raw
        | none => []
      { name := T.toUppercase (trim (afterDot rawName)), params, value }

/-- `parse_properties` -/
def parseProperties (T : CaseMaps) (text : List Char) : List VCardProperty :=
  (unfold text).filterMap (parseLine T)

/-- `extract_uid` -/
def extractUid (T : CaseMaps) (text : List Char) : Option (List Char) :=
  (((parseProperties T text).find? fun p => p.name = "UID".toList).map
    fun p => trim (unescapeValue p.value)).filter (· ≠ [])

/-! ## Writing -/

/-- The items of `param_list_value`. -/
def paramItem (item : List Char) : Option (List Char) :=
  let cleaned := trim (item.filter fun c => !isControl c && c != '"')
  if cleaned = [] then none
  else if ';' ∈ cleaned ∨ ':' ∈ cleaned then some ('"' :: cleaned ++ ['"'])
  else some cleaned

/-- `param_list_value` -/
def paramListValue (raw : List Char) : List Char :=
  [','].intercalate ((raw.splitOn ',').filterMap paramItem)

/-- The parameter that `push_property` adds to the line. -/
def paramText (param : List Char × List Char) : List Char :=
  let safeValue := paramListValue param.2
  if safeValue = [] then [] else ';' :: param.1 ++ '=' :: safeValue

/-- `push_property` -/
def pushProperty (out name : List Char) (params : List (List Char × List Char))
    (value : List Char) : List Char :=
  if value = [] then out
  else foldLine (name ++ params.flatMap paramText ++ ':' :: value) out

/-! ## Escaping -/

/-- `escape_value` drops CR. -/
def withoutCr (s : List Char) : List Char := s.filter (· ≠ '\r')

section Escaping

variable {c separator : Char} {s : List Char}

/-- What `escape_value` makes of a character: nothing, an escape, or the character. -/
theorem escapeChar_cases (c : Char) : c = '\r' ∧ escapeChar c = [] ∨
    (∃ d, escapeChar c = ['\\', d] ∧ (if d = 'n' ∨ d = 'N' then '\n' else d) = c ∧ c ≠ '\r') ∨
    (escapeChar c = [c] ∧ c ≠ '\r' ∧ c ≠ '\n' ∧ c ≠ '\\' ∧ c ≠ ',' ∧ c ≠ ';') := by
  unfold escapeChar
  split
  · exact Or.inr (Or.inl ⟨'\\', rfl, by decide, by decide⟩)
  · exact Or.inr (Or.inl ⟨',', rfl, by decide, by decide⟩)
  · exact Or.inr (Or.inl ⟨';', rfl, by decide, by decide⟩)
  · exact Or.inr (Or.inl ⟨'n', rfl, by decide, by decide⟩)
  · exact Or.inl ⟨rfl, rfl⟩
  · rename_i hslash hcomma hsemicolon hlf hcr
    exact Or.inr (Or.inr ⟨rfl, hcr, hlf, hslash, hcomma, hsemicolon⟩)

theorem escapeValue_cons (c : Char) (s : List Char) :
    escapeValue (c :: s) = escapeChar c ++ escapeValue s := rfl

theorem unescapeValue_escape (d : Char) (rest : List Char) : unescapeValue ('\\' :: d :: rest) =
    (if d = 'n' ∨ d = 'N' then '\n' else d) :: unescapeValue rest := by
  rw [unescapeValue]

theorem unescapeValue_cons (hc : c ≠ '\\') (rest : List Char) :
    unescapeValue (c :: rest) = c :: unescapeValue rest := by
  rw [unescapeValue]
  · exact fun hslash _ => hc hslash
  · exact fun _ _ hslash _ => hc hslash

/-- **Unescaping undoes escaping**, but for the CRs. -/
theorem unescapeValue_escapeValue (s : List Char) :
    unescapeValue (escapeValue s) = withoutCr s := by
  induction s with
  | nil => rfl
  | cons c s ih =>
      rw [escapeValue_cons]
      rcases escapeChar_cases c with
        ⟨rfl, hnone⟩ | ⟨d, hescape, hd, hcr⟩ | ⟨hsame, hcr, _, hslash, _⟩
      · rw [hnone, List.nil_append, ih]
        rfl
      · rw [hescape, List.cons_append, List.singleton_append, unescapeValue_escape, hd, ih,
          withoutCr, withoutCr, List.filter_cons_of_pos (by simpa using hcr)]
      · rw [hsame, List.singleton_append, unescapeValue_cons hslash, ih, withoutCr, withoutCr,
          List.filter_cons_of_pos (by simpa using hcr)]

/-- Escaped text has no line break. -/
theorem noBreak_escapeValue (s : List Char) : NoBreak (escapeValue s) := by
  apply NoBreak.flatMap
  intro c _
  rcases escapeChar_cases c with ⟨_, hnone⟩ | ⟨d, hescape, hd, hcr⟩ | ⟨hsame, hcr, hlf, _⟩
  · rw [hnone]
    exact noBreak_nil
  · rw [hescape]
    apply NoBreak.cons (by decide)
    apply NoBreak.cons _ noBreak_nil
    constructor
    · rintro rfl
      exact hcr (hd.symm.trans (if_neg (by decide)))
    · rintro rfl
      have hlf : escapeChar c = ['\\', 'n'] := by
        rw [← hd, if_neg (by decide)]
        rfl
      rw [hescape] at hlf
      exact absurd hlf (by decide)
  · rw [hsame]
    exact noBreak_nil.cons ⟨hcr, hlf⟩

/-- A separator that `escape_value` escapes does not end a part. -/
theorem splitLoop_escapeValue (h : separator = ',' ∨ separator = ';') (current s rest : List Char) :
    splitLoop separator current false (escapeValue s ++ rest) =
      splitLoop separator (current ++ escapeValue s) false rest := by
  induction s generalizing current with
  | nil => rw [escapeValue, List.flatMap_nil, List.nil_append, List.append_nil]
  | cons c s ih =>
      rw [escapeValue_cons, List.append_assoc]
      rcases escapeChar_cases c with
        ⟨_, hnone⟩ | ⟨d, hescape, _⟩ | ⟨hsame, _, _, hslash, hcomma, hsemi⟩
      · rw [hnone, List.nil_append, List.nil_append, ih]
      · rw [hescape, List.cons_append, List.singleton_append, splitLoop, if_neg (by decide),
          if_pos rfl, splitLoop, if_pos rfl, ih, List.append_assoc]
      · have hseparator : c ≠ separator := by
          rcases h with rfl | rfl
          · exact hcomma
          · exact hsemi
        rw [hsame, List.singleton_append, splitLoop, if_neg (by decide), if_neg hslash,
          if_neg hseparator, ih, List.append_assoc]

/-- **A structured value splits into the fields that it was joined from.** -/
theorem splitUnescaped_join (h : separator = ',' ∨ separator = ';') {fields : List (List Char)}
    (hne : fields ≠ []) :
    splitUnescaped ([separator].intercalate (fields.map escapeValue)) separator =
      fields.map escapeValue := by
  have hloop : ∀ (fields : List (List Char)) (s : List Char),
      splitLoop separator [] false ([separator].intercalate ((s :: fields).map escapeValue)) =
        (s :: fields).map escapeValue := by
    intro fields
    induction fields with
    | nil =>
        intro s
        have hs := splitLoop_escapeValue h [] s []
        rw [List.append_nil, List.nil_append] at hs
        rw [List.map_singleton, List.intercalate_singleton, hs, splitLoop, if_neg (by decide)]
    | cons t fields ih =>
        intro s
        have hslash : separator ≠ '\\' := by
          rcases h with rfl | rfl
          · decide
          · decide
        rw [List.map_cons, List.map_cons, List.intercalate_cons_cons, List.append_assoc,
          splitLoop_escapeValue h, List.nil_append, List.singleton_append, splitLoop,
          if_neg (by decide), if_neg hslash, if_pos rfl, ← List.map_cons, ih]
  cases fields with
  | nil => exact absurd rfl hne
  | cons s fields => exact hloop fields s

end Escaping

/-! ## Folding -/

/-- `unfold` after some lines. -/
def unfoldFrom (lines : List (List Char)) (text : List Char) : List (List Char) :=
  (text.splitOn '\n').foldl unfoldStep lines

section Folding

variable {line rest : List Char} {lines : List (List Char)}

theorem stripCr_append (line : List Char) : stripCr (line ++ ['\r']) = line := by
  rw [stripCr, if_pos List.getLast?_concat, List.dropLast_concat]

theorem stripCr_of_noBreak (h : NoBreak line) : stripCr line = line := by
  rw [stripCr, if_neg]
  intro hlast
  exact (h _ (List.mem_of_getLast? hlast)).1 rfl

/-- A line that ends in CRLF is one step. -/
theorem unfoldFrom_line (h : NoBreak line) (rest : List Char) :
    unfoldFrom lines (line ++ crlf ++ rest) = unfoldFrom (unfoldStep lines line) rest := by
  have hlf : '\n' ∉ line ++ ['\r'] := by
    intro hmem
    rcases List.mem_append.1 hmem with hmem | hmem
    · exact (h _ hmem).2 rfl
    · exact absurd hmem (by decide)
  have htext : line ++ crlf ++ rest = line ++ ['\r'] ++ '\n' :: rest := by
    rw [crlf, List.append_assoc, List.append_assoc]
    rfl
  have hstep : unfoldStep lines (line ++ ['\r']) = unfoldStep lines line := by
    rw [unfoldStep, unfoldStep, stripCr_append, stripCr_of_noBreak h]
  rw [unfoldFrom, htext, List.splitOn_append_cons_self_of_not_mem hlf, List.foldl_cons, hstep,
    unfoldFrom]

variable (lines) in
/-- A line is put after the last one, without its space, or on its own. -/
theorem unfoldStep_cases (h : NoBreak line) :
    (∃ before last, lines = before ++ [last] ∧ (line.head? = some ' ' ∨ line.head? = some '\t') ∧
      unfoldStep lines line = before ++ [last ++ line.drop 1]) ∨
    (lines = [] ∨ ¬(line.head? = some ' ' ∨ line.head? = some '\t')) ∧
      unfoldStep lines line = lines ++ [line] := by
  rw [unfoldStep, stripCr_of_noBreak h]
  rcases List.eq_nil_or_concat lines with rfl | ⟨before, last, rfl⟩
  · exact Or.inr ⟨Or.inl rfl, rfl⟩
  · rw [List.concat_eq_append, List.getLast?_concat]
    dsimp only
    by_cases hhead : line.head? = some ' ' ∨ line.head? = some '\t'
    · rw [if_pos hhead, List.dropLast_concat]
      exact Or.inl ⟨before, last, rfl, hhead, rfl⟩
    · rw [if_neg hhead]
      exact Or.inr ⟨Or.inr hhead, rfl⟩

theorem unfoldStep_space (before : List (List Char)) (last : List Char) (h : NoBreak rest) :
    unfoldStep (before ++ [last]) (' ' :: rest) = before ++ [last ++ rest] := by
  have hspace : NoBreak (' ' :: rest) := h.cons (by decide)
  rcases unfoldStep_cases (before ++ [last]) hspace with
    ⟨before', last', hlines, _, hstep⟩ | ⟨hnone | hhead, _⟩
  · obtain ⟨rfl, hlast⟩ := List.append_inj' hlines rfl
    obtain rfl := List.singleton_inj.1 hlast
    exact hstep
  · exact absurd hnone (by simp)
  · exact absurd (Or.inl rfl) hhead

/-- A continuation is put after the line that it continues. -/
theorem unfoldStep_continue {start : List Char} (hstart : NoBreak start) (hne : start ≠ [])
    (hrest : NoBreak rest) :
    unfoldStep (unfoldStep lines start) (' ' :: rest) = unfoldStep lines (start ++ rest) := by
  have hhead : (start ++ rest).head? = start.head? := List.head?_append_of_ne_nil _ hne
  rcases unfoldStep_cases lines hstart with
    ⟨before, last, rfl, hspace, hstep⟩ | ⟨hnew, hstep⟩
  · rcases unfoldStep_cases (before ++ [last]) (hstart.append hrest) with
      ⟨before', last', hlines, _, hstep'⟩ | ⟨hnone | hother, _⟩
    · obtain ⟨rfl, hlast⟩ := List.append_inj' hlines rfl
      obtain rfl := List.singleton_inj.1 hlast
      rw [hstep, hstep', unfoldStep_space _ _ hrest, List.drop_append_of_le_length,
        List.append_assoc]
      exact List.length_pos_iff.2 hne
    · exact absurd hnone (by simp)
    · rw [hhead] at hother
      exact absurd hspace hother
  · rw [hstep, unfoldStep_space _ _ hrest]
    rcases unfoldStep_cases lines (hstart.append hrest) with
      ⟨before, last, rfl, hspace, _⟩ | ⟨_, hstep'⟩
    · rw [hhead] at hspace
      rcases hnew with hnone | hother
      · exact absurd hnone (by simp)
      · exact absurd hspace hother
    · exact hstep'.symm

variable (lines) in
/-- The loop of `fold_line` is undone from any point of the line. -/
theorem unfoldFrom_foldLoop {start : List Char} (hstart : NoBreak start) (hne : start ≠ [])
    (hline : NoBreak line) (width : Nat) (first : Bool) (rest : List Char) :
    unfoldFrom lines (start ++ (foldLoop width first line ++ rest)) =
      unfoldFrom (unfoldStep lines (start ++ line)) rest := by
  induction line generalizing lines start width first with
  | nil =>
      rw [foldLoop, ← List.append_assoc, unfoldFrom_line hstart, List.append_nil]
  | cons c line ih =>
      have hc := hline c List.mem_cons_self
      rw [foldLoop]
      split
      · have hspace : NoBreak [' ', c] := (noBreak_nil.cons hc).cons (by decide)
        have hfold := ih (unfoldStep lines start) hspace (by simp) hline.tail
          (1 + c.utf8Size) false
        rw [List.append_assoc, ← List.append_assoc, unfoldFrom_line hstart]
        rw [List.cons_append, List.singleton_append] at hfold
        rw [List.cons_append, List.cons_append, hfold, List.cons_append,
          unfoldStep_continue hstart hne ?_]
        · rfl
        · exact hline
      · have hfold := ih lines (hstart.append (noBreak_nil.cons hc)) (by simp) hline.tail
          (width + c.utf8Size) false
        rw [List.append_assoc, List.append_assoc, List.singleton_append] at hfold
        exact hfold

/-- **Unfolding undoes folding** of a line that does not begin as a continuation. -/
theorem unfoldFrom_foldLine (hline : NoBreak line) (hne : line ≠ [])
    (hhead : line.head? ≠ some ' ' ∧ line.head? ≠ some '\t') (rest : List Char) :
    unfoldFrom lines (foldLine line [] ++ rest) = unfoldFrom (lines ++ [line]) rest := by
  cases line with
  | nil => exact absurd rfl hne
  | cons c line =>
      have hc := hline c List.mem_cons_self
      have hfirst : foldLoop 0 true (c :: line) = c :: foldLoop (0 + c.utf8Size) false line := by
        rw [foldLoop, if_neg (by simp)]
      have hstep : unfoldStep lines (c :: line) = lines ++ [c :: line] := by
        rcases unfoldStep_cases lines hline with ⟨_, _, _, hspace | htab, _⟩ | ⟨_, hstep⟩
        · exact absurd hspace hhead.1
        · exact absurd htab hhead.2
        · exact hstep
      have hfold := unfoldFrom_foldLoop lines (noBreak_nil.cons hc) (by simp) hline.tail
        (0 + c.utf8Size) false rest
      rw [foldLine, List.nil_append, hfirst, List.cons_append]
      rw [List.singleton_append, List.singleton_append, hstep] at hfold
      exact hfold

end Folding

/-! ## Names -/

/-- A character of the property names: an ASCII capital or a dash. -/
def nameChar (c : Char) : Bool := c.toNat < 0x80 && (c.isUpper || c == '-')

/-- A name as the source writes them. -/
def IsName (name : List Char) : Prop := name ≠ [] ∧ name.all nameChar = true

instance (name : List Char) : Decidable (IsName name) := instDecidableAnd

section Names

variable {c : Char} {name rest : List Char}

/-- What a character of a name is not. -/
theorem nameChar_plain (h : nameChar c = true) :
    c ∉ (['"', ':', ';', '=', '.', '\r', '\n', ' ', '\t'] : List Char) ∧
      isWhitespace c = false ∧ c.toUpper = c := by
  have hascii : c.toNat < 0x80 := by
    simp only [nameChar, Bool.and_eq_true, decide_eq_true_eq] at h
    exact h.1
  exact ascii_forall (P := fun c => nameChar c = true →
    c ∉ (['"', ':', ';', '=', '.', '\r', '\n', ' ', '\t'] : List Char) ∧
      isWhitespace c = false ∧ c.toUpper = c) (by decide +kernel) hascii h

theorem IsName.char (h : IsName name) (hc : c ∈ name) : nameChar c = true :=
  List.all_eq_true.1 h.2 c hc

theorem IsName.not_mem (h : IsName name)
    (hc : c ∈ (['"', ':', ';', '=', '.', '\r', '\n', ' ', '\t'] : List Char)) : c ∉ name :=
  fun hmem => (nameChar_plain (h.char hmem)).1 hc

theorem IsName.noBreak (h : IsName name) : NoBreak name := by
  intro c hc
  constructor
  · rintro rfl
    exact h.not_mem (by decide) hc
  · rintro rfl
    exact h.not_mem (by decide) hc

/-- A name begins with a character that is not white space. -/
theorem IsName.head (h : IsName name) :
    ∃ c t, name = c :: t ∧ isWhitespace c = false ∧ c ≠ ' ' ∧ c ≠ '\t' := by
  cases name with
  | nil => exact absurd rfl h.1
  | cons c t =>
      have hmem : c ∈ c :: t := List.mem_cons_self
      refine ⟨c, t, rfl, (nameChar_plain (h.char hmem)).2.1, ?_, ?_⟩
      · rintro rfl
        exact h.not_mem (by decide) hmem
      · rintro rfl
        exact h.not_mem (by decide) hmem

theorem IsName.trim (h : IsName name) : trim name = name := by
  have hwhite : ∀ c ∈ name, isWhitespace c = false :=
    fun c hc => (nameChar_plain (h.char hc)).2.1
  apply trim_of_ends
  · exact ⟨name.head h.1, List.head?_eq_some_head h.1, hwhite _ (List.head_mem h.1)⟩
  · exact ⟨name.getLast h.1, List.getLast?_eq_some_getLast h.1, hwhite _ (List.getLast_mem h.1)⟩

theorem IsName.toUppercase (h : IsName name) (T : CaseMaps) : T.toUppercase name = name := by
  rw [T.toUppercase_ascii]
  · exact (List.map_congr_left fun c hc => (nameChar_plain (h.char hc)).2.2).trans (List.map_id' _)
  · intro c hc
    have hchar := h.char hc
    simp only [nameChar, Bool.and_eq_true, decide_eq_true_eq] at hchar
    exact hchar.1

theorem IsName.afterDot (h : IsName name) : afterDot name = name := by
  rw [Dav.afterDot, rfind_of_not_mem (h.not_mem (by decide))]

/-- A name ends at the separator after it. -/
theorem IsName.takeWhile (h : IsName name) {d : Char}
    (hd : d ∈ (['"', ':', ';', '=', '.', '\r', '\n', ' ', '\t'] : List Char)) :
    (name ++ d :: rest).takeWhile (· ≠ d) = name ∧
      (name ++ d :: rest).dropWhile (· ≠ d) = d :: rest := by
  have hname : ∀ c ∈ name, decide (c ≠ d) = true := by
    intro c hc
    rw [decide_eq_true_eq]
    rintro rfl
    exact h.not_mem hd hc
  rw [List.takeWhile_append_of_pos hname, List.dropWhile_append_of_pos hname,
    List.takeWhile_cons_of_neg (by simp), List.dropWhile_cons_of_neg (by simp), List.append_nil]
  exact ⟨rfl, rfl⟩

theorem splitOnce_name (h : IsName name) {d : Char}
    (hd : d ∈ (['"', ':', ';', '=', '.', '\r', '\n', ' ', '\t'] : List Char)) (rest : List Char) :
    splitOnce d (name ++ d :: rest) = some (name, rest) := by
  rw [splitOnce, if_pos (by simp), (h.takeWhile hd).1, (h.takeWhile hd).2, List.drop_succ_cons,
    List.drop_zero]

end Names

/-! ## Quotes -/

/-- Both scans of a head pass over the text and are outside quotes after it. -/
structure Closed (s : List Char) : Prop where
  colon : ∀ rest, splitAtColon false (s ++ rest) =
    (splitAtColon false rest).map fun parts => (s ++ parts.1, parts.2)
  segment : ∀ current rest, segmentLoop current false (s ++ rest) =
    segmentLoop (current ++ s) false rest

section Quotes

variable {c : Char} {s t : List Char}

theorem closed_nil : Closed [] where
  colon rest := by simp
  segment current rest := by simp

theorem Closed.append (hs : Closed s) (ht : Closed t) : Closed (s ++ t) where
  colon rest := by
    rw [List.append_assoc, hs.colon, ht.colon, Option.map_map]
    congr 1
    funext parts
    exact congrArg (·, parts.2) (List.append_assoc _ _ _).symm
  segment current rest := by
    rw [List.append_assoc, hs.segment, ht.segment, List.append_assoc]

theorem closed_char (hquote : c ≠ '"') (hcolon : c ≠ ':') (hsemicolon : c ≠ ';') : Closed [c] where
  colon rest := by
    rw [List.singleton_append, splitAtColon, if_neg (fun h => hcolon h.1), if_neg hquote]
    rfl
  segment current rest := by
    rw [List.singleton_append, segmentLoop, if_neg hquote, if_neg (fun h => hsemicolon h.1)]

theorem closed_plain (h : ∀ c ∈ s, c ≠ '"' ∧ c ≠ ':' ∧ c ≠ ';') : Closed s := by
  induction s with
  | nil => exact closed_nil
  | cons c s ih =>
      obtain ⟨hquote, hcolon, hsemicolon⟩ := h c List.mem_cons_self
      have hs := ih fun d hd => h d (List.mem_cons_of_mem _ hd)
      exact (closed_char hquote hcolon hsemicolon).append hs

theorem IsName.closed {name : List Char} (h : IsName name) : Closed name := by
  apply closed_plain
  intro c hc
  refine ⟨?_, ?_, ?_⟩
  all_goals
    rintro rfl
    exact h.not_mem (by decide) hc

/-- What is between quotes is passed over, whatever it is. -/
theorem closed_quoted (h : '"' ∉ s) : Closed ('"' :: s ++ ['"']) where
  colon rest := by
    have hinside : ∀ s : List Char, '"' ∉ s → splitAtColon true (s ++ '"' :: rest) =
        (splitAtColon false rest).map fun parts => (s ++ '"' :: parts.1, parts.2) := by
      intro s hs
      induction s with
      | nil =>
          rw [List.nil_append, splitAtColon, if_neg (by decide), if_pos rfl]
          rfl
      | cons c s ih =>
          have hc : c ≠ '"' := fun heq => hs (heq ▸ List.mem_cons_self)
          rw [List.cons_append, splitAtColon, if_neg (by simp), if_neg hc,
            ih (fun hmem => hs (List.mem_cons_of_mem _ hmem)), Option.map_map]
          rfl
    rw [List.append_assoc, List.singleton_append, List.cons_append, splitAtColon,
      if_neg (by decide), if_pos rfl, Bool.not_false, hinside s h, Option.map_map]
    congr 1
    funext parts
    simp
  segment current rest := by
    have hinside : ∀ (s current : List Char), '"' ∉ s →
        segmentLoop current true (s ++ '"' :: rest) =
          segmentLoop (current ++ s ++ ['"']) false rest := by
      intro s
      induction s with
      | nil =>
          intro current _
          rw [List.nil_append, segmentLoop, if_pos rfl, List.append_nil]
          rfl
      | cons c s ih =>
          intro current hs
          have hc : c ≠ '"' := fun heq => hs (heq ▸ List.mem_cons_self)
          rw [List.cons_append, segmentLoop, if_neg hc, if_neg (by simp),
            ih _ (fun hmem => hs (List.mem_cons_of_mem _ hmem)), List.append_assoc current]
          rfl
    rw [List.append_assoc, List.singleton_append, List.cons_append, segmentLoop, if_pos rfl,
      Bool.not_false, hinside s _ h]
    congr 1
    simp

theorem closed_intercalate (ht : Closed t) {items : List (List Char)}
    (h : ∀ item ∈ items, Closed item) : Closed (t.intercalate items) := by
  induction items with
  | nil => exact closed_nil
  | cons first items ih =>
      cases items with
      | nil =>
          rw [List.intercalate_singleton]
          exact h first List.mem_cons_self
      | cons second items =>
          rw [List.intercalate_cons_cons]
          apply ((h first List.mem_cons_self).append ht).append
          exact ih fun item hitem => h item (List.mem_cons_of_mem _ hitem)

end Quotes

/-! ## Parameters -/

/-- A text whose first and last characters are not white space. -/
structure Ends (s : List Char) : Prop where
  first : ∃ c, s.head? = some c ∧ isWhitespace c = false
  last : ∃ c, s.getLast? = some c ∧ isWhitespace c = false

section Parameters

variable {s t key name value : List Char} {params : List (List Char × List Char)}

theorem Ends.ne_nil (h : Ends s) : s ≠ [] := by
  rintro rfl
  obtain ⟨c, hc, -⟩ := h.first
  cases hc

theorem Ends.trim (h : Ends s) : trim s = s := trim_of_ends h.first h.last

theorem ends_trim (h : Text.trim s ≠ []) : Ends (Text.trim s) where
  first := (trim_ends h).1
  last := (trim_ends h).2

/-- What is between two such texts does not matter. -/
theorem Ends.append (hs : Ends s) (ht : Ends t) (between : List Char) :
    Ends (s ++ between ++ t) where
  first := by
    obtain ⟨c, hc, hwhite⟩ := hs.first
    refine ⟨c, ?_, hwhite⟩
    rw [List.append_assoc, List.head?_append_of_ne_nil _ hs.ne_nil, hc]
  last := by
    obtain ⟨c, hc, hwhite⟩ := ht.last
    refine ⟨c, ?_, hwhite⟩
    rw [List.getLast?_append_of_ne_nil _ ht.ne_nil, hc]

theorem ends_singleton {c : Char} (h : isWhitespace c = false) : Ends [c] where
  first := ⟨c, rfl, h⟩
  last := ⟨c, rfl, h⟩

/-- An item of a parameter, as it is written. -/
structure SafeItem (s : List Char) : Prop where
  closed : Closed s
  ends : Ends s
  noBreak : NoBreak s

theorem safeItem_paramItem {item : List Char} (h : paramItem item = some s) : SafeItem s := by
  unfold paramItem at h
  dsimp only at h
  generalize hcleaned : Text.trim (item.filter fun c => !isControl c && c != '"') = cleaned at h
  have hchar : ∀ c ∈ cleaned, isControl c = false ∧ c ≠ '"' := by
    intro c hc
    rw [← hcleaned] at hc
    simpa using (List.mem_filter.1 (mem_trim hc)).2
  have hbreak : NoBreak cleaned := by
    intro c hc
    have hcontrol := (hchar c hc).1
    constructor
    · rintro rfl
      exact absurd hcontrol (by decide)
    · rintro rfl
      exact absurd hcontrol (by decide)
  split at h
  · cases h
  · rename_i hne
    have hends : Ends cleaned := by
      rw [← hcleaned] at hne ⊢
      exact ends_trim hne
    split at h
    · -- between quotes
      obtain rfl := Option.some.inj h
      have hquote : '"' ∉ cleaned := fun hmem => (hchar '"' hmem).2 rfl
      have hquoted : NoBreak ['"'] := noBreak_nil.cons (by decide)
      have hchar' : isWhitespace '"' = false := by decide
      refine ⟨closed_quoted hquote, ?_, ?_⟩
      · exact (ends_singleton hchar').append (ends_singleton hchar') cleaned
      · exact (hquoted.append hbreak).append hquoted
    · rename_i hplain
      obtain rfl := Option.some.inj h
      refine ⟨closed_plain ?_, hends, hbreak⟩
      intro c hc
      refine ⟨(hchar c hc).2, ?_, ?_⟩
      · rintro rfl
        exact hplain (Or.inr hc)
      · rintro rfl
        exact hplain (Or.inl hc)

theorem SafeItem.append (hs : SafeItem s) (ht : SafeItem t) : SafeItem (s ++ [','] ++ t) where
  closed := by
    have hcomma : Closed [','] := closed_char (by decide) (by decide) (by decide)
    exact (hs.closed.append hcomma).append ht.closed
  ends := hs.ends.append ht.ends _
  noBreak := by
    have hcomma : NoBreak [','] := noBreak_nil.cons (by decide)
    exact (hs.noBreak.append hcomma).append ht.noBreak

/-- What `param_list_value` writes is empty, or as safe as one item. -/
theorem paramListValue_safe (raw : List Char) :
    paramListValue raw = [] ∨ SafeItem (paramListValue raw) := by
  have hjoin : ∀ items : List (List Char), (∀ item ∈ items, SafeItem item) →
      [','].intercalate items = [] ∨ SafeItem ([','].intercalate items) := by
    intro items
    induction items with
    | nil =>
        intro _
        exact Or.inl rfl
    | cons first items ih =>
        intro h
        have hfirst := h first List.mem_cons_self
        cases items with
        | nil =>
            rw [List.intercalate_singleton]
            exact Or.inr hfirst
        | cons second items =>
            rw [List.intercalate_cons_cons]
            rcases ih fun item hitem => h item (List.mem_cons_of_mem _ hitem) with hnil | hrest
            · -- the rest begins with an item, which is not empty
              have hsecond := h second (List.mem_cons_of_mem _ List.mem_cons_self)
              cases items with
              | nil =>
                  rw [List.intercalate_singleton] at hnil
                  exact absurd hnil hsecond.ends.ne_nil
              | cons third items =>
                  rw [List.intercalate_cons_cons, List.append_assoc] at hnil
                  exact absurd (List.append_eq_nil_iff.1 hnil).1 hsecond.ends.ne_nil
            · exact Or.inr (hfirst.append hrest)
  apply hjoin
  intro item hitem
  obtain ⟨piece, -, hpiece⟩ := List.mem_filterMap.1 hitem
  exact safeItem_paramItem hpiece

/-- The parameters that `push_property` writes, without their semicolons. -/
def segments (params : List (List Char × List Char)) : List (List Char) :=
  params.filterMap fun p =>
    if paramListValue p.2 = [] then none else some (p.1 ++ '=' :: paramListValue p.2)

theorem flatMap_paramText (params : List (List Char × List Char)) :
    params.flatMap paramText = (segments params).flatMap (';' :: ·) := by
  induction params with
  | nil => rfl
  | cons p params ih =>
      rw [List.flatMap_cons, ih]
      unfold segments paramText
      rw [List.filterMap_cons]
      by_cases hempty : paramListValue p.2 = []
      · simp only [hempty, if_true, List.nil_append]
      · simp only [hempty, if_false, List.flatMap_cons]
        rfl

/-- A parameter as it is read back. -/
def readParam (param : List Char × List Char) : Option (List Char × List Char) :=
  if paramListValue param.2 = [] then none
  else some (param.1, trimQuotes (paramListValue param.2))

theorem closed_segment (hkey : IsName key) (hs : SafeItem s) : Closed (key ++ '=' :: s) := by
  have hequals : Closed ['='] := closed_char (by decide) (by decide) (by decide)
  exact hkey.closed.append (hequals.append hs.closed)

theorem parseSegment_segment (T : CaseMaps) (hkey : IsName key) (hs : SafeItem s) :
    parseSegment T (key ++ '=' :: s) = (key, trimQuotes s) := by
  unfold parseSegment
  rw [splitOnce_name hkey (by decide)]
  dsimp only
  rw [hkey.trim, hkey.toUppercase, hs.ends.trim]

theorem mem_segments (hkeys : ∀ p ∈ params, IsName p.1) (h : s ∈ segments params) :
    ∃ key t, IsName key ∧ SafeItem t ∧ s = key ++ '=' :: t := by
  obtain ⟨p, hp, hsome⟩ := List.mem_filterMap.1 h
  split at hsome
  · cases hsome
  · rename_i hne
    obtain rfl := Option.some.inj hsome
    rcases paramListValue_safe p.2 with hnil | hsafe
    · exact absurd hnil hne
    · exact ⟨p.1, _, hkeys p hp, hsafe, rfl⟩

/-- The first loop of `parse_params` cuts at the semicolons that were written. -/
theorem segmentLoop_segments {ss : List (List Char)} (hs : Closed s)
    (hss : ∀ s ∈ ss, Closed s) :
    segmentLoop [] false (s ++ ss.flatMap (';' :: ·)) = s :: ss := by
  induction ss generalizing s with
  | nil =>
      rw [hs.segment]
      rfl
  | cons t ss ih =>
      have ht := hss t List.mem_cons_self
      rw [List.flatMap_cons, hs.segment, List.nil_append, List.cons_append, segmentLoop,
        if_neg (by decide), if_pos (by decide), ih ht fun u hu => hss u (List.mem_cons_of_mem _ hu)]

theorem map_parseSegment (T : CaseMaps) (hkeys : ∀ p ∈ params, IsName p.1) :
    (segments params).map (parseSegment T) = params.filterMap readParam := by
  induction params with
  | nil => rfl
  | cons p params ih =>
      have hrest := ih fun q hq => hkeys q (List.mem_cons_of_mem _ hq)
      unfold segments readParam at hrest ⊢
      rw [List.filterMap_cons, List.filterMap_cons]
      by_cases hempty : paramListValue p.2 = []
      · simp only [hempty, if_true]
        exact hrest
      · rcases paramListValue_safe p.2 with hnil | hsafe
        · exact absurd hnil hempty
        · simp only [hempty, if_false, List.map_cons]
          rw [hrest, parseSegment_segment T (hkeys p List.mem_cons_self) hsafe]

/-- The colon that ends the head is found behind all parameters. -/
theorem splitAtColon_head {ss : List (List Char)} (hs : Closed s) (hss : ∀ s ∈ ss, Closed s)
    (value : List Char) :
    splitAtColon false (s ++ ss.flatMap (';' :: ·) ++ ':' :: value) =
      some (s ++ ss.flatMap (';' :: ·), value) := by
  induction ss generalizing s with
  | nil =>
      rw [List.flatMap_nil, List.append_nil, hs.colon, splitAtColon, if_pos (by decide),
        Option.map_some, List.append_nil]
  | cons t ss ih =>
      have hrest := ih (hss t List.mem_cons_self) fun u hu => hss u (List.mem_cons_of_mem _ hu)
      rw [List.flatMap_cons, List.append_assoc, hs.colon, List.cons_append, List.cons_append,
        splitAtColon, if_neg (by decide), if_neg (by decide), hrest, Option.map_some,
        Option.map_some]

end Parameters

/-! ## Properties read back -/

section Properties

variable {name value : List Char} {params : List (List Char × List Char)}

/-- The line of a property. -/
def propertyLine (name : List Char) (params : List (List Char × List Char)) (value : List Char) :
    List Char :=
  name ++ params.flatMap paramText ++ ':' :: value

/-- **The line of a property reads as this property.** -/
theorem parseLine_propertyLine (T : CaseMaps) (hname : IsName name)
    (hkeys : ∀ p ∈ params, IsName p.1) (value : List Char) :
    parseLine T (propertyLine name params value) =
      some ⟨name, params.filterMap readParam, value⟩ := by
  have hclosed : ∀ s ∈ segments params, Closed s := by
    intro s hs
    obtain ⟨key, t, hkey, ht, rfl⟩ := mem_segments hkeys hs
    exact closed_segment hkey ht
  have hnonempty : ∀ s ∈ segments params, s ≠ [] := by
    intro s hs
    obtain ⟨key, t, hkey, -, rfl⟩ := mem_segments hkeys hs
    simp
  have htrim : trim (propertyLine name params value) ≠ [] := by
    obtain ⟨c, t, rfl, hwhite, -⟩ := hname.head
    intro hnil
    have hmem : c ∈ trim (propertyLine (c :: t) params value) :=
      mem_trim_of_mem (by simp [propertyLine]) hwhite
    rw [hnil] at hmem
    cases hmem
  unfold parseLine
  rw [if_neg htrim, propertyLine, flatMap_paramText,
    splitAtColon_head hname.closed hclosed, Option.map_some]
  dsimp only
  have hparams := map_parseSegment T hkeys
  cases hsegments : segments params with
  | nil =>
      rw [hsegments] at hparams
      have hplain : ';' ∉ name := hname.not_mem (by decide)
      rw [List.flatMap_nil, List.append_nil, splitOnce, if_neg hplain,
        List.takeWhile_eq_self_iff.2 ?_, hname.afterDot, hname.trim, hname.toUppercase, ← hparams]
      · rfl
      · intro c hc
        rw [decide_eq_true_eq]
        rintro rfl
        exact hplain hc
  | cons s ss =>
      rw [hsegments] at hclosed hnonempty hparams
      have hloop := segmentLoop_segments (hclosed s List.mem_cons_self)
        fun t ht => hclosed t (List.mem_cons_of_mem _ ht)
      have hall : ∀ t ∈ s :: ss, decide (t ≠ []) = true := by
        intro t ht
        exact decide_eq_true (hnonempty t ht)
      rw [List.flatMap_cons, List.cons_append, (hname.takeWhile (by decide)).1,
        splitOnce_name hname (by decide), hname.afterDot, hname.trim, hname.toUppercase]
      dsimp only
      rw [parseParams, hloop, List.filter_eq_self.2 hall, hparams]

/-- A property that is written is one line of the unfolded text. -/
theorem unfoldFrom_push {lines : List (List Char)} (hname : IsName name)
    (hkeys : ∀ p ∈ params, IsName p.1) (hvalue : NoBreak value) (hne : value ≠ [])
    (rest : List Char) :
    unfoldFrom lines (pushProperty [] name params value ++ rest) =
      unfoldFrom (lines ++ [propertyLine name params value]) rest := by
  have hparams : NoBreak (params.flatMap paramText) := by
    rw [flatMap_paramText]
    apply NoBreak.flatMap
    intro s hs
    obtain ⟨key, t, hkey, ht, rfl⟩ := mem_segments hkeys hs
    apply NoBreak.cons (by decide)
    exact hkey.noBreak.append (ht.noBreak.cons (by decide))
  have hline : NoBreak (propertyLine name params value) :=
    (hname.noBreak.append hparams).append (hvalue.cons (by decide))
  obtain ⟨c, t, hcons, -, hspace, htab⟩ := hname.head
  have hhead : (propertyLine name params value).head? = some c := by
    rw [propertyLine, hcons]
    rfl
  rw [pushProperty, if_neg hne]
  apply unfoldFrom_foldLine hline
  · intro hnil
    rw [hnil] at hhead
    cases hhead
  · rw [hhead]
    exact ⟨fun h => hspace (Option.some.inj h), fun h => htab (Option.some.inj h)⟩

end Properties

end AsterBridge.Dav
