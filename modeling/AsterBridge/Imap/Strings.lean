import AsterBridge.Error

/-!
# Strings of IMAP commands and responses

How `imap/server.rs` writes a quoted string and reads an atom or a quoted string.
-/

set_option autoImplicit false

namespace AsterBridge.Imap

open AsterBridge.Lib.Text

/-- `str::replace` of one character. -/
def replaceChar (c : Char) (with_ : List Char) (cs : List Char) : List Char :=
  cs.flatMap fun d => if d = c then with_ else [d]

/-- `quote_imap_string` -/
def quoteImapString (value : List Char) : List Char :=
  '"' :: (replaceChar '"' ['\\', '"'] (replaceChar '\\' ['\\', '\\'] (responseText value)) ++ ['"'])

/-- The loop of `parse_imap_atom_or_quoted` behind the opening quote: the value and the rest
of the line. -/
def readQuoted : List Char → List Char × List Char
  | [] => ([], [])
  | '\\' :: [] => ([], [])
  | '\\' :: c :: cs => (c :: (readQuoted cs).1, (readQuoted cs).2)
  | c :: cs => if c = '"' then ([], cs) else (c :: (readQuoted cs).1, (readQuoted cs).2)

/-- `parse_imap_atom_or_quoted` -/
def parseImapAtomOrQuoted (s : List Char) : List Char × List Char :=
  let isEnd (c : Char) : Bool := c == ' ' || c == '\t' || c == '\r' || c == '\n'
  match trimStart s with
  | '"' :: rest => readQuoted rest
  | s => (s.takeWhile fun c => !isEnd c, s.dropWhile fun c => !isEnd c)

/-- The escapes of a character. -/
def escaped (c : Char) : List Char :=
  replaceChar '"' ['\\', '"'] (replaceChar '\\' ['\\', '\\'] [c])

theorem readQuoted_escaped (c : Char) (cs : List Char) :
    readQuoted (escaped c ++ cs) = (c :: (readQuoted cs).1, (readQuoted cs).2) := by
  by_cases hslash : c = '\\'
  · subst hslash
    rfl
  · by_cases hquote : c = '"'
    · subst hquote
      rfl
    · have hplain : escaped c = [c] := by simp [escaped, replaceChar, hslash, hquote]
      rw [hplain, List.singleton_append, readQuoted.eq_def]
      split
      · rename_i heq
        exact absurd heq (by simp)
      · rename_i heq
        exact absurd (List.cons.inj heq).1 hslash
      · rename_i heq
        exact absurd (List.cons.inj heq).1 hslash
      · rename_i heq
        obtain ⟨rfl, rfl⟩ := List.cons.inj heq
        rw [if_neg hquote]

theorem readQuoted_quoted (value rest : List Char) :
    readQuoted (value.flatMap escaped ++ '"' :: rest) = (value, rest) := by
  induction value with
  | nil => simp [readQuoted]
  | cons c value ih => rw [List.flatMap_cons, List.append_assoc, readQuoted_escaped, ih]

theorem responseText_of_printable {value : List Char} (h : ∀ c ∈ value, isControl c = false) :
    responseText value = value := by
  rw [responseText, if_neg]
  rw [List.any_eq_true]
  rintro ⟨c, hc, hcontrol⟩
  exact absurd ((h c hc).symm.trans hcontrol) (by decide)

/-- **A quoted string without control characters is read back.** -/
theorem parse_quoteImapString {value : List Char} (h : ∀ c ∈ value, isControl c = false) :
    (parseImapAtomOrQuoted (quoteImapString value)).1 = value := by
  have hescaped : replaceChar '"' ['\\', '"'] (replaceChar '\\' ['\\', '\\'] value) =
      value.flatMap escaped := by
    induction value with
    | nil => rfl
    | cons c value ih =>
        have htail := ih fun d hd => h d (List.mem_cons_of_mem _ hd)
        simp only [replaceChar] at htail
        simp only [replaceChar, List.flatMap_cons, List.flatMap_append, htail, escaped,
          List.flatMap_nil, List.append_nil]
  have htrim : trimStart ('"' :: (value.flatMap escaped ++ ['"'])) =
      '"' :: (value.flatMap escaped ++ ['"']) := by
    rw [trimStart, List.dropWhile_cons_of_neg (by decide)]
  rw [parseImapAtomOrQuoted, quoteImapString, responseText_of_printable h, hescaped, htrim]
  exact congrArg Prod.fst (readQuoted_quoted value [])

end AsterBridge.Imap
