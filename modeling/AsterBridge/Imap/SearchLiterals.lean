import AsterBridge.Imap.SearchMeaning
import AsterBridge.Smtp.Framing

/-!
# Literals of SEARCH

A string of SEARCH may arrive as a literal (`run_session_inner` of `imap/server.rs`): the line
before it ends in a marker with its length. The session reads the literal and the line after it,
puts the literal into the line as a quoted string, and looks at the end of what this gives for a
further marker.
-/

set_option autoImplicit false

namespace AsterBridge.Imap.Search

open AsterBridge.Lib AsterBridge.Lib.Text AsterBridge.Lib.Pieces
open AsterBridge.Smtp (Bytes Stream)

/-! ## Literals -/

/-- `MAX_LINE_LENGTH` -/
def maxLineLength : Nat := 8192

/-- `MAX_SEARCH_LITERALS` -/
def maxSearchLiterals : Nat := 16

/-- `str::len` -/
def byteLen (s : List Char) : Nat := (Utf8.encode (String.ofList s)).length

/-- `is_search_command` -/
def isSearchCommand (line : List Char) : Bool :=
  match (splitWhitespace line).drop 1 with
  | [] => false
  | cmd :: words =>
      if cmd.map Char.toUpper = "SEARCH".toList then true
      else if cmd.map Char.toUpper = "UID".toList then
        words.head?.any fun w => eqIgnoreAsciiCase w "SEARCH".toList
      else false

/-- What `trailing_literal` finds. -/
structure Marker where
  head : List Char
  len : Nat
  nonSync : Bool
deriving DecidableEq

/-- The digits of a marker, and whether a plus follows them. -/
def specOf (spec : List Char) : List Char × Bool :=
  if spec.getLast? = some '+' then (spec.dropLast, true) else (spec, false)

/-- The marker that begins with the brace at `opening`; its last brace is cut off. -/
def markerAt (inner : List Char) (opening : Nat) : Option Marker :=
  let (digits, nonSync) := specOf (inner.drop (opening + 1))
  if digits = [] ∨ 10 < digits.length ∨ digits.all Char.isDigit = false then none
  else
    (parseUInt (2 ^ 64) (String.ofList digits)).map fun len => ⟨inner.take opening, len, nonSync⟩

/-- `trailing_literal` -/
def trailingLiteral (line : List Char) : Option Marker :=
  if line.getLast? = some '}' then (rfind '{' line.dropLast).bind (markerAt line.dropLast) else none

/-- `is_safe_tag` -/
def isSafeTag (tag : List Char) : Bool := !tag.isEmpty && !tag.any isControl

/-! ## Reading a command -/

/-- `read_line_bounded`: the bytes of the next line, or the error that it is longer than `cap`. It
takes them from the fills of the buffer as `read_line_bytes` of the SMTP server does. -/
def readLineBounded (cap : Nat) (s : Stream) : Option Bytes × Stream :=
  let read := Smtp.readLineBytes cap s []
  (if cap < read.1.length then none else some read.1, read.2)

/-- `read_exact`; an error if the stream ends before. -/
def readExact (len : Nat) : Stream → Option (Bytes × Stream)
  | [] => if len = 0 then some ([], []) else none
  | avail :: later =>
      if len ≤ avail.val.length then
        some (avail.val.take len, unread (avail.val.drop len) later)
      else (readExact (len - avail.val.length) later).map fun p => (avail.val ++ p.1, p.2)

/-- A session between two reads of a command: the line, and what was written. -/
structure Reading where
  trimmed : List Char
  stream : Stream
  written : List String

/-- `literal_error`: the message, and whether the connection can go on. -/
abbrev LiteralError := String × Bool

/-- What a line asks for before its literal is sent. -/
def Marker.prompt (m : Marker) : List String :=
  if m.nonSync then [] else ["+ Ready for literal data\r\n"]

/-- The loop over the literals of a line, of which `left` are still allowed. -/
def readLiterals (left : Nat) (r : Reading) : Reading × Option LiteralError :=
  match trailingLiteral r.trimmed with
  | none => (r, none)
  | some m =>
      match left with
      | 0 => (r, some ("SEARCH literal too large", !m.nonSync))
      | left + 1 =>
          if maxLineLength - byteLen m.head < m.len then
            (r, some ("SEARCH literal too large", !m.nonSync))
          else
            let r := { r with written := r.written ++ m.prompt }
            match readExact m.len r.stream with
            | none => (r, some ("SEARCH read failed", false))
            | some (buf, stream) =>
                match readLineBounded maxLineLength stream with
                | (none, stream) => ({ r with stream }, some ("Line too long", false))
                | (some line, stream) =>
                    let quoted := quoteSearchString (Utf8.fromUtf8Lossy buf)
                    readLiterals left
                      { r with
                        trimmed := m.head ++ quoted ++ trimEnd (Utf8.fromUtf8Lossy line)
                        stream }

/-- What a read of a command comes to. -/
inductive CommandRead where
  | closed
  | refused (recoverable : Bool)
  | command (trimmed : List Char)
deriving DecidableEq

/-- `run_session_inner` from one command to where the next line is split: what is read, what is
still to read, and what is written. -/
def readCommand (signedIn : Bool) (s : Stream) : CommandRead × Stream × List String :=
  match readLineBounded maxLineLength s with
  | (none, s) => (.refused false, s, ["* BAD Line too long\r\n"])
  | (some [], s) => (.closed, s, [])
  | (some (b :: bytes), s) =>
      let line := Utf8.fromUtf8Lossy (b :: bytes)
      if maxLineLength < byteLen line then (.refused true, s, ["* BAD Line too long\r\n"])
      else
        let trimmed := trimEnd line
        if signedIn && isSearchCommand trimmed then
          match readLiterals maxSearchLiterals ⟨trimmed, s, []⟩ with
          | (r, none) => (.command r.trimmed, r.stream, r.written)
          | (r, some (msg, recoverable)) =>
              let word := r.trimmed.takeWhile (· ≠ ' ')
              let tag := if isSafeTag word then String.ofList word else "*"
              (.refused recoverable, r.stream, r.written ++ [tag ++ " BAD " ++ msg ++ "\r\n"])
        else (.command trimmed, s, [])

/-! ## A line in pieces -/

/-- A literal of a line, with what is sent before it on its line. -/
structure Part where
  head : Bytes
  digits : List Char
  nonSync : Bool
  literal : Bytes

/-- The text before a literal. -/
def Part.text (p : Part) : List Char := Utf8.fromUtf8Lossy p.head

/-- The text of a literal. -/
def Part.content (p : Part) : List Char := Utf8.fromUtf8Lossy p.literal

/-- What announces a literal. -/
def Part.marker (p : Part) : List Char :=
  '{' :: (p.digits ++ ((if p.nonSync then ['+'] else []) ++ ['}']))

/-- Where the tokenizer is after a text. -/
def modeAfter : Mode → List Char → Mode
  | mode, [] => mode
  | .escaped, _ :: cs => modeAfter .quoted cs
  | .quoted, c :: cs =>
      modeAfter (if c = '"' then .plain else if c = '\\' then .escaped else .quoted) cs
  | .plain, c :: cs => modeAfter (if c = '"' then .quoted else .plain) cs

/-- A text that ends in a blank or an opening parenthesis outside quotes. -/
def EndsOutside (text : List Char) : Prop :=
  (text.getLast? = some ' ' ∨ text.getLast? = some '(') ∧ modeAfter .plain text = .plain

/-- One line that ends outside quotes, and a literal of the length that is announced. -/
structure Part.Valid (p : Part) : Prop where
  oneLine : 10 ∉ p.head
  endsOutside : EndsOutside p.text
  digits : p.digits ≠ [] ∧ p.digits.length ≤ 10 ∧ p.digits.all Char.isDigit = true
  announced : parseUInt (2 ^ 64) (String.ofList p.digits) = some p.literal.length

/-- The next line that is sent. -/
def sentLine : List Part → Bytes → Bytes
  | [], rest => rest ++ [13, 10]
  | p :: _, _ => p.head ++ Utf8.encode (String.ofList p.marker) ++ [13, 10]

/-- What is sent after the next line. -/
def sentAfter : List Part → Bytes → Bytes → Bytes
  | [], _, later => later
  | p :: parts, rest, later => p.literal ++ (sentLine parts rest ++ sentAfter parts rest later)

/-- The text of the next line, as the session has it. -/
def lineText (parts : List Part) (rest : Bytes) : List Char :=
  trimEnd (Utf8.fromUtf8Lossy (sentLine parts rest))

/-- The line with every literal as a quoted string. -/
def splice : List Part → List Char → List Char
  | [], rest => rest
  | p :: parts, rest => p.text ++ (quoteSearchString p.content ++ splice parts rest)

/-- No literal and no line is too long; `front` is what is spliced already. -/
def Fits (rest : Bytes) : List Char → List Part → Prop
  | _, [] => True
  | front, p :: parts =>
      p.literal.length ≤ maxLineLength - byteLen (front ++ p.text) ∧
        (sentLine parts rest).length ≤ maxLineLength ∧
        Fits rest (front ++ p.text ++ quoteSearchString p.content) parts

/-- What the session writes while it reads the literals. -/
def prompts (parts : List Part) : List String :=
  parts.flatMap fun p => Marker.prompt ⟨p.text, p.literal.length, p.nonSync⟩

/-! ## Markers -/

/-- A marker with more text before it. -/
def Marker.behind (front : List Char) (m : Marker) : Marker := { m with head := front ++ m.head }

section Markers

theorem markerAt_behind (front inner : List Char) (opening : Nat) :
    markerAt (front ++ inner) (front.length + opening) =
      (markerAt inner opening).map (Marker.behind front) := by
  have hspec : (front ++ inner).drop (front.length + opening + 1) = inner.drop (opening + 1) := by
    rw [Nat.add_assoc, List.drop_length_add_append]
  have hhead : (front ++ inner).take (front.length + opening) = front ++ inner.take opening :=
    List.take_length_add_append opening
  unfold markerAt
  rw [hspec, hhead]
  dsimp only
  split
  · rfl
  · rw [Option.map_map]
    rfl

/-- With a quote behind the brace, nothing is a marker. -/
theorem markerAt_of_quote {inner : List Char} {opening : Nat}
    (h : '"' ∈ inner.drop (opening + 1)) : markerAt inner opening = none := by
  unfold markerAt
  generalize inner.drop (opening + 1) = spec at h
  have hmem : '"' ∈ (specOf spec).1 := by
    unfold specOf
    split
    case isTrue hplus =>
      rw [← List.dropLast_append_getLast? _ hplus, List.mem_append] at h
      exact h.resolve_right (by decide)
    case isFalse => exact h
  have hdigits : (specOf spec).1.all Char.isDigit = false := by
    rw [← Bool.not_eq_true, List.all_eq_true]
    exact fun hall => absurd (hall _ hmem) (by decide)
  dsimp only
  rw [if_pos (.inr (.inr hdigits))]

/-- **A marker is found only after the last quote**, and the text before is left as it is. -/
theorem trailingLiteral_quote (front rest : List Char) :
    trailingLiteral (front ++ '"' :: rest) =
      (trailingLiteral rest).map (Marker.behind (front ++ ['"'])) := by
  have hsplit : front ++ '"' :: rest = (front ++ ['"']) ++ rest := by
    rw [List.append_assoc, List.singleton_append]
  unfold trailingLiteral
  by_cases hrest : rest = []
  · rw [hrest, if_neg, if_neg (by decide), Option.map_none]
    rw [List.getLast?_concat]
    decide
  · have hlast : (front ++ '"' :: rest).getLast? = rest.getLast? := by
      rw [hsplit, List.getLast?_append_of_ne_nil _ hrest]
    have hinner : (front ++ '"' :: rest).dropLast = (front ++ ['"']) ++ rest.dropLast := by
      rw [hsplit, List.dropLast_append_of_ne_nil hrest]
    rw [hlast]
    by_cases hbrace : rest.getLast? = some '}'
    · rw [if_pos hbrace, if_pos hbrace, hinner]
      cases hfind : rfind '{' rest.dropLast with
      | some opening =>
          rw [rfind_append_of_some _ hfind]
          exact markerAt_behind _ _ _
      | none =>
          rw [rfind_append_of_none _ hfind, rfind_append_of_none _ (by decide), Option.bind_none,
            Option.map_none, Option.bind_eq_none_iff]
          -- a brace before the quote begins no marker
          intro opening hopening
          refine markerAt_of_quote ?_
          rw [List.append_assoc, List.drop_append_of_le_length (rfind_lt hopening)]
          exact List.mem_append_right _ List.mem_cons_self
    · rw [if_neg hbrace, if_neg hbrace, Option.map_none]

/-- The digits and the plus of a marker are told apart. -/
theorem Part.Valid.specOf {p : Part} (h : p.Valid) :
    specOf (p.digits ++ if p.nonSync then ['+'] else []) = (p.digits, p.nonSync) := by
  unfold Search.specOf
  cases p.nonSync with
  | true => rw [if_pos rfl, List.getLast?_concat, if_pos rfl, List.dropLast_concat]
  | false =>
      rw [if_neg Bool.false_ne_true, List.append_nil, if_neg]
      intro hplus
      exact absurd (List.all_eq_true.1 h.digits.2.2 _ (List.mem_of_getLast? hplus)) (by decide)

/-- The brace that ends a marker. -/
theorem Part.text_marker (p : Part) : p.text ++ p.marker =
    (p.text ++ '{' :: (p.digits ++ if p.nonSync then ['+'] else [])) ++ ['}'] := by
  rw [Part.marker]
  simp only [List.append_assoc, List.cons_append]

/-- The marker at the end of a line is found. -/
theorem Part.Valid.trailingLiteral {p : Part} (h : p.Valid) :
    trailingLiteral (p.text ++ p.marker) = some ⟨p.text, p.literal.length, p.nonSync⟩ := by
  have hbrace : '{' ∉ p.digits ++ if p.nonSync then ['+'] else [] := by
    intro hmem
    rcases List.mem_append.1 hmem with hdigit | hplus
    · exact absurd (List.all_eq_true.1 h.digits.2.2 _ hdigit) (by decide)
    · split at hplus
      · exact absurd hplus (by decide)
      · exact absurd hplus List.not_mem_nil
  unfold Search.trailingLiteral
  rw [p.text_marker, List.getLast?_concat, if_pos rfl, List.dropLast_concat,
    rfind_append_cons hbrace, Option.bind_some, markerAt, ← List.drop_drop, List.drop_left,
    List.drop_one, List.tail_cons, h.specOf, List.take_left]
  dsimp only
  rw [if_neg, h.announced, Option.map_some]
  rintro (hnil | hlong | hother)
  · exact h.digits.1 hnil
  · exact absurd h.digits.2.1 (not_le.2 hlong)
  · exact Bool.false_ne_true (hother.symm.trans h.digits.2.2)

end Markers

/-! ## Lines on the stream -/

section Lines

variable {s : Stream} {bytes : Bytes} {text : List Char}

theorem readLineBounded_of_le {cap : Nat} (h : (Smtp.nextLine s).length ≤ cap) :
    (readLineBounded cap s).1 = some (Smtp.nextLine s) ∧
      whole (readLineBounded cap s).2 = (whole s).drop (Smtp.nextLine s).length := by
  obtain ⟨hline, hrest⟩ := @Smtp.readLineBytes_of_le cap s [] (by simpa using h)
  rw [readLineBounded]
  dsimp only
  rw [hline, List.nil_append, if_neg (not_lt.2 h)]
  exact ⟨rfl, hrest⟩

theorem readLineBounded_of_lt {cap : Nat} (h : cap < (Smtp.nextLine s).length) :
    (readLineBounded cap s).1 = none := by
  have hlong := @Smtp.lt_readLineBytes cap s [] (Nat.zero_le _) (by simpa using h)
  rw [readLineBounded]
  exact if_pos hlong

/-- What is there is read, and no more. -/
theorem readExact_of_le {len : Nat} (h : len ≤ (whole s).length) :
    ∃ left, readExact len s = some ((whole s).take len, left) ∧
      whole left = (whole s).drop len := by
  induction s generalizing len with
  | nil =>
      obtain rfl := Nat.le_zero.1 h
      exact ⟨[], rfl, rfl⟩
  | cons avail later ih =>
      rw [readExact, whole_cons]
      by_cases hlen : len ≤ avail.val.length
      · rw [if_pos hlen, List.take_append_of_le_length hlen, List.drop_append_of_le_length hlen]
        exact ⟨_, rfl, whole_unread _ _⟩
      · have hall := Nat.le_of_not_le hlen
        rw [whole_cons, List.length_append] at h
        obtain ⟨left, hread, hleft⟩ := @ih (len - avail.val.length) (by omega)
        rw [if_neg hlen, hread]
        refine ⟨left, ?_, ?_⟩
        · rw [Option.map_some, List.take_append, List.take_of_length_le hall]
        · rw [hleft, List.drop_append, List.drop_eq_nil_of_le hall, List.nil_append]

/-- What ends a line is trimmed off. -/
theorem trimEnd_crlf (text : List Char) : trimEnd (text ++ ['\r', '\n']) = trimEnd text := by
  have hsplit : text ++ ['\r', '\n'] = (text ++ ['\r']) ++ ['\n'] := by
    rw [List.append_assoc, List.singleton_append]
  rw [trimEnd, hsplit, List.rdropWhile_concat_pos _ _ _ (by decide),
    List.rdropWhile_concat_pos _ _ _ (by decide), trimEnd]

theorem fromUtf8Lossy_crlf (bytes : Bytes) :
    Utf8.fromUtf8Lossy (bytes ++ [13, 10]) = Utf8.fromUtf8Lossy bytes ++ ['\r', '\n'] := by
  have hfresh : Utf8.Fresh [13, 10] := by
    intro b hb
    rw [← Option.some.inj hb]
    decide
  rw [Utf8.fromUtf8Lossy_append hfresh]
  rfl

theorem fresh_marker (p : Part) : Utf8.Fresh (Utf8.encode (String.ofList p.marker)) := by
  rw [Utf8.encode_eq_flatMap, String.toList_ofList, Part.marker, List.flatMap_cons]
  intro b hb
  rw [← Option.some.inj hb]
  decide

/-- A marker is on one line. -/
theorem Part.Valid.notMem_marker {p : Part} (h : p.Valid) :
    10 ∉ Utf8.encode (String.ofList p.marker) := by
  intro hmem
  have hchar := Utf8.mem_of_mem_encode (by decide) hmem
  rw [String.toList_ofList, Part.marker] at hchar
  rcases List.mem_cons.1 hchar with hbrace | hrest
  · exact absurd hbrace (by decide)
  · rcases List.mem_append.1 hrest with hdigit | htail
    · exact absurd (List.all_eq_true.1 h.digits.2.2 _ hdigit) (by decide)
    · cases hsync : p.nonSync <;> rw [hsync] at htail <;> exact absurd htail (by decide)

/-- The last line is the rest. -/
theorem lineText_nil (rest : Bytes) : lineText [] rest = trimEnd (Utf8.fromUtf8Lossy rest) := by
  rw [lineText, sentLine, fromUtf8Lossy_crlf, trimEnd_crlf]

/-- Every other line is a text and a marker. -/
theorem lineText_cons (p : Part) (parts : List Part) (rest : Bytes) :
    lineText (p :: parts) rest = p.text ++ p.marker := by
  rw [lineText, sentLine, fromUtf8Lossy_crlf, trimEnd_crlf,
    Utf8.fromUtf8Lossy_append (fresh_marker p), Utf8.fromUtf8Lossy_encode, String.toList_ofList]
  change trimEnd (p.text ++ p.marker) = _
  rw [p.text_marker, trimEnd, List.rdropWhile_concat_neg _ _ _ (by decide)]

/-- A line that is sent is a line that is read. -/
theorem firstLine_sentLine {parts : List Part} {rest : Bytes} (h : ∀ p ∈ parts, p.Valid)
    (hrest : 10 ∉ rest) (after : Bytes) :
    firstLine 10 (sentLine parts rest ++ after) = sentLine parts rest := by
  have hcrlf : ∀ line : Bytes, 10 ∉ line →
      firstLine 10 (line ++ [13, 10] ++ after) = line ++ [13, 10] := by
    intro line hline
    have hreturn : (10 : UInt8) ∉ line ++ [13] := by
      rw [List.mem_append, List.mem_singleton]
      exact fun hmem => hmem.elim hline (by decide)
    have hsplit : line ++ [13, 10] ++ after = (line ++ [13]) ++ 10 :: after := by
      simp only [List.append_assoc, List.cons_append, List.nil_append]
    rw [hsplit, firstLine_append_of_notMem hreturn, firstLine_sep, List.append_assoc]
    rfl
  cases parts with
  | nil => exact hcrlf rest hrest
  | cons p parts =>
      have hp := h p List.mem_cons_self
      refine hcrlf _ fun hmem => ?_
      rcases List.mem_append.1 hmem with hhead | hmarker
      · exact hp.oneLine hhead
      · exact hp.notMem_marker hmarker

end Lines

/-! ## Tokens of a spliced line -/

section Tokens

variable {text blanks : List Char} {mode : Mode}

/-- What a character does to the tokenizer does not depend on what follows. -/
theorem tokenizeFrom_cons (current : List Char) (mode : Mode) (c : Char) :
    ∃ tokens next, ∀ cs, tokenizeFrom current mode (c :: cs) =
      tokens ++ tokenizeFrom next (modeAfter mode [c]) cs := by
  cases mode with
  | escaped => exact ⟨[], current ++ [c], fun cs => rfl⟩
  | quoted =>
      by_cases hquote : c = '"'
      · refine ⟨[current], [], fun cs => ?_⟩
        rw [tokenizeFrom, modeAfter, if_pos hquote, if_pos hquote]
        rfl
      · by_cases hslash : c = '\\'
        · refine ⟨[], current, fun cs => ?_⟩
          rw [tokenizeFrom, modeAfter, if_neg hquote, if_neg hquote, if_pos hslash, if_pos hslash]
          rfl
        · refine ⟨[], current ++ [c], fun cs => ?_⟩
          rw [tokenizeFrom, modeAfter, if_neg hquote, if_neg hquote, if_neg hslash, if_neg hslash]
          rfl
  | plain =>
      by_cases hquote : c = '"'
      · refine ⟨[], current, fun cs => ?_⟩
        rw [tokenizeFrom, modeAfter, if_pos hquote, if_pos hquote]
        rfl
      · by_cases hbracket : c = '(' ∨ c = ')'
        · refine ⟨lastWord current ++ [[c]], [], fun cs => ?_⟩
          rw [tokenizeFrom, modeAfter, if_neg hquote, if_neg hquote, if_pos hbracket,
            List.append_assoc]
          rfl
        · by_cases hblank : isWhitespace c = true
          · refine ⟨lastWord current, [], fun cs => ?_⟩
            rw [tokenizeFrom, modeAfter, if_neg hquote, if_neg hquote, if_neg hbracket,
              if_pos hblank]
            rfl
          · refine ⟨[], current ++ [c], fun cs => ?_⟩
            rw [tokenizeFrom, modeAfter, if_neg hquote, if_neg hquote, if_neg hbracket,
              if_neg hblank]
            rfl

theorem modeAfter_append (mode : Mode) (xs ys : List Char) :
    modeAfter mode (xs ++ ys) = modeAfter (modeAfter mode xs) ys := by
  induction xs generalizing mode with
  | nil => cases mode <;> rfl
  | cons c xs ih => cases mode <;> exact ih _

theorem modeAfter_cons (mode : Mode) (c : Char) (cs : List Char) :
    modeAfter mode (c :: cs) = modeAfter (modeAfter mode [c]) cs := modeAfter_append mode [c] cs

/-- Only a quote ends a quoted string. -/
theorem eq_plain_of_modeAfter {c : Char} (hquote : c ≠ '"') (h : modeAfter mode [c] = .plain) :
    mode = .plain := by
  cases mode with
  | plain => rfl
  | escaped => exact nomatch h
  | quoted =>
      rw [modeAfter, if_neg hquote] at h
      split at h <;> exact nomatch h

theorem tokenizeFrom_opening (current rest : List Char) :
    tokenizeFrom current .plain ('(' :: rest) =
      lastWord current ++ ['('] :: tokenizeFrom [] .plain rest := by
  rw [tokenizeFrom, if_neg (by decide), if_pos (Or.inl rfl)]

/-- A text that ends outside quotes ends its last token. -/
theorem tokenizeFrom_endsOutside (rest current : List Char)
    (hlast : text.getLast? = some ' ' ∨ text.getLast? = some '(')
    (hmode : modeAfter mode text = .plain) :
    tokenizeFrom current mode (text ++ rest) =
      tokenizeFrom current mode text ++ tokenizeFrom [] .plain rest := by
  induction text generalizing mode current with
  | nil => exact absurd hlast (by decide)
  | cons c cs ih =>
      cases cs with
      | nil =>
          have hc : c = ' ' ∨ c = '(' := hlast.imp Option.some.inj Option.some.inj
          rcases hc with rfl | rfl
          · obtain rfl := eq_plain_of_modeAfter (by decide) hmode
            rw [List.singleton_append, tokenizeFrom_blank, tokenizeFrom_blank, List.append_assoc]
            rfl
          · obtain rfl := eq_plain_of_modeAfter (by decide) hmode
            rw [List.singleton_append, tokenizeFrom_opening, tokenizeFrom_opening,
              List.append_assoc]
            rfl
      | cons d cs =>
          obtain ⟨tokens, next, hstep⟩ := tokenizeFrom_cons current mode c
          rw [modeAfter_cons] at hmode
          rw [List.getLast?_cons_cons] at hlast
          rw [List.cons_append, hstep, hstep, ih next hlast hmode, List.append_assoc]

theorem tokenizeSearchCriteria_splice {parts : List Part} (h : ∀ p ∈ parts, p.Valid)
    (rest : List Char) :
    tokenizeSearchCriteria (splice parts rest) =
      parts.flatMap (fun p => tokenizeSearchCriteria p.text ++ [p.content]) ++
        tokenizeSearchCriteria rest := by
  induction parts with
  | nil => rfl
  | cons p parts ih =>
      have hp := (h p List.mem_cons_self).endsOutside
      have hrest := ih fun q hq => h q (List.mem_cons_of_mem _ hq)
      unfold tokenizeSearchCriteria at hrest ⊢
      rw [splice, tokenizeFrom_endsOutside _ _ hp.1 hp.2, tokenizeFrom_quote, hrest,
        List.flatMap_cons]
      simp only [List.append_assoc, List.cons_append, List.nil_append]

/-- A blank is neither a quote nor a parenthesis. -/
theorem blank_ne {c : Char} (h : isWhitespace c = true) : c ≠ '"' ∧ ¬(c = '(' ∨ c = ')') := by
  refine ⟨?_, ?_⟩
  · rintro rfl
    exact absurd h (by decide)
  · rintro (rfl | rfl) <;> exact absurd h (by decide)

/-- Blanks leave a quoted string open. -/
theorem modeAfter_blanks (h : ∀ c ∈ blanks, isWhitespace c = true)
    (hmode : modeAfter mode blanks = .plain) : mode = .plain := by
  induction blanks generalizing mode with
  | nil => cases mode <;> first | rfl | exact hmode
  | cons c blanks ih =>
      rw [modeAfter_cons] at hmode
      have hrest := ih (fun d hd => h d (List.mem_cons_of_mem _ hd)) hmode
      exact eq_plain_of_modeAfter (blank_ne (h c List.mem_cons_self)).1 hrest

theorem tokenizeFrom_blanks (current : List Char) (h : ∀ c ∈ blanks, isWhitespace c = true) :
    tokenizeFrom current .plain blanks = lastWord current := by
  induction blanks generalizing current with
  | nil => rfl
  | cons c blanks ih =>
      have hc := h c List.mem_cons_self
      rw [tokenizeFrom, if_neg (blank_ne hc).1, if_neg (blank_ne hc).2, if_pos hc,
        ih [] fun d hd => h d (List.mem_cons_of_mem _ hd)]
      exact List.append_nil _

/-- Blanks after a text that ends outside quotes are no tokens. -/
theorem tokenizeFrom_append_blanks (current : List Char) (hmode : modeAfter mode text = .plain)
    (h : ∀ c ∈ blanks, isWhitespace c = true) :
    tokenizeFrom current mode (text ++ blanks) = tokenizeFrom current mode text := by
  induction text generalizing mode current with
  | nil =>
      obtain rfl : mode = .plain := by cases mode <;> first | rfl | exact hmode
      exact tokenizeFrom_blanks current h
  | cons c cs ih =>
      obtain ⟨tokens, next, hstep⟩ := tokenizeFrom_cons current mode c
      rw [modeAfter_cons] at hmode
      rw [List.cons_append, hstep, hstep, ih next hmode]

/-- **Trimming changes nothing outside quotes.** -/
theorem tokenizeSearchCriteria_trimEnd (h : modeAfter .plain text = .plain) :
    tokenizeSearchCriteria (trimEnd text) = tokenizeSearchCriteria text := by
  have hsplit : trimEnd text ++ text.rtakeWhile isWhitespace = text :=
    List.rdropWhile_append_rtakeWhile
  have hblanks : ∀ c ∈ text.rtakeWhile isWhitespace, isWhitespace c = true :=
    fun c hc => List.mem_rtakeWhile_imp hc
  have hmode : modeAfter .plain (trimEnd text) = .plain := by
    rw [← hsplit, modeAfter_append] at h
    exact modeAfter_blanks hblanks h
  have htokens := tokenizeFrom_append_blanks [] hmode hblanks
  rw [hsplit] at htokens
  exact htokens.symm

end Tokens

/-! ## The loop -/

section Loop

variable {parts : List Part} {rest later : Bytes} {r : Reading} {left : Nat} {front : List Char}
  {m : Marker}

/-- What is spliced is empty or ends with the quote of a literal. -/
def EndsQuoted (front : List Char) : Prop := front = [] ∨ ∃ cs, front = cs ++ ['"']

theorem EndsQuoted.trailingLiteral (h : EndsQuoted front) (rest : List Char) :
    trailingLiteral (front ++ rest) = (trailingLiteral rest).map (Marker.behind front) := by
  rcases h with rfl | ⟨cs, rfl⟩
  · rw [List.nil_append]
    exact (@Option.map_id' _ (Search.trailingLiteral rest)).symm
  · rw [List.append_assoc, List.singleton_append, trailingLiteral_quote]

theorem endsQuoted_quote (cs raw : List Char) : EndsQuoted (cs ++ quoteSearchString raw) := by
  refine .inr
    ⟨cs ++ '"' :: raw.flatMap fun c => if c = '"' ∨ c = '\\' then ['\\', c] else [c], ?_⟩
  rw [quoteSearchString, List.append_assoc, List.cons_append]

/-- One literal is read, and the line after it. -/
theorem readLiterals_step (hm : trailingLiteral r.trimmed = some m)
    (hlen : m.len ≤ maxLineLength - byteLen m.head) {buf line : Bytes} {s s' : Stream}
    (hread : readExact m.len r.stream = some (buf, s))
    (hline : readLineBounded maxLineLength s = (some line, s')) :
    readLiterals (left + 1) r = readLiterals left
      ⟨m.head ++ quoteSearchString (Utf8.fromUtf8Lossy buf) ++ trimEnd (Utf8.fromUtf8Lossy line),
        s', r.written ++ m.prompt⟩ := by
  rw [readLiterals, hm]
  dsimp only
  rw [if_neg (not_lt.2 hlen), hread]
  dsimp only
  rw [hline]

/-- A reading between two literals: the line so far, and what is still to come. -/
structure Reading.Reads (r : Reading) (front : List Char) (parts : List Part)
    (rest later : Bytes) : Prop where
  trimmed : r.trimmed = front ++ lineText parts rest
  stream : whole r.stream = sentAfter parts rest later

theorem Part.Valid.marker_found {p : Part} (hp : p.Valid) (hfront : EndsQuoted front)
    {parts : List Part} (hr : r.Reads front (p :: parts) rest later) :
    Search.trailingLiteral r.trimmed = some ⟨front ++ p.text, p.literal.length, p.nonSync⟩ := by
  rw [hr.trimmed, lineText_cons, hfront.trailingLiteral, hp.trailingLiteral]
  rfl

/-- A literal that fits is read to its last byte. -/
theorem Reading.Reads.readExact {p : Part} (hr : r.Reads front (p :: parts) rest later) :
    ∃ s, readExact p.literal.length r.stream = some (p.literal, s) ∧
      whole s = sentLine parts rest ++ sentAfter parts rest later := by
  have hstream : whole r.stream =
      p.literal ++ (sentLine parts rest ++ sentAfter parts rest later) := hr.stream
  obtain ⟨s, hread, hs⟩ := @readExact_of_le r.stream p.literal.length (by simp [hstream])
  rw [hstream, List.take_left] at hread
  rw [hstream, List.drop_left] at hs
  exact ⟨s, hread, hs⟩

/-- The reading after a literal. -/
theorem reads_spliced (p : Part) (written : List String) {s : Stream}
    (hs : whole s = sentAfter parts rest later) :
    Reading.Reads ⟨front ++ p.text ++ quoteSearchString p.content ++ lineText parts rest, s,
        written ++ Marker.prompt ⟨front ++ p.text, p.literal.length, p.nonSync⟩⟩
      (front ++ p.text ++ quoteSearchString p.content) parts rest later := ⟨rfl, hs⟩

/-- A line that is sent is read, if it fits. -/
theorem readLineBounded_sent {s : Stream} (hparts : ∀ p ∈ parts, p.Valid) (hrest : 10 ∉ rest)
    (hs : whole s = sentLine parts rest ++ sentAfter parts rest later) :
    ∃ s', ((sentLine parts rest).length ≤ maxLineLength →
        readLineBounded maxLineLength s = (some (sentLine parts rest), s') ∧
          whole s' = sentAfter parts rest later) ∧
      (maxLineLength < (sentLine parts rest).length →
        readLineBounded maxLineLength s = (none, s')) := by
  have hnext : Smtp.nextLine s = sentLine parts rest := by
    rw [Smtp.nextLine, hs, firstLine_sentLine hparts hrest]
  refine ⟨(readLineBounded maxLineLength s).2, ?_, ?_⟩
  · intro hline
    obtain ⟨hsome, hdrop⟩ := @readLineBounded_of_le s maxLineLength (by rw [hnext]; exact hline)
    rw [hnext] at hsome hdrop
    rw [hs, List.drop_left] at hdrop
    exact ⟨Prod.ext hsome rfl, hdrop⟩
  · intro hline
    exact Prod.ext (readLineBounded_of_lt (by rw [hnext]; exact hline)) rfl

/-- The literals of a line are read one after the other, if they fit. -/
theorem readLiterals_of_fits (hparts : ∀ p ∈ parts, p.Valid) (hrest : 10 ∉ rest)
    (hlast : trailingLiteral (trimEnd (Utf8.fromUtf8Lossy rest)) = none)
    (hleft : parts.length ≤ left) (hfront : EndsQuoted front) (hr : r.Reads front parts rest later)
    (hfits : Fits rest front parts) :
    ∃ stream, whole stream = later ∧ readLiterals left r =
      (⟨front ++ splice parts (trimEnd (Utf8.fromUtf8Lossy rest)), stream,
        r.written ++ prompts parts⟩, none) := by
  induction parts generalizing left front r with
  | nil =>
      refine ⟨r.stream, hr.stream, ?_⟩
      have htrimmed := hr.trimmed
      rw [lineText_nil] at htrimmed
      have hnone : trailingLiteral r.trimmed = none := by
        rw [htrimmed, hfront.trailingLiteral, hlast, Option.map_none]
      unfold readLiterals
      rw [hnone, splice, ← htrimmed, prompts, List.flatMap_nil, List.append_nil]
  | cons p parts ih =>
      have hp := hparts p List.mem_cons_self
      have hlater : ∀ q ∈ parts, q.Valid := fun q hq => hparts q (List.mem_cons_of_mem _ hq)
      obtain ⟨left, rfl⟩ := Nat.exists_eq_add_one_of_ne_zero (Nat.ne_zero_of_lt hleft)
      obtain ⟨hlen, hline, hfits⟩ := hfits
      obtain ⟨s, hread, hs⟩ := hr.readExact
      obtain ⟨s', hread', -⟩ := readLineBounded_sent hlater hrest hs
      obtain ⟨hsome, hs'⟩ := hread' hline
      rw [readLiterals_step (hp.marker_found hfront hr) hlen hread hsome]
      obtain ⟨stream, hstream, hall⟩ := ih hlater (Nat.le_of_succ_le_succ hleft)
        (endsQuoted_quote (front ++ p.text) p.content) (reads_spliced p r.written hs') hfits
      refine ⟨stream, hstream, hall.trans ?_⟩
      rw [splice, prompts, prompts, List.flatMap_cons]
      simp only [List.append_assoc]
      rfl

/-- With a literal or a line that does not fit, the loop ends with an error. -/
theorem readLiterals_of_not_fits (hparts : ∀ p ∈ parts, p.Valid) (hrest : 10 ∉ rest)
    (hleft : parts.length ≤ left) (hfront : EndsQuoted front) (hr : r.Reads front parts rest later)
    (hfits : ¬Fits rest front parts) : (readLiterals left r).2 ≠ none := by
  induction parts generalizing left front r with
  | nil => exact absurd trivial hfits
  | cons p parts ih =>
      have hp := hparts p List.mem_cons_self
      have hlater : ∀ q ∈ parts, q.Valid := fun q hq => hparts q (List.mem_cons_of_mem _ hq)
      obtain ⟨left, rfl⟩ := Nat.exists_eq_add_one_of_ne_zero (Nat.ne_zero_of_lt hleft)
      have hm := hp.marker_found hfront hr
      by_cases hlen : p.literal.length ≤ maxLineLength - byteLen (front ++ p.text)
      · obtain ⟨s, hread, hs⟩ := hr.readExact
        obtain ⟨s', hread', hlong⟩ := readLineBounded_sent hlater hrest hs
        by_cases hline : (sentLine parts rest).length ≤ maxLineLength
        · obtain ⟨hsome, hs'⟩ := hread' hline
          rw [readLiterals_step hm hlen hread hsome]
          exact ih hlater (Nat.le_of_succ_le_succ hleft)
            (endsQuoted_quote (front ++ p.text) p.content) (reads_spliced p r.written hs')
            fun hrest => hfits ⟨hlen, hline, hrest⟩
        · rw [readLiterals, hm]
          dsimp only
          rw [if_neg (not_lt.2 hlen), hread]
          dsimp only
          rw [hlong (not_le.1 hline)]
          exact nofun
      · rw [readLiterals, hm]
        dsimp only
        rw [if_pos (not_le.1 hlen)]
        exact nofun

end Loop

/-! ## Commands -/

/-- No line of a command and no literal is too long. -/
structure LineFits (parts : List Part) (rest : Bytes) : Prop where
  line : (sentLine parts rest).length ≤ maxLineLength
  text : byteLen (Utf8.fromUtf8Lossy (sentLine parts rest)) ≤ maxLineLength
  literals : Fits rest [] parts

section Commands

variable {parts : List Part} {rest later : Bytes} {s : Stream}

theorem sentLine_ne_nil (parts : List Part) (rest : Bytes) : sentLine parts rest ≠ [] := by
  cases parts <;> exact List.append_ne_nil_of_right_ne_nil _ (List.cons_ne_nil _ _)

/-- A search that fits is spliced, and read to its end. -/
theorem readCommand_of_fits (hparts : ∀ p ∈ parts, p.Valid) (hrest : 10 ∉ rest)
    (hlast : trailingLiteral (trimEnd (Utf8.fromUtf8Lossy rest)) = none)
    (hlen : parts.length ≤ maxSearchLiterals)
    (hsearch : isSearchCommand (lineText parts rest) = true)
    (hs : whole s = sentLine parts rest ++ sentAfter parts rest later)
    (hfits : LineFits parts rest) :
    ∃ stream, whole stream = later ∧ readCommand true s =
      (.command (splice parts (trimEnd (Utf8.fromUtf8Lossy rest))), stream, prompts parts) := by
  obtain ⟨s', hread, -⟩ := readLineBounded_sent hparts hrest hs
  obtain ⟨hline, hs'⟩ := hread hfits.line
  have htext := hfits.text
  obtain ⟨b, bytes, hcons⟩ := List.exists_cons_of_ne_nil (sentLine_ne_nil parts rest)
  rw [lineText] at hsearch
  obtain ⟨stream, hstream, hall⟩ := @readLiterals_of_fits parts rest later
    ⟨lineText parts rest, s', []⟩ maxSearchLiterals [] hparts hrest hlast hlen (.inl rfl)
    ⟨rfl, hs'⟩ hfits.literals
  refine ⟨stream, hstream, ?_⟩
  rw [lineText] at hall
  rw [hcons] at hline htext hsearch hall
  rw [readCommand, hline]
  dsimp only
  rw [if_neg (not_lt.2 htext), hsearch, Bool.true_and, if_pos rfl, hall]
  rfl

/-- A search that does not fit is no command. -/
theorem readCommand_of_not_fits (hparts : ∀ p ∈ parts, p.Valid) (hrest : 10 ∉ rest)
    (hlen : parts.length ≤ maxSearchLiterals)
    (hsearch : isSearchCommand (lineText parts rest) = true)
    (hs : whole s = sentLine parts rest ++ sentAfter parts rest later)
    (hfits : ¬LineFits parts rest) (line : List Char) : (readCommand true s).1 ≠ .command line := by
  obtain ⟨s', hread, hlong⟩ := readLineBounded_sent hparts hrest hs
  by_cases hline : (sentLine parts rest).length ≤ maxLineLength
  · obtain ⟨hsome, hs'⟩ := hread hline
    obtain ⟨b, bytes, hcons⟩ := List.exists_cons_of_ne_nil (sentLine_ne_nil parts rest)
    by_cases htext : byteLen (Utf8.fromUtf8Lossy (sentLine parts rest)) ≤ maxLineLength
    · have hnot := @readLiterals_of_not_fits parts rest later ⟨lineText parts rest, s', []⟩
        maxSearchLiterals [] hparts hrest hlen (.inl rfl) ⟨rfl, hs'⟩
        fun hliterals => hfits ⟨hline, htext, hliterals⟩
      rw [lineText] at hnot hsearch
      rw [hcons] at hsome htext hsearch hnot
      rw [readCommand, hsome]
      dsimp only
      rw [if_neg (not_lt.2 htext), hsearch, Bool.true_and, if_pos rfl]
      cases hloop : readLiterals maxSearchLiterals
          ⟨trimEnd (Utf8.fromUtf8Lossy (b :: bytes)), s', []⟩ with
      | mk r error =>
          cases error with
          | none => exact absurd (by rw [hloop]) hnot
          | some error => exact nofun
    · rw [hcons] at hsome htext
      rw [readCommand, hsome]
      dsimp only
      rw [if_pos (not_le.1 htext)]
      exact nofun
  · rw [readCommand, hlong (not_le.1 hline)]
    exact nofun

end Commands

end AsterBridge.Imap.Search
