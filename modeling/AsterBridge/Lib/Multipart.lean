import AsterBridge.Lib.Lines

/-!
# Multipart texts

Texts of headers, an empty line and a body, and bodies in parts: a line of two hyphens and a
boundary stands before each part, and one with two more hyphens after the last. The CRLF before such
a line belongs to it.
-/

set_option autoImplicit false

namespace AsterBridge.Lib.Multipart

open AsterBridge.Lib.Lines

/-- What stands between two CRLFs. -/
abbrev Line := List Char

/-! ## Pieces of a text -/

/-- What stands before, between and after the CRLFs of a text. -/
def pieces : List Char → List Line
  | [] => [[]]
  | '\r' :: '\n' :: rest => [] :: pieces rest
  | c :: rest => (pieces rest).modifyHead (c :: ·)

section Pieces

variable {s : List Char} {c : Char}

theorem pieces_ne_nil (s : List Char) : pieces s ≠ [] := by
  fun_induction pieces s with
  | case1 => exact List.cons_ne_nil _ _
  | case2 rest ih => exact List.cons_ne_nil _ _
  | case3 c rest hcrlf ih =>
      obtain ⟨line, lines, hlines⟩ := List.exists_cons_of_ne_nil ih
      rw [hlines]
      exact List.cons_ne_nil _ _

theorem pieces_crlf (s : List Char) : pieces (crlf ++ s) = [] :: pieces s := by
  rw [crlf, List.cons_append, List.cons_append, List.nil_append, pieces]

theorem pieces_cons (h : c = '\r' → s.head? ≠ some '\n') :
    pieces (c :: s) = (pieces s).modifyHead (c :: ·) := by
  rw [pieces]
  rintro rest rfl rfl
  exact h rfl rfl

/-- **A CRLF between two texts** gives the pieces of both. -/
theorem pieces_append (s t : List Char) : pieces (s ++ (crlf ++ t)) = pieces s ++ pieces t := by
  fun_induction pieces s with
  | case1 => exact pieces_crlf t
  | case2 rest ih => rw [List.cons_append, List.cons_append, pieces, ih, List.cons_append]
  | case3 c rest hcrlf ih =>
      have hhead : c = '\r' → (rest ++ (crlf ++ t)).head? ≠ some '\n' := by
        intro hc
        cases rest with
        | nil => exact fun hd => absurd (Option.some.inj hd) (by decide)
        | cons d rest => exact fun hd => hcrlf rest hc (by rw [Option.some.inj hd])
      obtain ⟨line, lines, hlines⟩ := List.exists_cons_of_ne_nil (pieces_ne_nil rest)
      rw [List.cons_append, pieces_cons hhead, ih, hlines]
      rfl

theorem pieces_of_noBreak (h : NoBreak s) : pieces s = [s] := by
  induction s with
  | nil => rfl
  | cons c s ih =>
      have hc := h c List.mem_cons_self
      rw [pieces_cons fun hcr => absurd hcr hc.1, ih h.tail]
      rfl

/-- Lines with their CRLFs, and a text after them. -/
theorem pieces_joined {lines : List Line} (h : ∀ line ∈ lines, NoBreak line) (t : List Char) :
    pieces (joined lines ++ t) = lines ++ pieces t := by
  induction lines with
  | nil => rfl
  | cons line lines ih =>
      rw [joined_cons, List.append_assoc, List.append_assoc, pieces_append,
        pieces_of_noBreak (h line List.mem_cons_self),
        ih fun l hl => h l (List.mem_cons_of_mem _ hl)]
      rfl

/-- The pieces make the text again. -/
theorem intercalate_pieces (s : List Char) : crlf.intercalate (pieces s) = s := by
  fun_induction pieces s with
  | case1 => rfl
  | case2 rest ih =>
      obtain ⟨line, lines, hlines⟩ := List.exists_cons_of_ne_nil (pieces_ne_nil rest)
      rw [hlines] at ih ⊢
      rw [List.intercalate_cons_cons, ih]
      rfl
  | case3 c rest hcrlf ih =>
      obtain ⟨line, lines, hlines⟩ := List.exists_cons_of_ne_nil (pieces_ne_nil rest)
      rw [hlines] at ih ⊢
      rw [List.modifyHead_cons]
      cases lines with
      | nil =>
          rw [List.intercalate_singleton] at ih ⊢
          rw [ih]
      | cons next lines =>
          rw [List.intercalate_cons_cons] at ih ⊢
          rw [List.cons_append, List.cons_append, ih]

end Pieces

/-! ## Headers and bodies -/

/-- The lines before the first empty one. -/
def headerLines (lines : List Line) : List Line := lines.takeWhile (· ≠ [])

/-- The lines after the first empty one. -/
def bodyLines (lines : List Line) : List Line := (lines.dropWhile (· ≠ [])).drop 1

section Bodies

variable {headers : List Line}

theorem headerLines_append (h : ∀ line ∈ headers, line ≠ []) (body : List Line) :
    headerLines (headers ++ [] :: body) = headers := by
  have hall : ∀ line ∈ headers, decide (line ≠ []) = true := fun l hl => decide_eq_true (h l hl)
  rw [headerLines, List.takeWhile_append_of_pos hall, List.takeWhile_cons_of_neg (by decide),
    List.append_nil]

theorem bodyLines_append (h : ∀ line ∈ headers, line ≠ []) (body : List Line) :
    bodyLines (headers ++ [] :: body) = body := by
  have hall : ∀ line ∈ headers, decide (line ≠ []) = true := fun l hl => decide_eq_true (h l hl)
  rw [bodyLines, List.dropWhile_append_of_pos hall, List.dropWhile_cons_of_neg (by decide)]
  rfl

end Bodies

/-! ## Parts -/

/-- The line before a part. -/
def opening (boundary : List Char) : Line := "--".toList ++ boundary

/-- The line after the last part. -/
def closing (boundary : List Char) : Line := opening boundary ++ "--".toList

/-- A line that ends a part. -/
def isDelimiter (boundary : List Char) (line : Line) : Bool := (opening boundary).isPrefixOf line

/-- A line that ends the last part. -/
def isClosing (boundary : List Char) (line : Line) : Bool := (closing boundary).isPrefixOf line

/-- The parts of the rest of a body; before the first part, there is no part that is read. -/
def partsFrom (boundary : List Char) : Option (List Line) → List Line → List (List Line)
  | none, [] => []
  | some part, [] => [part]
  | none, line :: lines =>
      if isDelimiter boundary line then
        if isClosing boundary line then [] else partsFrom boundary (some []) lines
      else partsFrom boundary none lines
  | some part, line :: lines =>
      if isDelimiter boundary line then
        part :: if isClosing boundary line then [] else partsFrom boundary (some []) lines
      else partsFrom boundary (some (part ++ [line])) lines

/-- The parts of a body. -/
def partsOf (boundary : List Char) (lines : List Line) : List (List Line) :=
  partsFrom boundary none lines

/-- The headers and the body of each part that has no parts itself, where every boundary is looked
for in the parts of the one before. -/
def leaves : List (List Char) → List Line → List (List Line × List Line)
  | [], lines => [(headerLines lines, bodyLines lines)]
  | boundary :: boundaries, lines =>
      if (bodyLines lines).any (isDelimiter boundary) then
        (partsOf boundary (bodyLines lines)).flatMap (leaves boundaries)
      else leaves boundaries lines

section Parts

variable {boundary : List Char} {part : List Line} {parts : List (List Line)}

theorem isDelimiter_opening (boundary : List Char) :
    isDelimiter boundary (opening boundary) = true := List.isPrefixOf_iff_prefix.2 List.prefix_rfl

theorem isDelimiter_closing (boundary : List Char) :
    isDelimiter boundary (closing boundary) = true :=
  List.isPrefixOf_iff_prefix.2 (List.prefix_append _ _)

theorem isClosing_closing (boundary : List Char) : isClosing boundary (closing boundary) = true :=
  List.isPrefixOf_iff_prefix.2 List.prefix_rfl

theorem isClosing_opening (boundary : List Char) :
    isClosing boundary (opening boundary) = false := by
  rw [← Bool.not_eq_true]
  intro h
  have hlen := (List.isPrefixOf_iff_prefix.1 h).length_le
  rw [closing, List.length_append] at hlen
  exact absurd hlen (Nat.not_le.2 (Nat.lt_add_of_pos_right (by decide)))

/-- The lines of a part are read up to the next boundary line. -/
theorem partsFrom_append (h : ∀ line ∈ part, isDelimiter boundary line = false)
    (read rest : List Line) :
    partsFrom boundary (some read) (part ++ rest) =
      partsFrom boundary (some (read ++ part)) rest := by
  induction part generalizing read with
  | nil => rw [List.nil_append, List.append_nil]
  | cons line part ih =>
      rw [List.cons_append, partsFrom, h line List.mem_cons_self, if_neg Bool.false_ne_true,
        ih fun l hl => h l (List.mem_cons_of_mem _ hl), List.append_assoc, List.singleton_append]

theorem partsFrom_written (h : ∀ part ∈ parts, ∀ line ∈ part, isDelimiter boundary line = false)
    (read rest : List Line) :
    partsFrom boundary (some read)
        (parts.flatMap (opening boundary :: ·) ++ closing boundary :: rest) = read :: parts := by
  induction parts generalizing read with
  | nil =>
      rw [List.flatMap_nil, List.nil_append, partsFrom, isDelimiter_closing, if_pos rfl,
        isClosing_closing, if_pos rfl]
  | cons part parts ih =>
      have hpart := h part List.mem_cons_self
      rw [List.flatMap_cons, List.append_assoc, List.cons_append, partsFrom, isDelimiter_opening,
        if_pos rfl, isClosing_opening, if_neg Bool.false_ne_true, partsFrom_append hpart,
        List.nil_append, ih fun p hp => h p (List.mem_cons_of_mem _ hp)]

/-- **Parts that are written are read**, if no line of them is a boundary line. -/
theorem partsOf_written (h : ∀ part ∈ parts, ∀ line ∈ part, isDelimiter boundary line = false)
    (rest : List Line) :
    partsOf boundary (parts.flatMap (opening boundary :: ·) ++ closing boundary :: rest) =
      parts := by
  cases parts with
  | nil =>
      rw [List.flatMap_nil, List.nil_append, partsOf, partsFrom, isDelimiter_closing, if_pos rfl,
        isClosing_closing, if_pos rfl]
  | cons part parts =>
      have hpart := h part List.mem_cons_self
      rw [List.flatMap_cons, List.append_assoc, List.cons_append, partsOf, partsFrom,
        isDelimiter_opening, if_pos rfl, isClosing_opening, if_neg Bool.false_ne_true,
        partsFrom_append hpart, List.nil_append,
        partsFrom_written fun p hp => h p (List.mem_cons_of_mem _ hp)]

/-- A text without boundary lines in its body is one leaf. -/
theorem leaves_of_no_delimiter {boundaries : List (List Char)} {lines : List Line}
    (h : ∀ boundary ∈ boundaries, ∀ line ∈ bodyLines lines, isDelimiter boundary line = false) :
    leaves boundaries lines = [(headerLines lines, bodyLines lines)] := by
  induction boundaries with
  | nil => rfl
  | cons boundary boundaries ih =>
      have hnone : (bodyLines lines).any (isDelimiter boundary) = false := by
        rw [List.any_eq_false]
        intro line hline
        rw [h boundary List.mem_cons_self line hline]
        exact Bool.false_ne_true
      rw [leaves, hnone, if_neg Bool.false_ne_true, ih fun b hb => h b (List.mem_cons_of_mem _ hb)]

/-- The leaves of a text in parts are those of the parts. -/
theorem leaves_written {boundaries : List (List Char)} {headers : List Line}
    (hheaders : ∀ line ∈ headers, line ≠ [])
    (h : ∀ part ∈ parts, ∀ line ∈ part, isDelimiter boundary line = false) (rest : List Line) :
    leaves (boundary :: boundaries) (headers ++ [] ::
        (parts.flatMap (opening boundary :: ·) ++ closing boundary :: rest)) =
      parts.flatMap (leaves boundaries) := by
  rw [leaves, bodyLines_append hheaders, if_pos, partsOf_written h]
  rw [List.any_append, List.any_cons, isDelimiter_closing, Bool.true_or, Bool.or_true]

end Parts

end AsterBridge.Lib.Multipart
