import AsterBridge.Render.LineBreaks

/-!
# Replies of several lines

`wire_lines`, `retr_response` and `top_response` of `pop3/server.rs`. A text is split at
every CR, LF and CRLF, and a client that removes the stuffing has the same lines.
-/

set_option autoImplicit false

namespace AsterBridge.Pop3

open AsterBridge.Lib AsterBridge.Lib.Lines AsterBridge.Render

/-! ## The source -/

/-- The loop of `wire_lines`; `line` is the text since `start`. -/
def wireLoop (line : List Char) : List Char → List (List Char)
  | '\r' :: '\n' :: rest => line :: wireLoop [] rest
  | '\r' :: rest => line :: wireLoop [] rest
  | '\n' :: rest => line :: wireLoop [] rest
  | c :: rest => wireLoop (line ++ [c]) rest
  | [] => if line = [] then [] else [line]

/-- `wire_lines` -/
def wireLines (text : List Char) : List (List Char) := wireLoop [] text

/-- `push_wire_line` -/
def pushWireLine (out line : List Char) : List Char :=
  (if line.head? = some '.' then out ++ ['.'] else out) ++ line ++ crlf

/-- The octets that `retr_response` announces. -/
def retrOctets (text : List Char) : Nat := ((wireLines text).map fun l => utf8Len l + 2).sum

/-- The first line of `retr_response`. -/
def retrStatus (text : List Char) : List Char :=
  "+OK ".toList ++ (toString (retrOctets text)).toList ++ " octets".toList

/-- `retr_response` -/
def retrResponse (text : List Char) : List Char :=
  (wireLines text).foldl pushWireLine (retrStatus text ++ crlf) ++ '.' :: crlf

/-- `top_response` -/
def topResponse (text : List Char) (lineCount : Nat) : List Char :=
  let lines := wireLines text
  let headerEnd := (lines.findIdx? (· = [])).getD lines.length
  let out := (lines.take headerEnd).foldl pushWireLine ("+OK".toList ++ crlf)
  let out := out ++ crlf
  ((lines.drop (headerEnd + 1)).take lineCount).foldl pushWireLine out ++ '.' :: crlf

/-! ## Lines of a text -/

/-- What `wire_lines` adds to a last line without a break. -/
def finish (text : List Char) : List Char :=
  if text.getLast? = none ∨ text.getLast? = some '\r' ∨ text.getLast? = some '\n' then []
  else crlf

section Lines

variable {line text : List Char}

theorem finish_break {c : Char} (hc : c = '\r' ∨ c = '\n') (s t : List Char) :
    finish (s ++ c :: t) = finish t := by
  cases t with
  | nil =>
      rw [finish, List.getLast?_concat, if_pos]
      · rfl
      · exact Or.inr (hc.imp (congrArg some) (congrArg some))
  | cons d t => rw [finish, finish, List.append_cons, List.getLast?_append_of_ne_nil _ (by simp)]

theorem finish_of_noBreak (h : NoBreak line) (hne : line ≠ []) : finish line = crlf := by
  rw [finish, if_neg]
  rintro (hnone | hcr | hlf)
  · exact hne (List.getLast?_eq_none_iff.1 hnone)
  · exact (h _ (List.mem_of_getLast? hcr)).1 rfl
  · exact (h _ (List.mem_of_getLast? hlf)).2 rfl

theorem noBreak_of_mem_wireLoop (h : NoBreak line) :
    ∀ l ∈ wireLoop line text, NoBreak l := by
  fun_induction wireLoop line text with
  | case1 line rest ih =>
      intro l hl
      rcases List.mem_cons.1 hl with rfl | hl
      · exact h
      · exact ih noBreak_nil l hl
  | case2 line rest hrest ih =>
      intro l hl
      rcases List.mem_cons.1 hl with rfl | hl
      · exact h
      · exact ih noBreak_nil l hl
  | case3 line rest ih =>
      intro l hl
      rcases List.mem_cons.1 hl with rfl | hl
      · exact h
      · exact ih noBreak_nil l hl
  | case4 line c rest hcrlf hcr hlf ih =>
      exact ih (h.append (noBreak_nil.cons ⟨hcr, hlf⟩))
  | case5 =>
      exact fun l hl => absurd hl List.not_mem_nil
  | case6 line hne =>
      intro l hl
      rw [List.mem_singleton.1 hl]
      exact h

/-- No line of a text has a break. -/
theorem noBreak_of_mem_wireLines {l : List Char} (h : l ∈ wireLines text) : NoBreak l :=
  noBreak_of_mem_wireLoop noBreak_nil l h

/-- The lines with their CRLF make the text with its breaks as CRLF, and with one more where
the last line has none. -/
theorem joined_wireLoop (h : NoBreak line) :
    joined (wireLoop line text) = line ++ toCrlf text ++ finish (line ++ text) := by
  fun_induction wireLoop line text with
  | case1 line rest ih =>
      rw [joined_cons, ih noBreak_nil, List.append_cons, finish_break (Or.inr rfl), toCrlf]
      simp [crlf]
  | case2 line rest hrest ih =>
      rw [joined_cons, ih noBreak_nil, finish_break (Or.inl rfl), toCrlf]
      · simp [crlf]
      · exact hrest
  | case3 line rest ih =>
      rw [joined_cons, ih noBreak_nil, finish_break (Or.inr rfl), toCrlf]
      simp [crlf]
  | case4 line c rest hcrlf hcr hlf ih =>
      rw [ih (h.append (noBreak_nil.cons ⟨hcr, hlf⟩)), toCrlf_cons_of_plain ⟨hcr, hlf⟩]
      simp
  | case5 => rfl
  | case6 line hne =>
      rw [List.append_nil, finish_of_noBreak h hne, toCrlf, List.append_nil, joined_cons,
        joined_nil, List.append_nil]

/-- The lines of a text with their CRLF. -/
theorem joined_wireLines (text : List Char) :
    joined (wireLines text) = toCrlf text ++ finish text :=
  joined_wireLoop noBreak_nil

/-- The announced octets are those of the lines. -/
theorem retrOctets_eq (text : List Char) : retrOctets text = utf8Len (joined (wireLines text)) := by
  have hcrlf : utf8Len crlf = 2 := rfl
  rw [retrOctets, joined, utf8Len_flatMap]
  simp only [utf8Len_append, hcrlf]

theorem clean_joined {lines : List (List Char)} (h : ∀ l ∈ lines, NoBreak l) :
    Clean (joined lines) := by
  induction lines with
  | nil => exact clean_nil
  | cons l lines ih =>
      exact ((clean_of_noBreak (h l List.mem_cons_self)).append clean_crlf).append
        (ih fun l' hl => h l' (List.mem_cons_of_mem _ hl))

end Lines

/-! ## Replies -/

section Replies

variable {text : List Char}

theorem foldl_pushWireLine (out : List Char) (lines : List (List Char)) :
    lines.foldl pushWireLine out = out ++ joined (lines.map stuff) := by
  induction lines generalizing out with
  | nil => exact (List.append_nil out).symm
  | cons line lines ih =>
      have hpush : pushWireLine out line = out ++ (stuff line ++ crlf) := by
        unfold pushWireLine stuff
        split
        · simp
        · simp
      rw [List.foldl_cons, ih, hpush, List.map_cons, joined_cons, List.append_assoc]

theorem noBreak_retrStatus (text : List Char) : NoBreak (retrStatus text) :=
  ((by decide : NoBreak "+OK ".toList).append (noBreak_toString _)).append (by decide)

/-- `retr_response` stuffs the lines of the text. -/
theorem retrResponse_eq (text : List Char) : retrResponse text =
    joined (retrStatus text :: (wireLines text).map stuff ++ [['.']]) := by
  rw [retrResponse, foldl_pushWireLine, joined_append, joined_cons, joined_cons, joined_nil,
    List.append_nil]
  rfl

/-- The lines that TOP shows: the header, an empty line and the first lines after it. -/
def topLines (text : List Char) (lineCount : Nat) : List (List Char) :=
  let lines := wireLines text
  let header := lines.takeWhile (· ≠ [])
  header ++ [[]] ++ (lines.drop (header.length + 1)).take lineCount

/-- The end of the header is the number of lines before the first empty one. -/
theorem headerEnd_eq (lines : List (List Char)) :
    (lines.findIdx? (· = [])).getD lines.length = (lines.takeWhile (· ≠ [])).length := by
  have hindex : (lines.takeWhile (· ≠ [])).length = lines.findIdx (· = []) := by
    rw [List.takeWhile_eq_take_findIdx_not, List.length_take,
      Nat.min_eq_left List.findIdx_le_length]
    simp only [decide_not, Bool.not_not]
  rw [hindex]
  cases hfind : lines.findIdx? (· = []) with
  | none => exact (List.findIdx?_eq_none_iff_findIdx_eq.1 hfind).symm
  | some i => exact (List.findIdx?_eq_some_iff_findIdx_eq.1 hfind).2.symm

/-- `top_response` stuffs the lines that it shows. -/
theorem topResponse_eq (text : List Char) (lineCount : Nat) : topResponse text lineCount =
    joined ("+OK".toList :: (topLines text lineCount).map stuff ++ [['.']]) := by
  have hheader : (wireLines text).take ((wireLines text).takeWhile (· ≠ [])).length =
      (wireLines text).takeWhile (· ≠ []) :=
    List.prefix_iff_eq_take.1 (List.takeWhile_prefix _) |>.symm
  have hempty : stuff [] = [] := rfl
  have hjoined : ∀ a b : List (List Char), joined ("+OK".toList :: (a ++ [[]] ++ b).map stuff ++
      [['.']]) = "+OK".toList ++ crlf ++ joined (a.map stuff) ++ crlf ++ joined (b.map stuff) ++
        '.' :: crlf := by
    intro a b
    rw [List.map_append, List.map_append, List.map_singleton, hempty, joined_append, joined_cons,
      joined_append, joined_append, joined_cons, joined_cons, joined_nil]
    simp only [List.append_assoc, List.nil_append, List.append_nil, List.cons_append]
  unfold topResponse topLines
  dsimp only
  rw [foldl_pushWireLine, foldl_pushWireLine, headerEnd_eq, hheader, hjoined]

/-- A reply has a status line, stuffed lines and the line that ends it. -/
theorem clean_reply {status : List Char} {lines : List (List Char)} (hstatus : NoBreak status)
    (h : ∀ l ∈ lines, NoBreak l) : Clean (joined (status :: lines.map stuff ++ [['.']])) := by
  apply clean_joined
  intro l hl
  simp only [List.cons_append, List.mem_cons, List.mem_append, List.mem_map, List.not_mem_nil,
    or_false] at hl
  rcases hl with rfl | ⟨line, hline, rfl⟩ | rfl
  · exact hstatus
  · exact (h line hline).stuff
  · decide

theorem noBreak_of_mem_topLines {l : List Char} {lineCount : Nat}
    (h : l ∈ topLines text lineCount) : NoBreak l := by
  simp only [topLines, List.mem_append, List.mem_singleton] at h
  rcases h with (hheader | rfl) | hbody
  · exact noBreak_of_mem_wireLines ((List.takeWhile_prefix _).subset hheader)
  · exact noBreak_nil
  · exact noBreak_of_mem_wireLines (List.mem_of_mem_drop (List.mem_of_mem_take hbody))

/-- A client of RETR has the lines of the text. -/
theorem replyLines_retr (text : List Char) : replyLines (retrResponse text) = wireLines text := by
  rw [retrResponse_eq, replyLines_reply (noBreak_retrStatus text) fun _ => noBreak_of_mem_wireLines]

/-- A client of TOP has the lines that it shows. -/
theorem replyLines_top (text : List Char) (lineCount : Nat) :
    replyLines (topResponse text lineCount) = topLines text lineCount := by
  rw [topResponse_eq, replyLines_reply (by decide) fun _ => noBreak_of_mem_topLines]

theorem retr_framed (text : List Char) : Framed (retrResponse text) := by
  rw [retrResponse_eq]
  apply framed_reply (noBreak_retrStatus text) _ fun _ => noBreak_of_mem_wireLines
  intro hdot
  exact absurd (List.cons.inj hdot).1 (by decide)

theorem top_framed (text : List Char) (lineCount : Nat) : Framed (topResponse text lineCount) := by
  rw [topResponse_eq]
  exact framed_reply (by decide) (by decide) fun _ => noBreak_of_mem_topLines

end Replies

end AsterBridge.Pop3
