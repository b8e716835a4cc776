import AsterBridge.Imap.SearchLiterals

/-!
# The shortcuts of SEARCH

The messages of a search are loaded without their text when `search_needs_body` finds no token that
asks for it. Literals become quoted strings before the criteria are read.
-/

set_option autoImplicit false

namespace AsterBridge.Imap.Search

open AsterBridge.Lib AsterBridge.Lib.Text AsterBridge.Lib.Pieces
open AsterBridge.Smtp (Bytes Stream)

/-! ## Searches without the body -/

/-- `search_needs_body` -/
def searchNeedsBody (criteria : List Char) : Bool :=
  (tokenizeSearchCriteria criteria).any fun t => t = "BODY".toList || t = "TEXT".toList

/-- The message as it is loaded for a search that does not need its text. -/
def Target.withoutBody (t : Target) : Target := { t with msg := { t.msg with bodyText := none } }

/-- No token asks for the text of a message. -/
def NoBody (tokens : List (List Char)) : Prop :=
  ∀ token ∈ tokens, token ≠ ArgKey.body.name.toList ∧ token ≠ ArgKey.text.name.toList

section Body

variable {x : SearchCrates} {t : Target} {eval eval' : Reader → Evaluated}
  {tokens : List (List Char)} {token : List Char}

theorem noBody_of_suffix {rest : List (List Char)} (h : NoBody tokens) (hs : rest <:+ tokens) :
    NoBody rest := fun token hmem => h token (hs.subset hmem)

/-- A token has the name of its criterion. -/
theorem name_of_criterionOf {c : Criterion} (h : criterionOf token = some c) :
    c.name.toList = token := by
  exact of_decide_eq_true
    (List.find?_some (p := fun c : Criterion => decide (c.name.toList = token)) h)

/-- Every criterion with an argument but `BODY` and `TEXT` leaves the text of a message alone. -/
theorem ArgKey.holds_withoutBody {key : ArgKey} (hbody : key ≠ .body) (htext : key ≠ .text)
    (arg : Option (List Char)) : key.holds x t.withoutBody arg = key.holds x t arg := by
  cases key with
  | body => exact absurd rfl hbody
  | text => exact absurd rfl htext
  | _ => rfl

/-- Two evaluations agree where no token asks for the text. -/
def AgreeWithoutBody (eval eval' : Reader → Evaluated) : Prop :=
  ∀ r, NoBody r.rest → eval r = eval' r

theorem andThen_agree {e : Evaluated} (hrest : NoBody tokens) (hs : e.1.rest <:+ tokens)
    {f f' : Reader → Bool → Evaluated} (hf : ∀ r v, NoBody r.rest → f r v = f' r v) :
    e.andThen f = e.andThen f' := by
  obtain ⟨r, v⟩ := e
  cases v with
  | none => rfl
  | some v => exact hf r v (noBody_of_suffix hrest hs)

theorem searchList_agree (h : AgreeWithoutBody eval eval') (hs : Consumes eval') (fuel : Nat)
    (result : Bool) (r : Reader) (hr : NoBody r.rest) :
    searchList eval fuel result r = searchList eval' fuel result r := by
  induction fuel generalizing result r with
  | zero => rfl
  | succ fuel ih =>
      unfold searchList
      split
      · rfl
      · split
        · rfl
        · rw [h r hr]
          exact andThen_agree hr (hs r).1 fun r v hr => ih _ r hr

theorem searchAll_agree (h : AgreeWithoutBody eval eval') (hs : Consumes eval') (fuel : Nat)
    (matched : Bool) (r : Reader) (hr : NoBody r.rest) :
    searchAll eval fuel matched r = searchAll eval' fuel matched r := by
  induction fuel generalizing matched r with
  | zero => rfl
  | succ fuel ih =>
      unfold searchAll
      split
      · rfl
      · rw [h r hr]
        exact andThen_agree hr (hs r).1 fun r v hr => ih _ r hr

/-- Where no token asks for the text, the evaluator does not read it. -/
theorem searchEval_withoutBody (levels : Nat) :
    AgreeWithoutBody (searchEval x t.withoutBody levels) (searchEval x t levels) := by
  induction levels with
  | zero => exact fun _ _ => rfl
  | succ levels ih =>
      intro r hr
      have hs := searchEval_consumes (x := x) (t := t) levels
      unfold searchEval
      cases hrest : r.rest with
      | nil => rfl
      | cons token rest =>
          dsimp only
          rw [hrest] at hr
          have htail : NoBody rest := noBody_of_suffix hr (List.suffix_cons _ _)
          cases hc : criterionOf token with
          | none => rfl
          | some criterion =>
              have hname := name_of_criterionOf hc
              cases criterion with
              | opening => exact searchList_agree ih hs _ _ _ htail
              | closing => rfl
              | flag key => rfl
              | header => rfl
              | uid => rfl
              | arg key =>
                  obtain ⟨hbody, htext⟩ := hr token List.mem_cons_self
                  have hkey : key ≠ .body ∧ key ≠ .text :=
                    ⟨fun h => hbody (h ▸ hname).symm, fun h => htext (h ▸ hname).symm⟩
                  exact congrArg (fun v => (_, some v)) (ArgKey.holds_withoutBody hkey.1 hkey.2 _)
              | not =>
                  dsimp only
                  rw [ih _ htail]
              | or =>
                  dsimp only
                  rw [ih _ htail]
                  refine andThen_agree htail (hs _).1 fun r v hr => ?_
                  rw [ih r hr]

/-- A search that needs no text gives the same without it. -/
theorem searchMatchesNoting_withoutBody {criteria : List Char}
    (h : searchNeedsBody criteria = false) (u : Option (List Char)) :
    searchMatchesNoting x t.withoutBody criteria u = searchMatchesNoting x t criteria u := by
  have htokens : NoBody (tokenizeSearchCriteria criteria) := by
    intro token hmem
    have hnot := List.any_eq_false.1 h token hmem
    rw [Bool.or_eq_true, not_or, decide_eq_true_eq, decide_eq_true_eq] at hnot
    exact hnot
  unfold searchMatchesNoting
  dsimp only
  rw [searchAll_agree (searchEval_withoutBody _) (searchEval_consumes _) _ _ _ htokens]

end Body

/-! ## The shortcuts -/

/-- **The shortcuts of SEARCH change nothing.** A search that names neither `BODY` nor `TEXT` gives
the same without the text of the message. A search in pieces is refused when it does not fit, or
else becomes a line with the tokens of its texts and one token for each literal, after which the
bytes that follow are still to be read; no marker is found before the end of a literal, and what is
trimmed off the last text is no token, unless a quoted string is open there. -/
theorem search_shortcuts_change_nothing (x : SearchCrates) :
    (∀ (t : Target) (criteria : List Char) (u : Option (List Char)),
      searchNeedsBody criteria = false →
      searchMatchesNoting x t.withoutBody criteria u = searchMatchesNoting x t criteria u) ∧
    (∀ (parts : List Part) (rest later : Bytes) (s : Stream),
      (∀ p ∈ parts, p.Valid) → 10 ∉ rest →
      trailingLiteral (trimEnd (Utf8.fromUtf8Lossy rest)) = none →
      parts.length ≤ maxSearchLiterals → isSearchCommand (lineText parts rest) = true →
      whole s = sentLine parts rest ++ sentAfter parts rest later →
      let read := readCommand true s
      (LineFits parts rest →
        read.1 = .command (splice parts (trimEnd (Utf8.fromUtf8Lossy rest))) ∧
          whole read.2.1 = later ∧ read.2.2 = prompts parts) ∧
      (∀ line, read.1 = .command line → LineFits parts rest ∧
        tokenizeSearchCriteria line =
          parts.flatMap (fun p => tokenizeSearchCriteria p.text ++ [p.content]) ++
            tokenizeSearchCriteria (trimEnd (Utf8.fromUtf8Lossy rest)))) ∧
    (∀ text raw rest, trailingLiteral (text ++ quoteSearchString raw ++ rest) =
      (trailingLiteral rest).map (Marker.behind (text ++ quoteSearchString raw))) ∧
    ∀ rest, modeAfter .plain rest = .plain →
      tokenizeSearchCriteria (trimEnd rest) = tokenizeSearchCriteria rest := by
  refine ⟨?_, ?_, ?_, ?_⟩
  · intro t criteria u h
    exact searchMatchesNoting_withoutBody h u
  · intro parts rest later s hparts hrest hlast hlen hsearch hs read
    have hfits := readCommand_of_fits hparts hrest hlast hlen hsearch hs
    constructor
    · intro h
      obtain ⟨stream, hstream, hread⟩ := hfits h
      exact ⟨congrArg Prod.fst hread, (congrArg (fun p => whole p.2.1) hread).trans hstream,
        congrArg (fun p => p.2.2) hread⟩
    · intro line hline
      by_cases h : LineFits parts rest
      · obtain ⟨stream, -, hread⟩ := hfits h
        obtain rfl := CommandRead.command.inj (hline.symm.trans (congrArg Prod.fst hread))
        exact ⟨h, tokenizeSearchCriteria_splice hparts _⟩
      · exact absurd hline (readCommand_of_not_fits hparts hrest hlen hsearch hs h line)
  · intro text raw rest
    exact (endsQuoted_quote text raw).trailingLiteral rest
  · intro rest h
    exact tokenizeSearchCriteria_trimEnd h

/-- `a SEARCH TO ` and a literal of one byte, `b`. -/
def oneLiteral : Part :=
  ⟨[97, 32, 83, 69, 65, 82, 67, 72, 32, 84, 79, 32], ['1'], false, [98]⟩

theorem oneLiteral_valid : ∀ p ∈ [oneLiteral], p.Valid := by
  intro p hp
  obtain rfl := List.mem_singleton.1 hp
  exact ⟨by decide, ⟨by decide, by decide⟩, by decide, by decide⟩

/-- A search of one literal in one fill, and a command after it. -/
def oneLiteralStream (rest : Bytes) : Stream :=
  [⟨sentLine [oneLiteral] rest ++ sentAfter [oneLiteral] rest [98],
    List.append_ne_nil_of_left_ne_nil (sentLine_ne_nil _ _) _⟩]

theorem oneLiteral_line (rest : Bytes) :
    sentLine [oneLiteral] rest = oneLiteral.head ++ [123, 49, 125] ++ [13, 10] := by
  rw [sentLine, Utf8.encode_eq_flatMap, String.toList_ofList]
  rfl

theorem oneLiteral_fits {rest : Bytes} (h : rest.length ≤ 8190) : LineFits [oneLiteral] rest := by
  refine ⟨?_, ?_, ?_, ?_, trivial⟩
  · rw [oneLiteral_line]
    decide
  · rw [oneLiteral_line, byteLen, Utf8.encode_eq_flatMap, String.toList_ofList]
    decide
  · rw [byteLen, Utf8.encode_eq_flatMap, String.toList_ofList]
    decide
  · rw [sentLine, List.length_append]
    exact Nat.add_le_add_right h 2

/-- `ALL` needs no text, and `a SEARCH TO {1}`, `b ALL` is `a SEARCH TO "b" ALL`. -/
theorem all_is_shortened :
    searchMatchesNoting noCrates fromAnn.withoutBody "ALL".toList none =
      searchMatchesNoting noCrates fromAnn "ALL".toList none ∧
    (readCommand true (oneLiteralStream [32, 65, 76, 76])).1 =
      .command "a SEARCH TO \"b\" ALL".toList ∧
    tokenizeSearchCriteria (trimEnd "ALL ".toList) = tokenizeSearchCriteria "ALL ".toList := by
  have hthm := search_shortcuts_change_nothing noCrates
  refine ⟨hthm.1 fromAnn _ none (by decide), ?_, hthm.2.2.2 _ (by decide)⟩
  have hsearch : isSearchCommand (lineText [oneLiteral] [32, 65, 76, 76]) = true := by
    rw [lineText_cons]
    decide
  exact ((hthm.2.1 [oneLiteral] [32, 65, 76, 76] [98] (oneLiteralStream _) oneLiteral_valid
    (by decide) (by decide) (by decide) hsearch (List.append_nil _)).1
      (oneLiteral_fits (by decide))).1

/-- A rest ` SUBJECT "c ` that leaves a quoted string open. -/
def openRest : Bytes := [32, 83, 85, 66, 74, 69, 67, 84, 32, 34, 99, 32]

/-- The line is trimmed, and the blank at the end of the string is lost. -/
theorem last_blank_is_lost :
    (∀ p ∈ [oneLiteral], p.Valid) ∧ 10 ∉ openRest ∧
      trailingLiteral (trimEnd (Utf8.fromUtf8Lossy openRest)) = none ∧
      isSearchCommand (lineText [oneLiteral] openRest) = true ∧ LineFits [oneLiteral] openRest ∧
    (readCommand true (oneLiteralStream openRest)).1 =
      .command "a SEARCH TO \"b\" SUBJECT \"c".toList ∧
      tokenizeSearchCriteria "a SEARCH TO \"b\" SUBJECT \"c".toList ≠
        [oneLiteral].flatMap (fun p => tokenizeSearchCriteria p.text ++ [p.content]) ++
          tokenizeSearchCriteria (Utf8.fromUtf8Lossy openRest) := by
  have hsearch : isSearchCommand (lineText [oneLiteral] openRest) = true := by
    rw [lineText_cons]
    decide
  have hfits := oneLiteral_fits (by decide : openRest.length ≤ 8190)
  refine ⟨oneLiteral_valid, by decide, by decide, hsearch, hfits, ?_, ?_⟩
  · obtain ⟨stream, -, hread⟩ := @readCommand_of_fits [oneLiteral] openRest [98]
      (oneLiteralStream openRest) oneLiteral_valid (by decide) (by decide) (by decide) hsearch
      (List.append_nil _) hfits
    exact congrArg Prod.fst hread
  · decide

end AsterBridge.Imap.Search
