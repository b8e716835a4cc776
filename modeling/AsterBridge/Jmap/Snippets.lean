import AsterBridge.Db.Cache
import AsterBridge.Imap.Strings
import AsterBridge.Jmap.EmailFilter
import AsterBridge.Lib.Html
import AsterBridge.Lib.Unicode

/-!
# Search snippets

`SearchSnippet/get` in `jmap/methods/snippet.rs` with `fts_snippet` and `escape_fts_snippet` of
`db/mod.rs`. A snippet comes from the full text index, or is cut around the first occurrence of
the term, or is the beginning of the text; two branches of the cut return the text unescaped.
-/

set_option autoImplicit false

namespace AsterBridge.Jmap.Snippets

open AsterBridge.Lib AsterBridge.Lib.Text AsterBridge.Lib.Unicode AsterBridge.Lib.Html
open AsterBridge.Imap AsterBridge.Jmap.EmailFilter

/-! ## The texts -/

/-- The columns of a cached message that a snippet shows. -/
structure CachedMessage where
  subject : Option String
  bodyText : Option String

/-- The database: `get_cached_message`, and the row of the query in `fts_snippet` for an id and a
query, without a row also when the query fails. -/
structure SnippetStore where
  getCachedMessage : String → Option CachedMessage
  ftsRow : String → List Char → Option (Option (List Char) × Option (List Char))

/-- `extract_text_filter` -/
def extractTextFilter : Json → Option String
  | .object members =>
      ((members.lookup "text").bind Json.asStr).or
        (((members.lookup "subject").bind Json.asStr).or
          (((members.lookup "body").bind Json.asStr).or
            (match _h : members.lookup "conditions" with
              | some (.array conds) => conds.attach.findSome? fun ⟨c, _⟩ => extractTextFilter c
              | _ => none)))
  | _ => none
termination_by f => sizeOf f
decreasing_by
  rename_i hc
  have hmember := List.sizeOf_lt_of_mem (EmailFilter.mem_of_lookup _h)
  have hitem := List.sizeOf_lt_of_mem hc
  simp only [Prod.mk.sizeOf_spec, Json.array.sizeOf_spec, Json.object.sizeOf_spec] at hmember ⊢
  omega

/-- `truncate_chars` -/
def truncateChars (text : List Char) (max : Nat) : List Char := text.take max

/-- `html_escape` -/
def htmlEscape (s : List Char) : List Char :=
  replaceChar '"' "&quot;".toList (replaceChar '>' "&gt;".toList
    (replaceChar '<' "&lt;".toList (replaceChar '&' "&amp;".toList s)))

/-- `FTS_MARK_START` -/
def ftsMarkStart : Char := Char.ofNat 2

/-- `FTS_MARK_END` -/
def ftsMarkEnd : Char := Char.ofNat 3

/-- `escape_fts_snippet` -/
def escapeFtsSnippet (raw : Option (List Char)) : Option (List Char) :=
  raw.map fun s => replaceChar ftsMarkEnd "</mark>".toList
    (replaceChar ftsMarkStart "<mark>".toList (replaceChar '"' "&quot;".toList
      (replaceChar '>' "&gt;".toList (replaceChar '<' "&lt;".toList
        (replaceChar '&' "&amp;".toList s)))))

/-- `sanitize_fts_query`, which does the same as `sanitize_fts_term`. -/
def sanitizeFtsQuery (x : FilterTables) (input : List Char) : List Char := sanitizeFtsTerm x input

/-- `fts_snippet` -/
def ftsSnippet (x : FilterTables) (db : SnippetStore) (asterId : String) (query : List Char) :
    Option (Option (List Char) × Option (List Char)) :=
  let q := sanitizeFtsQuery x query
  if q = [] then none
  else (db.ftsRow asterId q).map fun (subj, body) => (escapeFtsSnippet subj, escapeFtsSnippet body)

/-- The window of `make_substring_snippet` around a match at `preChars`. -/
def windowAt (text : List Char) (preChars : Nat) : List Char := (text.drop (preChars - 40)).take 200

/-- `make_substring_snippet` -/
def makeSubstringSnippet (T : CaseTables) (text term : List Char) : List Char :=
  if text = [] then []
  else
    let needle := T.toLowercase term
    match find needle (T.toLowercase text) with
    | none => truncateChars text 200
    | some preChars =>
        let collected := windowAt text preChars
        let localMatch := preChars - (preChars - 40)
        if collected.length < localMatch + needle.length then collected
        else
          let front := collected.take localMatch
          let middle := (collected.drop localMatch).take needle.length
          let suffix := collected.drop (localMatch + needle.length)
          htmlEscape front ++ "<mark>".toList ++ htmlEscape middle ++ "</mark>".toList ++
            htmlEscape suffix

/-! ## The method -/

/-- An entry of `list`; a text that is missing is `null`. -/
structure SnippetEntry where
  emailId : String
  subject : Option (List Char)
  preview : Option (List Char)

/-- The text of a column, empty where it is `NULL`. -/
def columnText (column : Option String) : List Char := (column.getD "").toList

/-- The two texts of a message in `get`. -/
def snippetsOf (x : FilterTables) (T : CaseTables) (db : SnippetStore) (term : List Char)
    (id : String) (m : CachedMessage) : Option (List Char) × Option (List Char) :=
  if term = [] then
    (some (htmlEscape (truncateChars (columnText m.subject) 200)),
      some (htmlEscape (truncateChars (columnText m.bodyText) 200)))
  else
    match ftsSnippet x db id term with
    | some texts => texts
    | none =>
        (some (htmlEscape (truncateChars (columnText m.subject) 200)),
          some (makeSubstringSnippet T (columnText m.bodyText) term))

/-- The result of `get`. -/
structure SnippetResult where
  accountId : String
  list : List SnippetEntry
  notFound : List String

/-- `emailIds` of the arguments. -/
def emailIdsOf (args : Json) : List String :=
  (((args.get? "emailIds").bind Json.asArray).map fun a => a.filterMap Json.asStr).getD []

/-- The term of the arguments. -/
def termOf (args : Json) : List Char :=
  ((extractTextFilter ((args.get? "filter").getD .null)).getD "").toList

/-- The entry of an id, where it is in the cache. -/
def entryOf (x : FilterTables) (T : CaseTables) (db : SnippetStore) (term : List Char)
    (id : String) : Option SnippetEntry :=
  (db.getCachedMessage id).map fun m =>
    let (subject, preview) := snippetsOf x T db term id m
    ⟨id, subject, preview⟩

/-- `get`, with the result of `require_account`; an error is its kind and its text. -/
def get (x : FilterTables) (T : CaseTables) (db : SnippetStore)
    (account : Except (String × String) String) (args : Json) :
    Except (String × String) SnippetResult :=
  match account with
  | .error e => .error e
  | .ok accountId =>
      let emailIds := emailIdsOf args
      if 500 < emailIds.length then .error ("requestTooLarge", "too many emailIds")
      else
        .ok ⟨accountId, emailIds.filterMap (entryOf x T db (termOf args)),
          emailIds.filter fun id => (db.getCachedMessage id).isNone⟩

/-! ## What a snippet is -/

/-- The characters that a snippet shows. -/
def shown (cs : List (Bool × Char)) : List Char := cs.map Prod.snd

/-- HTML text with a piece of the source, at most 200 characters. -/
def ShowsPiece (source value : List Char) : Prop :=
  ∃ cs, Html.read value = some cs ∧ shown cs <:+: source ∧ (shown cs).length ≤ 200

/-- The marks are one place, which lower-cases to the term, and no place before it does. -/
def MarksFirst (T : CaseTables) (source term : List Char) (cs : List (Bool × Char)) : Prop :=
  ∃ before front middle suffix after,
    source = before ++ front ++ middle ++ suffix ++ after ∧
    cs = flagged false front ++ flagged true middle ++ flagged false suffix ∧
    T.toLowercase middle = T.toLowercase term ∧
    ∀ b m a, source = b ++ m ++ a → T.toLowercase m = T.toLowercase term →
      (before ++ front).length ≤ b.length

/-- A piece of the source whose marks, where the term occurs, are its first occurrence. -/
def ShowsMatch (T : CaseTables) (source term value : List Char) : Prop :=
  ∃ cs, Html.read value = some cs ∧ shown cs <:+: source ∧ (shown cs).length ≤ 200 ∧
    (T.toLowercase term <:+: T.toLowercase source → MarksFirst T source term cs)

/-- HTML text with a piece of the source, between ellipsis marks where it was cut. -/
def ShowsFragment (source value : List Char) : Prop :=
  ∃ cs front piece back, Html.read value = some cs ∧ shown cs = front ++ piece ++ back ∧
    (front = [] ∨ front = ['…']) ∧ (back = [] ∨ back = ['…']) ∧ piece <:+: source

/-- What the claim asks of the two texts of a message. -/
def EntryMeets (x : FilterTables) (T : CaseTables) (db : SnippetStore) (term : List Char)
    (m : CachedMessage) (e : SnippetEntry) : Prop :=
  if term = [] then
    (∃ v, e.subject = some v ∧ ShowsPiece (columnText m.subject) v) ∧
      ∃ v, e.preview = some v ∧ ShowsPiece (columnText m.bodyText) v
  else if (ftsSnippet x db e.emailId term).isSome then
    (∃ v, e.subject = some v ∧ ShowsFragment (columnText m.subject) v) ∧
      ∃ v, e.preview = some v ∧ ShowsFragment (columnText m.bodyText) v
  else
    (∃ v, e.subject = some v ∧ ShowsPiece (columnText m.subject) v) ∧
      ∃ v, e.preview = some v ∧ ShowsMatch T (columnText m.bodyText) term v

/-- A window that has nothing to escape. -/
def PlainWindow (w : List Char) : Prop := ∀ c ∈ w, c ≠ '<' ∧ c ≠ '>' ∧ c ≠ '&'

/-- When the cut around a match does what it should. Without a match the beginning of the text
is returned as it is, and so is a window that ends before the match does: it must have nothing
to escape, or happen to read as the snippet that is due. Otherwise the place of the match in
the lower case must be a place of the term in the text. -/
def CutMeets (T : CaseTables) (source term : List Char) : Prop :=
  match find (T.toLowercase term) (T.toLowercase source) with
  | none => PlainWindow (source.take 200) ∨ ShowsMatch T source term (source.take 200)
  | some preChars =>
      let collected := windowAt source preChars
      let localMatch := preChars - (preChars - 40)
      let needleChars := (T.toLowercase term).length
      if collected.length < localMatch + needleChars then ShowsMatch T source term collected
      else
        MarksFirst T source term (flagged false (collected.take localMatch) ++
          flagged true ((collected.drop localMatch).take needleChars) ++
          flagged false (collected.drop (localMatch + needleChars)))

/-! ## Escaping -/

section Escape

variable {c : Char} {s : List Char}

theorem replaceChar_flatMap (c : Char) (with_ : List Char) (f : Char → List Char) (s : List Char) :
    replaceChar c with_ (s.flatMap f) = s.flatMap fun d => replaceChar c with_ (f d) := by
  unfold replaceChar
  exact List.flatMap_assoc

theorem replaceChar_singleton {c d : Char} (h : d ≠ c) (with_ : List Char) :
    replaceChar c with_ [d] = [d] := by
  simp [replaceChar, h]

/-- The replacements one after another escape each character. -/
theorem htmlEscape_eq (s : List Char) : htmlEscape s = escape s := by
  have hone : ∀ c : Char, replaceChar '"' "&quot;".toList (replaceChar '>' "&gt;".toList
      (replaceChar '<' "&lt;".toList (if c = '&' then "&amp;".toList else [c]))) =
        escapeChar c := by
    intro c
    by_cases hamp : c = '&'
    · subst hamp; rfl
    by_cases hlt : c = '<'
    · subst hlt; rfl
    by_cases hgt : c = '>'
    · subst hgt; rfl
    by_cases hquote : c = '"'
    · subst hquote; rfl
    rw [if_neg hamp, replaceChar_singleton hlt, replaceChar_singleton hgt,
      replaceChar_singleton hquote, escapeChar, if_neg hamp, if_neg hlt, if_neg hgt, if_neg hquote]
  have hfirst : replaceChar '&' "&amp;".toList s =
      s.flatMap fun c => if c = '&' then "&amp;".toList else [c] := rfl
  rw [htmlEscape, hfirst, replaceChar_flatMap, replaceChar_flatMap, replaceChar_flatMap, escape]
  exact congrArg (fun f => s.flatMap f) (funext hone)

/-- What `escape_fts_snippet` makes of a character. -/
def escapeFtsChar (c : Char) : List Char :=
  if c = ftsMarkStart then "<mark>".toList
  else if c = ftsMarkEnd then "</mark>".toList
  else escapeChar c

theorem escapeFtsSnippet_some (s : List Char) :
    escapeFtsSnippet (some s) = some (s.flatMap escapeFtsChar) := by
  have hescape : escapeFtsSnippet (some s) = some (replaceChar ftsMarkEnd "</mark>".toList
      (replaceChar ftsMarkStart "<mark>".toList (htmlEscape s))) := rfl
  have hone : ∀ c, replaceChar ftsMarkEnd "</mark>".toList
      (replaceChar ftsMarkStart "<mark>".toList (escapeChar c)) = escapeFtsChar c := by
    intro c
    by_cases hstart : c = ftsMarkStart
    · subst hstart; rfl
    by_cases hend : c = ftsMarkEnd
    · subst hend; rfl
    by_cases hamp : c = '&'
    · subst hamp; rfl
    by_cases hlt : c = '<'
    · subst hlt; rfl
    by_cases hgt : c = '>'
    · subst hgt; rfl
    by_cases hquote : c = '"'
    · subst hquote; rfl
    rw [escapeFtsChar, if_neg hstart, if_neg hend, escapeChar, if_neg hamp, if_neg hlt,
      if_neg hgt, if_neg hquote, replaceChar_singleton hstart, replaceChar_singleton hend]
  rw [hescape, htmlEscape_eq, escape, replaceChar_flatMap, replaceChar_flatMap]
  exact congrArg (fun f => some (s.flatMap f)) (funext hone)

/-- Texts without the two marks are escaped as in HTML. -/
theorem flatMap_escapeFtsChar (h : ∀ c ∈ s, c ≠ ftsMarkStart ∧ c ≠ ftsMarkEnd) :
    s.flatMap escapeFtsChar = escape s := by
  refine List.flatMap_congr fun c hc => ?_
  unfold escapeFtsChar
  rw [if_neg (h c hc).1, if_neg (h c hc).2]

/-- A stored text. -/
def Stripped (column : Option String) : Prop := column.map Db.stripC0Controls = column

theorem Stripped.noMarks {column : Option String} (h : Stripped column) :
    ∀ c ∈ columnText column, c ≠ ftsMarkStart ∧ c ≠ ftsMarkEnd := by
  cases column with
  | none => exact fun c hc => absurd hc List.not_mem_nil
  | some s =>
    intro c hc
    have hsame : Db.stripC0Controls s = s := Option.some.inj h
    have hkept : c ∈ (Db.stripC0Controls s).toList := hsame.symm ▸ hc
    rw [Db.stripC0Controls, String.toList_ofList] at hkept
    have hcond := (List.mem_filter.1 hkept).2
    constructor
    · rintro rfl
      exact absurd hcond (by decide)
    · rintro rfl
      exact absurd hcond (by decide)

end Escape

/-! ## The full text index -/

section Fts

variable {source value : List Char}

/-- Fragments of a text, each a hit between the marks or not. -/
def markHits (segments : List (Bool × List Char)) : List Char :=
  segments.flatMap fun segment =>
    if segment.1 then ftsMarkStart :: segment.2 ++ [ftsMarkEnd] else segment.2

/-- What the index returns for a column: a piece of its text with marks around the hits, between
ellipsis marks where it is cut. -/
def FtsText (source raw : List Char) : Prop :=
  ∃ segments front back, raw = front ++ markHits segments ++ back ∧
    (front = [] ∨ front = ['…']) ∧ (back = [] ∨ back = ['…']) ∧
    segments.flatMap Prod.snd <:+: source

/-- The index returns fragments of the columns of the message; no column of it is `NULL`. -/
def FtsDocumented (db : SnippetStore) : Prop :=
  ∀ id m q subject body, db.getCachedMessage id = some m → db.ftsRow id q = some (subject, body) →
    (∃ raw, subject = some raw ∧ FtsText (columnText m.subject) raw) ∧
      ∃ raw, body = some raw ∧ FtsText (columnText m.bodyText) raw

theorem readFrom_markHits {segments : List (Bool × List Char)}
    (h : ∀ c ∈ segments.flatMap Prod.snd, c ≠ ftsMarkStart ∧ c ≠ ftsMarkEnd) (rest : List Char) :
    ∃ cs, shown cs = segments.flatMap Prod.snd ∧
      readFrom false ((markHits segments).flatMap escapeFtsChar ++ rest) =
        (readFrom false rest).map (cs ++ ·) := by
  induction segments with
  | nil => exact ⟨[], rfl, by simp [markHits]⟩
  | cons segment segments ih =>
    obtain ⟨hit, text⟩ := segment
    rw [List.flatMap_cons] at h
    have htext := flatMap_escapeFtsChar fun c hc => h c (List.mem_append_left _ hc)
    obtain ⟨cs, hshown, hread⟩ := ih fun c hc => h c (List.mem_append_right _ hc)
    refine ⟨flagged hit text ++ cs, ?_, ?_⟩
    · rw [shown, List.map_append, map_snd_flagged, ← shown, hshown, List.flatMap_cons]
    · have hcons : markHits ((hit, text) :: segments) =
          (if hit then ftsMarkStart :: text ++ [ftsMarkEnd] else text) ++ markHits segments :=
        List.flatMap_cons
      have hstart : escapeFtsChar ftsMarkStart = "<mark>".toList := rfl
      have hend : escapeFtsChar ftsMarkEnd = "</mark>".toList := rfl
      cases hit with
      | false =>
        rw [hcons, if_neg (by decide), List.flatMap_append, htext, List.append_assoc,
          readFrom_escape, hread, Option.map_map]
        simp only [Function.comp_def, List.append_assoc]
      | true =>
        rw [hcons, if_pos rfl, List.flatMap_append, List.flatMap_append, List.flatMap_cons,
          List.flatMap_singleton, hstart, hend, htext]
        simp only [List.append_assoc]
        rw [readFrom_mark, hread, Option.map_map]
        rfl

/-- **A snippet of the index is safe and shows a fragment of the column.** -/
theorem showsFragment_of_ftsText {raw : List Char} (h : FtsText source raw)
    (hmarks : ∀ c ∈ source, c ≠ ftsMarkStart ∧ c ≠ ftsMarkEnd) :
    ShowsFragment source (raw.flatMap escapeFtsChar) := by
  obtain ⟨segments, front, back, rfl, hfront, hback, hpiece⟩ := h
  have hends : ∀ t : List Char, t = [] ∨ t = ['…'] → t.flatMap escapeFtsChar = escape t := by
    rintro t (rfl | rfl) <;> rfl
  obtain ⟨cs, hshown, hread⟩ := readFrom_markHits
    (fun c hc => hmarks c (hpiece.subset hc)) (escape back)
  refine ⟨flagged false front ++ (cs ++ flagged false back), front, segments.flatMap Prod.snd,
    back, ?_, ?_, hfront, hback, hpiece⟩
  · have hback' : readFrom false (escape back) = some (flagged false back) := read_escape back
    rw [Html.read, List.flatMap_append, List.flatMap_append, hends front hfront, hends back hback,
      List.append_assoc, readFrom_escape, hread, hback']
    rfl
  · rw [shown, List.map_append, List.map_append, map_snd_flagged, map_snd_flagged, ← shown,
      hshown, List.append_assoc]

end Fts

/-! ## The cut -/

section Cut

variable {T : CaseTables} {source term : List Char}

/-- The beginning of a text, escaped. -/
theorem showsPiece_truncated (source : List Char) :
    ShowsPiece source (htmlEscape (truncateChars source 200)) := by
  refine ⟨flagged false (source.take 200), ?_, ?_, ?_⟩
  · rw [htmlEscape_eq, read_escape, truncateChars]
  · rw [shown, map_snd_flagged]
    exact (List.take_prefix _ _).isInfix
  · rw [shown, map_snd_flagged]
    exact List.length_take_le _ _

theorem windowAt_infix (text : List Char) (preChars : Nat) : windowAt text preChars <:+: text :=
  (List.take_prefix _ _).isInfix.trans (List.drop_suffix _ _).isInfix

theorem occurs_iff_find : T.toLowercase term <:+: T.toLowercase source ↔
    (find (T.toLowercase term) (T.toLowercase source)).isSome = true :=
  (contains_iff _ _).symm

/-- **When the cut shows the match.** -/
theorem showsMatch_cut_iff : ShowsMatch T source term (makeSubstringSnippet T source term) ↔
    CutMeets T source term ∨ source = [] := by
  unfold makeSubstringSnippet
  by_cases hempty : source = []
  · subst hempty
    rw [if_pos rfl]
    refine iff_of_true ⟨[], rfl, List.infix_rfl, Nat.zero_le _, fun hoccurs => ?_⟩ (Or.inr rfl)
    have hneedle : T.toLowercase term = [] := List.eq_nil_of_infix_nil hoccurs
    exact ⟨[], [], [], [], [], rfl, rfl, hneedle.symm, fun b m a _ _ => Nat.zero_le _⟩
  · rw [if_neg hempty, or_iff_left hempty]
    unfold CutMeets
    dsimp only
    cases hfind : find (T.toLowercase term) (T.toLowercase source) with
    | none =>
      refine ⟨Or.inr, fun h => h.elim (fun hplain => ?_) id⟩
      have habsent : ¬ T.toLowercase term <:+: T.toLowercase source := by
        rw [occurs_iff_find, hfind]
        exact Bool.false_ne_true
      refine ⟨flagged false (source.take 200), read_plain hplain, ?_, ?_,
        fun hoccurs => absurd hoccurs habsent⟩
      · rw [shown, map_snd_flagged]
        exact (List.take_prefix _ _).isInfix
      · rw [shown, map_snd_flagged]
        exact List.length_take_le _ _
    | some preChars =>
      have hoccurs : T.toLowercase term <:+: T.toLowercase source := by
        rw [occurs_iff_find, hfind]
        rfl
      dsimp only
      split
      case isTrue => exact Iff.rfl
      case isFalse hfits =>
        set window := windowAt source preChars
        set start := preChars - (preChars - 40)
        set size := (T.toLowercase term).length
        let cs := flagged false (window.take start) ++
          flagged true ((window.drop start).take size) ++ flagged false (window.drop (start + size))
        have hread : Html.read (htmlEscape (window.take start) ++ "<mark>".toList ++
            htmlEscape ((window.drop start).take size) ++ "</mark>".toList ++
            htmlEscape (window.drop (start + size))) = some cs := by
          have hlast : readFrom false (escape (window.drop (start + size))) =
              some (flagged false (window.drop (start + size))) := read_escape _
          rw [Html.read, htmlEscape_eq, htmlEscape_eq, htmlEscape_eq]
          simp only [List.append_assoc]
          rw [readFrom_escape, readFrom_mark, hlast]
          simp only [Option.map_some, cs, List.append_assoc]
        have hshown : shown cs = window := by
          simp only [shown, cs, List.map_append, map_snd_flagged]
          rw [List.append_assoc, ← List.drop_drop, List.take_append_drop,
            List.take_append_drop]
        constructor
        · rintro ⟨cs', hread', -, -, hfirst⟩
          obtain rfl : cs = cs' := Option.some.inj (hread.symm.trans hread')
          exact hfirst hoccurs
        · intro hfirst
          refine ⟨cs, hread, ?_, ?_, fun _ => hfirst⟩
          · rw [hshown]
            exact windowAt_infix _ _
          · rw [hshown]
            exact List.length_take_le _ _

end Cut

/-! ## The entries -/

section Entries

variable {x : FilterTables} {T : CaseTables} {db : SnippetStore} {term : List Char}
  {id : String} {m : CachedMessage}

/-- When the texts of a message are safe and faithful. -/
def SnippetCondition (x : FilterTables) (T : CaseTables) (db : SnippetStore) (term : List Char)
    (id : String) (m : CachedMessage) : Prop :=
  term = [] ∨ (ftsSnippet x db id term).isSome ∨ columnText m.bodyText = [] ∨
    CutMeets T (columnText m.bodyText) term

/-- The texts that the index gives. -/
theorem entryMeets_fts {texts : Option (List Char) × Option (List Char)} (hterm : term ≠ [])
    (hcached : db.getCachedMessage id = some m)
    (hstripped : Stripped m.subject ∧ Stripped m.bodyText) (hfts : FtsDocumented db)
    (htexts : ftsSnippet x db id term = some texts) :
    EntryMeets x T db term m ⟨id, texts.1, texts.2⟩ := by
  unfold EntryMeets
  dsimp only
  rw [if_neg hterm, htexts, if_pos Option.isSome_some]
  unfold ftsSnippet at htexts
  dsimp only at htexts
  split at htexts
  case isTrue => exact nomatch htexts
  case isFalse =>
    obtain ⟨⟨subject, body⟩, hrow, rfl⟩ := Option.map_eq_some_iff.1 htexts
    obtain ⟨⟨rawSubject, rfl, hsubject⟩, rawBody, rfl, hbody⟩ :=
      hfts id m _ subject body hcached hrow
    refine ⟨⟨_, escapeFtsSnippet_some rawSubject, ?_⟩, _, escapeFtsSnippet_some rawBody, ?_⟩
    · exact showsFragment_of_ftsText hsubject hstripped.1.noMarks
    · exact showsFragment_of_ftsText hbody hstripped.2.noMarks

/-- **When an entry is safe and faithful**: always, but for a preview that is cut around a term. -/
theorem entryMeets_iff (hcached : db.getCachedMessage id = some m)
    (hstripped : Stripped m.subject ∧ Stripped m.bodyText) (hfts : FtsDocumented db) :
    EntryMeets x T db term m ⟨id, (snippetsOf x T db term id m).1,
      (snippetsOf x T db term id m).2⟩ ↔ SnippetCondition x T db term id m := by
  unfold SnippetCondition snippetsOf
  by_cases hterm : term = []
  · rw [if_pos hterm]
    refine iff_of_true ?_ (Or.inl hterm)
    unfold EntryMeets
    rw [if_pos hterm]
    exact ⟨⟨_, rfl, showsPiece_truncated _⟩, _, rfl, showsPiece_truncated _⟩
  · rw [if_neg hterm]
    cases htexts : ftsSnippet x db id term with
    | some texts =>
      exact iff_of_true (entryMeets_fts hterm hcached hstripped hfts htexts)
        (Or.inr (Or.inl Option.isSome_some))
    | none =>
      have hcut := @showsMatch_cut_iff T (columnText m.bodyText) term
      unfold EntryMeets
      dsimp only
      rw [if_neg hterm, htexts, Option.isSome_none, if_neg Bool.false_ne_true]
      constructor
      · rintro ⟨-, v, hv, hshows⟩
        obtain rfl := Option.some.inj hv
        exact Or.inr (Or.inr ((hcut.1 hshows).symm))
      · rintro (hnone | hnone | hcond)
        · exact absurd hnone hterm
        · exact absurd hnone Bool.false_ne_true
        · exact ⟨⟨_, rfl, showsPiece_truncated _⟩, _, rfl, hcut.2 hcond.symm⟩

/-- Letters and digits of ASCII. -/
def asciiTables : FilterTables := ⟨Char.isAlphanum, fun _ => none⟩

/-- One message, which the index finds by its word. -/
def oneMessage : SnippetStore where
  getCachedMessage id := if id = "m" then some ⟨some "Re: fox", some "a <b> fox"⟩ else none
  ftsRow id q :=
    if id = "m" ∧ q = "\"fox\"".toList then
      some (some ("Re: ".toList ++ [ftsMarkStart] ++ "fox".toList ++ [ftsMarkEnd]),
        some ("a <b> ".toList ++ [ftsMarkStart] ++ "fox".toList ++ [ftsMarkEnd]))
    else none

/-- The arguments with one id and a text to search for. -/
def searchFor (term : String) : Json :=
  .object [("emailIds", .array [.string "m"]), ("filter", .object [("text", .string term)])]

/-- What `get` answers for that message. -/
def answerTo (term : String) : SnippetResult :=
  ⟨"account", (emailIdsOf (searchFor term)).filterMap
      (entryOf asciiTables CaseTables.ascii oneMessage (termOf (searchFor term))),
    (emailIdsOf (searchFor term)).filter fun id => (oneMessage.getCachedMessage id).isNone⟩

end Entries

end AsterBridge.Jmap.Snippets
