import AsterBridge.Jmap.EmailFilter
import AsterBridge.Lib.SqlExpr
import Mathlib.Data.Rat.Defs

/-!
# The meaning of a filter

The text that `build_filter` makes is read as SQL: tokens, a condition, and its value for a row with
the parameters. `build_selects` compares it with the boolean meaning of the filter.
-/

set_option autoImplicit false

namespace AsterBridge.Jmap.EmailFilter

open AsterBridge.Lib AsterBridge.Lib.Text AsterBridge.Lib.Sql

/-! ## Reading SQL -/

/-- What the conditions of a filter are made of. -/
inductive Atom where
  | always
  | never
  | compare (c : Comparison) (placeholder : Nat)
deriving DecidableEq

/-- The words of a condition. -/
def words : List (String × Token Atom) :=
  [("(", .opening), (")", .closing), (" AND ", .and), (" OR ", .or), ("NOT ", .not),
    ("1=1", .atom .always), ("1=0", .atom .never)]

/-- The comparisons of a condition. -/
def comparisons : List Comparison :=
  [.folderIs, .folderIsNot, .found, .minSize, .maxSize, .before, .after]

/-- The rest of a text after a word. -/
def readWord (w s : List Char) : Option (List Char) :=
  if w.isPrefixOf s then some (s.drop w.length) else none

/-- A comparison with its placeholder. -/
def readComparison (c : Comparison) (s : List Char) : Option (Token Atom × List Char) := do
  let rest ← readWord c.head.toList s
  let n ← parseDigits (rest.takeWhile Char.isDigit)
  let rest ← readWord c.tail.toList (rest.dropWhile Char.isDigit)
  return (.atom (.compare c n), rest)

/-- The next token. -/
def readToken (s : List Char) : Option (Token Atom × List Char) :=
  (words.findSome? fun (w, t) => (readWord w.toList s).map fun rest => (t, rest)).orElse fun _ =>
    comparisons.findSome? fun c => readComparison c s

/-- The tokens of a text. -/
def readTokens : Nat → List Char → Option (List (Token Atom))
  | _, [] => some []
  | 0, _ :: _ => none
  | fuel + 1, s =>
      (readToken s).bind fun (t, rest) => (readTokens fuel rest).map (t :: ·)

/-- What a filter reads of a row of `message_cache`. -/
structure CachedRow where
  asterId : String
  folder : List Char
  size : Int
  date : Option (List Char)

/-- The functions of the database: `julianday`, and a search in `message_fts`. -/
structure SqlFunctions where
  julianday : List Char → Option ℚ
  found : List Char → String → Bool

/-- The value of a comparison. -/
def Comparison.value (db : SqlFunctions) (row : CachedRow) : Comparison → Param → Option Bool
  | .folderIs, .text label => some (row.folder = label)
  | .folderIsNot, .text label => some (row.folder ≠ label)
  | .found, .text query => some (db.found query row.asterId)
  | .minSize, .integer n => some (n ≤ row.size)
  | .maxSize, .integer n => some (row.size ≤ n)
  | .before, .text s => do
      let day ← row.date.bind db.julianday
      let limit ← db.julianday s
      return decide (day < limit)
  | .after, .text s => do
      let day ← row.date.bind db.julianday
      let limit ← db.julianday s
      return decide (limit ≤ day)
  | _, _ => none

/-- The value of an atom: a placeholder stands for its parameter, counted from one. -/
def Atom.value (db : SqlFunctions) (row : CachedRow) (params : List Param) : Atom → Option Bool
  | .always => some true
  | .never => some false
  | .compare c n => (params[n - 1]?).bind (c.value db row)

/-- The value of a condition. -/
def conditionValue (db : SqlFunctions) (row : CachedRow) (params : List Param) (text : List Char) :
    Option Bool :=
  ((readTokens text.length text).bind Sql.parse).bind fun e => e.eval (Atom.value db row params)

/-- `WHERE 1=1` with the text of a filter selects the row. -/
def selects (db : SqlFunctions) (row : CachedRow) (sql : List Char × List Param) : Bool :=
  conditionValue db row sql.2 ("1=1".toList ++ sql.1) = some true

/-- The placeholders of the tokens. -/
def placeholdersOf (ts : List (Token Atom)) : List Nat :=
  ts.filterMap fun
    | .atom (.compare _ n) => some n
    | _ => none

/-- The placeholders of a text. -/
def placeholders (text : List Char) : Option (List Nat) :=
  (readTokens text.length text).map placeholdersOf

/-! ## Tokens of a text -/

/-- The text does not go on with a digit. -/
def NoDigit (rest : List Char) : Prop := ∀ c ∈ rest.head?, c.isDigit = false

/-- The text is read as the tokens, in front of anything but a digit. -/
structure Lexes (s : List Char) (ts : List (Token Atom)) : Prop where
  length : ts.length ≤ s.length
  read : ∀ rest fuel, NoDigit rest →
    readTokens (fuel + ts.length) (s ++ rest) = (readTokens fuel rest).map (ts ++ ·)

/-- The text is read as the tokens, in front of anything. -/
structure LexesAny (s : List Char) (ts : List (Token Atom)) : Prop where
  length : ts.length ≤ s.length
  read : ∀ rest fuel,
    readTokens (fuel + ts.length) (s ++ rest) = (readTokens fuel rest).map (ts ++ ·)

section Lexing

variable {s s' : List Char} {ts ts' : List (Token Atom)}

theorem readTokens_cons {t : Token Atom} {rest : List Char} (hs : s ≠ [])
    (h : readToken s = some (t, rest)) (fuel : Nat) :
    readTokens (fuel + 1) s = (readTokens fuel rest).map (t :: ·) := by
  cases s with
  | nil => exact absurd rfl hs
  | cons c s =>
      rw [readTokens, h, Option.bind_some]
      exact hs

theorem LexesAny.lexes (h : LexesAny s ts) : Lexes s ts := ⟨h.length, fun rest fuel _ => h.read rest fuel⟩

/-- One token. -/
theorem lexesAny_one {t : Token Atom} (hs : s ≠ [])
    (h : ∀ rest, readToken (s ++ rest) = some (t, rest)) : LexesAny s [t] where
  length := List.length_pos_iff.2 hs
  read := fun rest fuel =>
    readTokens_cons (List.append_ne_nil_of_left_ne_nil hs rest) (h rest) fuel

theorem map_append_append (ts ts' : List (Token Atom)) (o : Option (List (Token Atom))) :
    (o.map (ts' ++ ·)).map (ts ++ ·) = o.map ((ts ++ ts') ++ ·) := by
  cases o with
  | none => rfl
  | some us => exact congrArg some (List.append_assoc ts ts' us).symm

theorem LexesAny.append (h : LexesAny s ts) (h' : LexesAny s' ts') :
    LexesAny (s ++ s') (ts ++ ts') where
  length := by
    rw [List.length_append, List.length_append]
    exact Nat.add_le_add h.length h'.length
  read := fun rest fuel => by
    rw [List.append_assoc, List.length_append, Nat.add_comm ts.length, ← Nat.add_assoc, h.read,
      h'.read, map_append_append]

/-- A text may follow that starts with something else than a digit. -/
theorem Lexes.append (h : Lexes s ts) (h' : LexesAny s' ts') (hs' : s' ≠ []) (hdigit : NoDigit s') :
    LexesAny (s ++ s') (ts ++ ts') where
  length := by
    rw [List.length_append, List.length_append]
    exact Nat.add_le_add h.length h'.length
  read := fun rest fuel => by
    have hrest : NoDigit (s' ++ rest) := by
      obtain ⟨c, cs, rfl⟩ := List.exists_cons_of_ne_nil hs'
      exact hdigit
    rw [List.append_assoc, List.length_append, Nat.add_comm ts.length, ← Nat.add_assoc,
      h.read _ _ hrest, h'.read, map_append_append]

theorem LexesAny.appendLexes (h : LexesAny s ts) (h' : Lexes s' ts') : Lexes (s ++ s') (ts ++ ts') where
  length := by
    rw [List.length_append, List.length_append]
    exact Nat.add_le_add h.length h'.length
  read := fun rest fuel hrest => by
    rw [List.append_assoc, List.length_append, Nat.add_comm ts.length, ← Nat.add_assoc, h.read,
      h'.read _ _ hrest, map_append_append]

/-- The whole of a text. -/
theorem Lexes.all (h : Lexes s ts) : readTokens s.length s = some ts := by
  have hread := h.read [] (s.length - ts.length) fun c hc => nomatch hc
  rw [List.append_nil, Nat.sub_add_cancel h.length] at hread
  rw [hread, readTokens, Option.map_some, List.append_nil]

/-- A search with one hit. -/
theorem findSome?_of_unique {α β : Type} {f : α → Option β} {a : α} {b : β} {l : List α}
    (hmem : a ∈ l) (ha : f a = some b) (hother : ∀ a', a' ≠ a → f a' = none) :
    l.findSome? f = some b := by
  induction l with
  | nil => exact absurd hmem List.not_mem_nil
  | cons c l ih =>
      rw [List.findSome?_cons]
      by_cases hc : c = a
      · rw [hc, ha]
      · rw [hother c hc]
        exact ih ((List.mem_cons.1 hmem).resolve_left fun h => hc h.symm)

theorem readWord_append (w rest : List Char) : readWord w (w ++ rest) = some rest := by
  rw [readWord, if_pos (List.isPrefixOf_iff_prefix.2 (List.prefix_append w rest)), List.drop_left]

/-- No comparison starts with a word, or with another comparison. -/
theorem words_comparison (c : Comparison) (rest : List Char) :
    (words.findSome? fun (w, t) => (readWord w.toList (c.head.toList ++ rest)).map
      fun rest => (t, rest)) = none := by
  cases c <;> rfl

theorem readWord_other {c c' : Comparison} (h : c' ≠ c) (rest : List Char) :
    readWord c'.head.toList (c.head.toList ++ rest) = none := by
  cases c <;> cases c' <;> first | exact absurd rfl h | rfl

theorem span_noDigit {rest : List Char} (h : NoDigit rest) :
    rest.takeWhile Char.isDigit = [] ∧ rest.dropWhile Char.isDigit = rest := by
  cases rest with
  | nil => exact ⟨rfl, rfl⟩
  | cons c rest =>
      have hc : ¬c.isDigit = true := by
        rw [h c rfl]
        decide
      exact ⟨List.takeWhile_cons_of_neg hc, List.dropWhile_cons_of_neg hc⟩

/-- A comparison is one token. -/
theorem readToken_comparison (c : Comparison) (n : Nat) {rest : List Char}
    (hrest : NoDigit (c.tail.toList ++ rest)) :
    readToken (c.text n ++ rest) = some (.atom (.compare c n), rest) := by
  have hdigits : (toString n).toList = Nat.toDigits 10 n := Nat.toList_repr
  have hall : ∀ d ∈ (toString n).toList, d.isDigit = true := fun d hd =>
    Nat.isDigit_of_mem_toDigits (by decide : 0 < 10) (by decide) (hdigits ▸ hd)
  obtain ⟨htakeRest, hdropRest⟩ := span_noDigit hrest
  have htake : ((toString n).toList ++ (c.tail.toList ++ rest)).takeWhile Char.isDigit =
      (toString n).toList := by
    rw [List.takeWhile_append_of_pos hall, htakeRest, List.append_nil]
  have hdrop : ((toString n).toList ++ (c.tail.toList ++ rest)).dropWhile Char.isDigit =
      c.tail.toList ++ rest := by
    rw [List.dropWhile_append_of_pos hall, hdropRest]
  have htext : c.text n ++ rest =
      c.head.toList ++ ((toString n).toList ++ (c.tail.toList ++ rest)) := by
    rw [Comparison.text, List.append_assoc, List.append_assoc]
  have hcomparison : readComparison c (c.text n ++ rest) = some (.atom (.compare c n), rest) := by
    rw [readComparison, htext, readWord_append, Option.bind_eq_bind, Option.bind_some, htake,
      hdrop, hdigits, parseDigits_toDigits, Option.bind_eq_bind, Option.bind_some, readWord_append]
    rfl
  rw [readToken]
  rw [htext] at hcomparison ⊢
  rw [words_comparison, Option.orElse_none]
  refine findSome?_of_unique (by cases c <;> decide) hcomparison ?_
  intro c' hc'
  rw [readComparison, readWord_other hc']
  rfl

theorem lexes_comparison (c : Comparison) (n : Nat) : Lexes (c.text n) [.atom (.compare c n)] := by
  have hne : c.text n ≠ [] := by
    cases c <;> exact List.cons_ne_nil _ _
  refine ⟨List.length_pos_iff.2 hne, fun rest fuel hrest => ?_⟩
  refine readTokens_cons (List.append_ne_nil_of_left_ne_nil hne rest) ?_ fuel
  refine readToken_comparison c n ?_
  cases c with
  | found => exact fun d hd => by rw [← Option.some.inj hd]; decide
  | before => exact fun d hd => by rw [← Option.some.inj hd]; decide
  | after => exact fun d hd => by rw [← Option.some.inj hd]; decide
  | folderIs => exact hrest
  | folderIsNot => exact hrest
  | minSize => exact hrest
  | maxSize => exact hrest

theorem lexesAny_opening : LexesAny ['('] [.opening] := lexesAny_one (by decide) fun _ => rfl

theorem lexesAny_closing : LexesAny [')'] [Token.closing] := lexesAny_one (by decide) fun _ => rfl

theorem lexesAny_and : LexesAny " AND ".toList [.and] := lexesAny_one (by decide) fun _ => rfl

theorem lexesAny_or : LexesAny " OR ".toList [.or] := lexesAny_one (by decide) fun _ => rfl

theorem lexesAny_not : LexesAny "NOT ".toList [.not] := lexesAny_one (by decide) fun _ => rfl

theorem lexesAny_always : LexesAny "1=1".toList [.atom .always] :=
  lexesAny_one (by decide) fun _ => rfl

theorem lexesAny_never : LexesAny "1=0".toList [.atom .never] :=
  lexesAny_one (by decide) fun _ => rfl

theorem Lexes.parenthesized (h : Lexes s ts) :
    LexesAny (parenthesized s) (.opening :: (ts ++ [Token.closing])) :=
  lexesAny_opening.append (h.append lexesAny_closing (by decide) fun d hd => by
    rw [← Option.some.inj hd]
    decide)

/-- Texts joined by a word that does not start with a digit. -/
theorem lexes_join {sep : List Char} {sepTokens : List (Token Atom)} (hsep : LexesAny sep sepTokens)
    (hne : sep ≠ []) (hdigit : NoDigit sep) {parts : List (List Char)}
    {tss : List (List (Token Atom))} (h : List.Forall₂ Lexes parts tss) (hparts : parts ≠ []) :
    Lexes (sep.intercalate parts) (sepTokens.intercalate tss) := by
  induction h with
  | nil => exact absurd rfl hparts
  | @cons s ts parts tss hs hrest ih =>
      cases parts with
      | nil =>
          cases hrest
          rw [List.intercalate_singleton, List.intercalate_singleton]
          exact hs
      | cons s' parts =>
          cases hrest with
          | cons hs' hrest =>
              rw [List.intercalate_cons_cons, List.intercalate_cons_cons]
              exact (hs.append hsep hne hdigit).appendLexes (ih (List.cons_ne_nil _ _))

end Lexing

/-! ## Filters -/

/-- The operators of a filter. -/
inductive Operator where
  | and
  | or
  | not
deriving DecidableEq

def Operator.name : Operator → String
  | .and => "AND"
  | .or => "OR"
  | .not => "NOT"

/-- A filter: a condition with its properties, or an operator over filters. -/
inductive Filter where
  | condition (obj : Json)
  | operator (op : Operator) (conditions : List Filter)

mutual

/-- The JSON value is the filter. -/
def Filter.Reads : Filter → Json → Prop
  | .condition obj, j =>
      j = obj ∧ (∃ members, obj = .object members) ∧ obj.get? "operator" = none
  | .operator op conditions, j =>
      j.get? "operator" = some (.string op.name) ∧
        ∃ conds, j.get? "conditions" = some (.array conds) ∧ allRead conditions conds

def allRead : List Filter → List Json → Prop
  | [], [] => True
  | f :: fs, j :: js => f.Reads j ∧ allRead fs js
  | _, _ => False

end

/-- A property of a condition: a mailbox that does not exist, or a comparison. -/
inductive Leaf where
  | never
  | compare (c : Comparison) (p : Param)

/-- The value of a property. -/
def Leaf.value (db : SqlFunctions) (row : CachedRow) : Leaf → Option Bool
  | .never => some false
  | .compare c p => c.value db row p

/-- A text property; one without a searchable character asks for nothing. -/
def textLeaves (x : FilterTables) (column raw : String) : List Leaf :=
  let q := sanitizeFtsTerm x raw.toList
  if q = [] then [] else [.compare .found (.text (matchExpr column q))]

/-- `inMailbox`, which no message has where the mailbox is not known. -/
def mailboxLeaf (x : FilterTables) (id : String) : Leaf :=
  match x.idToLabel id with
  | some label => .compare .folderIs (.text label)
  | none => .never

/-- `inMailboxOtherThan`, over the mailboxes that are known. -/
def otherMailboxLeaves (x : FilterTables) (arr : List Json) : List Leaf :=
  ((arr.filterMap Json.asStr).filterMap x.idToLabel).map fun label =>
    .compare .folderIsNot (.text label)

/-- The properties of a condition. -/
def properties (x : FilterTables) (obj : Json) : List Leaf :=
  let string (name : String) : List String := ((obj.get? name).bind Json.asStr).toList
  let integer (name : String) : List Int := ((obj.get? name).bind Json.asI64).toList
  (string "inMailbox").map (mailboxLeaf x) ++
    ((obj.get? "inMailboxOtherThan").bind Json.asArray).toList.flatMap (otherMailboxLeaves x) ++
    (string "subject").flatMap (textLeaves x "subject") ++
    (string "from").flatMap (textLeaves x "sender") ++
    (string "to").flatMap (textLeaves x "recipients") ++
    (string "body").flatMap (textLeaves x "body_text") ++
    (string "text").flatMap (textLeaves x "") ++
    (integer "minSize").map (fun n => .compare .minSize (.integer n)) ++
    (integer "maxSize").map (fun n => .compare .maxSize (.integer n)) ++
    (string "before").map (fun s => .compare .before (.text s.toList)) ++
    (string "after").map fun s => .compare .after (.text s.toList)

mutual

/-- The boolean meaning of a filter: a condition is the conjunction of its properties, AND means
all, OR means any and NOT means none of the conditions. -/
def Filter.holds (x : FilterTables) (db : SqlFunctions) (row : CachedRow) : Filter → Bool
  | .condition obj => (properties x obj).all fun leaf => leaf.value db row = some true
  | .operator .and conditions => (conditionsHold x db row conditions).all id
  | .operator .or conditions => (conditionsHold x db row conditions).any id
  | .operator .not conditions => !(conditionsHold x db row conditions).any id

def conditionsHold (x : FilterTables) (db : SqlFunctions) (row : CachedRow) : List Filter → List Bool
  | [] => []
  | f :: fs => f.holds x db row :: conditionsHold x db row fs

end

/-! ## Conditions -/

/-- The clause of a property. -/
def Clauses.pushLeaf (b : Clauses) : Leaf → Clauses
  | .never => b.pushText "1=0"
  | .compare c p => b.push c p

/-- The parameters of properties. -/
def leafParams (leaves : List Leaf) : List Param :=
  leaves.filterMap fun
    | .compare _ p => some p
    | .never => none

/-- The texts of properties after `n` parameters. -/
def leafTexts : Nat → List Leaf → List (List Char)
  | _, [] => []
  | n, .never :: leaves => "1=0".toList :: leafTexts n leaves
  | n, .compare c _ :: leaves => c.text (n + 1) :: leafTexts (n + 1) leaves

/-- The atoms of properties after `n` parameters. -/
def leafAtoms : Nat → List Leaf → List Atom
  | _, [] => []
  | n, .never :: leaves => .never :: leafAtoms n leaves
  | n, .compare c _ :: leaves => .compare c (n + 1) :: leafAtoms (n + 1) leaves

section Conditions

variable {x : FilterTables} {db : SqlFunctions} {row : CachedRow} {leaves : List Leaf}

theorem foldl_pushLeaf (leaves : List Leaf) (b : Clauses) :
    leaves.foldl Clauses.pushLeaf b =
      ⟨b.parts ++ leafTexts b.params.length leaves, b.params ++ leafParams leaves⟩ := by
  induction leaves generalizing b with
  | nil => rw [List.foldl_nil, leafTexts, leafParams, List.filterMap_nil, List.append_nil, List.append_nil]
  | cons leaf leaves ih =>
      rw [List.foldl_cons, ih]
      cases leaf with
      | never =>
          have hparams : leafParams (.never :: leaves) = leafParams leaves := rfl
          rw [leafTexts, hparams, Clauses.pushLeaf, Clauses.pushText]
          simp only [List.append_assoc, List.singleton_append]
      | compare c p =>
          have hparams : leafParams (.compare c p :: leaves) = p :: leafParams leaves := rfl
          rw [leafTexts, hparams, Clauses.pushLeaf, Clauses.push]
          simp only [List.append_assoc, List.singleton_append, List.length_append,
            List.length_singleton]

/-- A step of `build_condition` pushes the properties of one member. -/
theorem withSome_eq {α : Type} (b : Clauses) (value : Option α) {f : Clauses → α → Clauses}
    {g : α → List Leaf} (h : ∀ b a, f b a = (g a).foldl Clauses.pushLeaf b) :
    b.withSome value f = (value.toList.flatMap g).foldl Clauses.pushLeaf b := by
  cases value with
  | none => rfl
  | some a =>
      rw [Clauses.withSome, h, Option.toList_some, List.flatMap_singleton]

theorem withSome_map {α : Type} (b : Clauses) (value : Option α) {f : Clauses → α → Clauses}
    {g : α → Leaf} (h : ∀ b a, f b a = b.pushLeaf (g a)) :
    b.withSome value f = (value.toList.map g).foldl Clauses.pushLeaf b := by
  cases value with
  | none => rfl
  | some a => exact h b a

theorem withSome_push {α : Type} (b : Clauses) (value : Option α) (c : Comparison) (p : α → Param) :
    (b.withSome value fun b a => b.push c (p a)) =
      (value.toList.map fun a => Leaf.compare c (p a)).foldl Clauses.pushLeaf b :=
  withSome_map b value fun _ _ => rfl

theorem pushFtsClause_eq (b : Clauses) (column raw : String) :
    pushFtsClause x b column raw = (textLeaves x column raw).foldl Clauses.pushLeaf b := by
  unfold pushFtsClause textLeaves
  dsimp only
  split
  · rfl
  · rfl

theorem pushInMailbox_eq (b : Clauses) (id : String) :
    pushInMailbox x b id = b.pushLeaf (mailboxLeaf x id) := by
  unfold pushInMailbox mailboxLeaf
  cases x.idToLabel id with
  | none => rfl
  | some label => rfl

theorem pushInMailboxOtherThan_eq (b : Clauses) (arr : List Json) :
    pushInMailboxOtherThan x b arr = (otherMailboxLeaves x arr).foldl Clauses.pushLeaf b := by
  unfold pushInMailboxOtherThan otherMailboxLeaves
  rw [List.foldl_map]
  rfl

/-- `build_condition` writes the properties of the condition. -/
theorem buildCondition_eq (obj : Json) (params : List Param) :
    buildCondition x obj params =
      (" AND ".toList.intercalate (leafTexts params.length (properties x obj)),
        params ++ leafParams (properties x obj)) := by
  have hall : buildCondition x obj params =
      (" AND ".toList.intercalate
          ((properties x obj).foldl Clauses.pushLeaf ⟨[], params⟩).parts,
        ((properties x obj).foldl Clauses.pushLeaf ⟨[], params⟩).params) := by
    unfold buildCondition properties
    dsimp only
    rw [List.foldl_append, List.foldl_append, List.foldl_append, List.foldl_append,
      List.foldl_append, List.foldl_append, List.foldl_append, List.foldl_append,
      List.foldl_append, List.foldl_append, withSome_map _ _ pushInMailbox_eq,
      withSome_eq _ _ pushInMailboxOtherThan_eq,
      withSome_eq _ _ fun b s => pushFtsClause_eq b "subject" s,
      withSome_eq _ _ fun b s => pushFtsClause_eq b "sender" s,
      withSome_eq _ _ fun b s => pushFtsClause_eq b "recipients" s,
      withSome_eq _ _ fun b s => pushFtsClause_eq b "body_text" s,
      withSome_eq _ _ fun b s => pushFtsClause_eq b "" s,
      withSome_push, withSome_push, withSome_push, withSome_push]
  rw [hall, foldl_pushLeaf, List.nil_append]

theorem lexes_leafTexts (n : Nat) (leaves : List Leaf) :
    List.Forall₂ Lexes (leafTexts n leaves) ((leafAtoms n leaves).map fun a => [.atom a]) := by
  induction leaves generalizing n with
  | nil => exact List.Forall₂.nil
  | cons leaf leaves ih =>
      cases leaf with
      | never => exact List.Forall₂.cons lexesAny_never.lexes (ih n)
      | compare c p => exact List.Forall₂.cons (lexes_comparison c (n + 1)) (ih (n + 1))

/-- Each placeholder has the parameter that was pushed for it. -/
theorem value_leafAtoms {params all : List Param} (h : params ++ leafParams leaves <+: all) :
    List.Forall₂ (fun a leaf => Atom.value db row all a = leaf.value db row)
      (leafAtoms params.length leaves) leaves := by
  induction leaves generalizing params with
  | nil => exact List.Forall₂.nil
  | cons leaf leaves ih =>
      cases leaf with
      | never => exact List.Forall₂.cons rfl (ih h)
      | compare c p =>
          have hparams : leafParams (.compare c p :: leaves) = p :: leafParams leaves := rfl
          rw [hparams] at h
          have hget : all[params.length]? = some p := by
            obtain ⟨rest, rfl⟩ := h
            rw [List.append_assoc, List.getElem?_append_right (Nat.le_refl _), Nat.sub_self]
            rfl
          have hpushed : params ++ [p] ++ leafParams leaves <+: all := by
            rw [List.append_assoc, List.singleton_append]
            exact h
          have hrest := ih hpushed
          rw [List.length_append, List.length_singleton] at hrest
          refine List.Forall₂.cons ?_ hrest
          rw [Atom.value, Nat.add_sub_cancel, hget]
          rfl

end Conditions

/-! ## What is written -/

/-- An expression written after some parameters: its own parameters follow them, and it is the empty
text, or a text of the tokens. -/
structure Wrote (r : List Char × List Param) (params new : List Param) (ts : List (Token Atom)) :
    Prop where
  added : r.2 = params ++ new
  text : r.1 = [] ∧ ts = [] ∨ ts ≠ [] ∧ Lexes r.1 ts
  numbers : placeholdersOf ts = List.range' (params.length + 1) new.length

/-- The value `v` stands for `b`: it is true when `b` is, and `strict`ly it is not NULL. -/
def Means (strict : Bool) (v : Option Bool) (b : Bool) : Prop :=
  (v = some true ↔ b = true) ∧ (strict = true → v = some b)

/-- With the parameters, the tokens have a value that stands for `b`. -/
def Says (db : SqlFunctions) (row : CachedRow) (params : List Param) (ts : List (Token Atom))
    (strict b : Bool) : Prop :=
  ∀ all, params <+: all → ∃ v, OrValue (Atom.value db row all) ts v ∧ Means strict v b

section Writing

variable {x : FilterTables} {db : SqlFunctions} {row : CachedRow} {strict : Bool}
  {v : Option Bool} {b : Bool} {vs : List (Option Bool)} {bs : List Bool}

theorem means_some (strict b : Bool) : Means strict (some b) b :=
  ⟨Option.some_inj, fun _ => rfl⟩

theorem Means.not (h : Means true v b) : Means strict (v.map Bool.not) (!b) := by
  rw [h.2 rfl]
  exact means_some strict (!b)

/-- Where nothing is NULL, the values are the boolean ones. -/
theorem map_some_of_strict (h : List.Forall₂ (Means true) vs bs) : vs = bs.map some := by
  induction h with
  | nil => rfl
  | cons hv _ ih => rw [List.map_cons, ← ih, hv.2 rfl]

theorem means_all (h : List.Forall₂ (Means strict) vs bs) : Means strict (allValue vs) (bs.all id) := by
  constructor
  · rw [allValue_eq_true_iff]
    induction h with
    | nil => simp
    | cons hv _ ih =>
        rw [List.forall_mem_cons, ih, hv.1, List.all_cons, Bool.and_eq_true]
        rfl
  · rintro rfl
    rw [map_some_of_strict h, allValue_some]

theorem means_any (h : List.Forall₂ (Means strict) vs bs) : Means strict (anyValue vs) (bs.any id) := by
  constructor
  · rw [anyValue_eq_true_iff]
    induction h with
    | nil => simp
    | cons hv _ ih =>
        rw [List.any_cons, Bool.or_eq_true, ← ih]
        simp only [List.mem_cons, exists_eq_or_imp, hv.1, id]
  · rintro rfl
    rw [map_some_of_strict h, anyValue_some]

theorem placeholdersOf_append (ts us : List (Token Atom)) :
    placeholdersOf (ts ++ us) = placeholdersOf ts ++ placeholdersOf us := List.filterMap_append

theorem placeholdersOf_join {sep : Token Atom} (h : placeholdersOf [sep] = [])
    (tss : List (List (Token Atom))) :
    placeholdersOf ([sep].intercalate tss) = (tss.map placeholdersOf).flatten := by
  induction tss with
  | nil => rfl
  | cons ts tss ih =>
      cases tss with
      | nil => rw [List.intercalate_singleton, List.map_singleton, List.flatten_singleton]
      | cons us tss =>
          have hcons : ((ts :: us :: tss).map placeholdersOf).flatten =
              placeholdersOf ts ++ ((us :: tss).map placeholdersOf).flatten := rfl
          rw [List.intercalate_cons_cons, placeholdersOf_append, placeholdersOf_append, h, ih,
            List.append_nil, hcons]

theorem Lexes.ne_nil {s : List Char} {ts : List (Token Atom)} (h : Lexes s ts) (hts : ts ≠ []) :
    s ≠ [] := by
  rintro rfl
  exact hts (List.length_eq_zero_iff.1 (Nat.le_zero.1 h.length))

theorem intercalate_ne_nil {sep : Token Atom} {ts : List (Token Atom)}
    {tss : List (List (Token Atom))} (h : ts ≠ []) : [sep].intercalate (ts :: tss) ≠ [] := by
  cases tss with
  | nil => rwa [List.intercalate_singleton]
  | cons us tss =>
      rw [List.intercalate_cons_cons, List.append_assoc]
      exact List.append_ne_nil_of_left_ne_nil h _

theorem numbers_leafAtoms (n : Nat) (leaves : List Leaf) :
    (((leafAtoms n leaves).map fun a => [Token.atom a]).map placeholdersOf).flatten =
      List.range' (n + 1) (leafParams leaves).length := by
  induction leaves generalizing n with
  | nil => rfl
  | cons leaf leaves ih =>
      cases leaf with
      | never => exact ih n
      | compare c p =>
          have hparams : leafParams (.compare c p :: leaves) = p :: leafParams leaves := rfl
          have hatoms : leafAtoms n (.compare c p :: leaves) =
              .compare c (n + 1) :: leafAtoms (n + 1) leaves := rfl
          have hone : placeholdersOf [.atom (.compare c (n + 1))] = [n + 1] := rfl
          rw [hparams, hatoms, List.map_cons, List.map_cons, List.flatten_cons, ih, hone,
            List.length_cons, List.range'_succ]
          rfl

/-- **A condition** says that all its properties hold. -/
theorem wrote_condition (obj : Json) (params : List Param) :
    ∃ ts, Wrote (buildCondition x obj params) params (leafParams (properties x obj)) ts ∧
      (ts = [] ↔ properties x obj = []) ∧
      ∀ strict : Bool,
        (strict = true → ∀ leaf ∈ properties x obj, leaf.value db row ≠ none) → ts ≠ [] →
        Says db row (params ++ leafParams (properties x obj)) ts strict
          (Filter.holds x db row (.condition obj)) := by
  have hand : placeholdersOf [.and] = [] := rfl
  have hlexes := lexes_leafTexts params.length (properties x obj)
  have hnumbers := numbers_leafAtoms params.length (properties x obj)
  rw [← placeholdersOf_join hand] at hnumbers
  have hvalues := fun all h => @value_leafAtoms db row (properties x obj) params all h
  rw [buildCondition_eq, Filter.holds]
  generalize hleaves : properties x obj = leaves at *
  refine ⟨[.and].intercalate ((leafAtoms params.length leaves).map fun a => [.atom a]),
    ⟨rfl, ?_, hnumbers⟩, ?_, ?_⟩
  · cases leaves with
    | nil => exact Or.inl ⟨rfl, rfl⟩
    | cons leaf leaves =>
        refine Or.inr ⟨?_, lexes_join lexesAny_and (by decide) (fun d hd => ?_) hlexes ?_⟩
        · cases leaf <;> exact intercalate_ne_nil (List.cons_ne_nil _ _)
        · rw [← Option.some.inj hd]
          decide
        · cases leaf <;> exact List.cons_ne_nil _ _
  · cases leaves with
    | nil => exact iff_of_true rfl rfl
    | cons leaf leaves =>
        refine iff_of_false ?_ (List.cons_ne_nil _ _)
        cases leaf <;> exact intercalate_ne_nil (List.cons_ne_nil _ _)
  · intro strict hnull hts all hall
    have hne : ((leafAtoms params.length leaves).map fun a => [Token.atom a]) ≠ [] := by
      intro hnil
      rw [hnil] at hts
      exact hts rfl
    have hparts : List.Forall₂ (NotValue (Atom.value db row all))
        ((leafAtoms params.length leaves).map fun a => [Token.atom a])
        (leaves.map fun leaf => leaf.value db row) := by
      rw [List.forall₂_map_left_iff, List.forall₂_map_right_iff]
      exact (hvalues all hall).imp fun a leaf hvalue =>
        ⟨.atom a, (readsPrimary_atom a).not, hvalue⟩
    obtain ⟨e, hreads, hvalue⟩ := readsAnd_join hparts hne
    refine ⟨_, ⟨e, hreads.or, rfl⟩, ?_⟩
    rw [hvalue]
    have hleaves : List.Forall₂ (Means strict) (leaves.map fun leaf => leaf.value db row)
        (leaves.map fun leaf => decide (leaf.value db row = some true)) := by
      rw [List.forall₂_map_left_iff, List.forall₂_map_right_iff, List.forall₂_same]
      intro leaf hleaf
      refine ⟨decide_eq_true_iff.symm, fun hstrict => ?_⟩
      have hsome := hnull hstrict leaf hleaf
      cases hcase : leaf.value db row with
      | none => exact absurd hcase hsome
      | some w => cases w <;> rfl
    have hmeans := means_all hleaves
    rw [List.all_map] at hmeans
    exact hmeans

end Writing

/-! ## Filters that keep their meaning -/

/-- The filter is not a condition that asks for nothing. -/
def Filter.Constrains (x : FilterTables) : Filter → Prop
  | .condition obj => properties x obj ≠ []
  | .operator _ _ => True

mutual

/-- Within the depths that are left, every filter of an OR or a NOT asks for something, and
`strict`ly, below a NOT, no property is NULL. -/
def Filter.Sound (x : FilterTables) (db : SqlFunctions) (row : CachedRow) :
    Nat → Bool → Filter → Prop
  | 0, _, _ => False
  | _ + 1, strict, .condition obj =>
      strict = true → ∀ leaf ∈ properties x obj, leaf.value db row ≠ none
  | levels + 1, strict, .operator .and conditions =>
      allSound x db row levels strict false conditions
  | levels + 1, strict, .operator .or conditions => allSound x db row levels strict true conditions
  | levels + 1, _, .operator .not conditions => allSound x db row levels true true conditions

/-- `Sound` for each of the filters, and where `full` every one asks for something. -/
def allSound (x : FilterTables) (db : SqlFunctions) (row : CachedRow) :
    Nat → Bool → Bool → List Filter → Prop
  | _, _, _, [] => True
  | levels, strict, full, f :: fs =>
      f.Sound x db row levels strict ∧ (full = true → f.Constrains x) ∧
        allSound x db row levels strict full fs

end

/-- What building a filter comes to. -/
def BuildSays (x : FilterTables) (db : SqlFunctions) (row : CachedRow) (levels : Nat) (f : Filter)
    (r : List Char × List Param) (params : List Param) : Prop :=
  ∃ new ts, Wrote r params new ts ∧ ∀ strict, f.Sound x db row levels strict →
    (ts = [] → ¬f.Constrains x ∧ f.holds x db row = true) ∧
    (ts ≠ [] → Says db row (params ++ new) ts strict (f.holds x db row))

/-- The parts of an operator, as `buildFilterExpr` has them. -/
def partsOf (texts : List (List Char)) : List (List Char) :=
  (texts.filter (· ≠ [])).map parenthesized

/-- What building the filters of an operator comes to: the filters that are left have values that
stand for `bs`. -/
def PartsSay (x : FilterTables) (db : SqlFunctions) (row : CachedRow) (levels : Nat)
    (fs : List Filter) (r : List (List Char) × List Param) (params : List Param) : Prop :=
  ∃ new tss, r.2 = params ++ new ∧ List.Forall₂ Lexes (partsOf r.1) tss ∧ (∀ ts ∈ tss, ts ≠ []) ∧
    (tss.map placeholdersOf).flatten = List.range' (params.length + 1) new.length ∧
    ∀ strict full, allSound x db row levels strict full fs →
      ∃ bs : List Bool, bs.all id = (conditionsHold x db row fs).all id ∧
        (full = true → bs = conditionsHold x db row fs) ∧
        ∀ all, params ++ new <+: all →
          ∃ vs, List.Forall₂ (NotValue (Atom.value db row all)) tss vs ∧
            List.Forall₂ (Means strict) vs bs

section Operators

variable {x : FilterTables} {db : SqlFunctions} {row : CachedRow} {levels : Nat}

theorem eq_nil_of_numbers {n : Nat} {new : List Param} (h : [] = List.range' n new.length) :
    new = [] := by
  have hlen := congrArg List.length h
  rw [List.length_range'] at hlen
  exact List.length_eq_zero_iff.1 hlen.symm

/-- A filter in front of filters. -/
theorem partsSay_cons {f : Filter} {fs : List Filter} {text : List Char}
    {texts : List (List Char)} {params params' params'' : List Param}
    (h : BuildSays x db row levels f (text, params') params)
    (h' : PartsSay x db row levels fs (texts, params'') params') :
    PartsSay x db row levels (f :: fs) (text :: texts, params'') params := by
  obtain ⟨new, ts, ⟨hadded, htext, hnumbers⟩, hspec⟩ := h
  obtain ⟨new', tss, hadded', hlexes, htss, hnumbers', hspec'⟩ := h'
  dsimp only at hadded htext hadded'
  subst hadded
  rcases htext with ⟨rfl, rfl⟩ | ⟨hts, hlex⟩
  · -- a filter that says nothing is left out
    obtain rfl := eq_nil_of_numbers hnumbers
    rw [List.append_nil] at hadded' hnumbers' hspec'
    refine ⟨new', tss, hadded', hlexes, htss, hnumbers', fun strict full hsound => ?_⟩
    obtain ⟨hf, hfull, hfs⟩ := hsound
    obtain ⟨hfree, hholds⟩ := (hspec strict hf).1 rfl
    obtain ⟨bs, hall, hbs, hvalues⟩ := hspec' strict full hfs
    refine ⟨bs, ?_, fun h => absurd (hfull h) hfree, hvalues⟩
    rw [conditionsHold, List.all_cons, hholds, hall]
    rfl
  · have hne := hlex.ne_nil hts
    have hparts : partsOf (text :: texts) = parenthesized text :: partsOf texts := by
      unfold partsOf
      rw [List.filter_cons_of_pos (by simpa using hne), List.map_cons]
    have hopen : placeholdersOf (.opening :: (ts ++ [Token.closing])) = placeholdersOf ts := by
      have hclosing : placeholdersOf [Token.closing] = [] := rfl
      have hcons : placeholdersOf (.opening :: (ts ++ [Token.closing])) =
          placeholdersOf (ts ++ [Token.closing]) := rfl
      rw [hcons, placeholdersOf_append, hclosing, List.append_nil]
    refine ⟨new ++ new', (.opening :: (ts ++ [Token.closing])) :: tss, ?_, ?_, ?_, ?_, ?_⟩
    · rw [hadded', List.append_assoc]
    · rw [hparts]
      exact List.Forall₂.cons hlex.parenthesized.lexes hlexes
    · exact List.forall_mem_cons.2 ⟨List.cons_ne_nil _ _, htss⟩
    · rw [List.map_cons, List.flatten_cons, hopen, hnumbers, hnumbers', List.length_append,
        List.length_append, List.range'_append_1.symm, Nat.add_right_comm]
    · rintro strict full ⟨hf, hfull, hfs⟩
      obtain ⟨bs, hall, hbs, hvalues⟩ := hspec' strict full hfs
      refine ⟨f.holds x db row :: bs, ?_, fun h => ?_, fun all hpushed => ?_⟩
      · rw [conditionsHold, List.all_cons, List.all_cons, hall]
      · rw [conditionsHold, hbs h]
      · rw [← List.append_assoc] at hpushed
        obtain ⟨vs, hvs, hmeans⟩ := hvalues all hpushed
        obtain ⟨v, ⟨e, hreads, hvalue⟩, hmean⟩ :=
          (hspec strict hf).2 hts all ((List.prefix_append _ _).trans hpushed)
        exact ⟨v :: vs, List.Forall₂.cons ⟨e, hreads.paren.not, hvalue⟩ hvs,
          List.Forall₂.cons hmean hmeans⟩

/-- One atom that every row, or none, passes. -/
theorem wrote_constant {text : List Char} {a : Atom} {params : List Param}
    (hlex : LexesAny text [.atom a]) (hnumbers : placeholdersOf [.atom a] = []) :
    Wrote (text, params) params [] [.atom a] :=
  ⟨(List.append_nil _).symm, Or.inr ⟨List.cons_ne_nil _ _, hlex.lexes⟩, hnumbers⟩

theorem says_constant {a : Atom} {params : List Param} {strict b : Bool}
    (h : ∀ all, Atom.value db row all a = some b) : Says db row params [.atom a] strict b :=
  fun all _ => ⟨some b, ⟨.atom a, (readsPrimary_atom a).not.and.or, h all⟩, means_some strict b⟩

/-- **AND** means all of its filters; those that say nothing are true. -/
theorem buildSays_and {fs : List Filter} {r : List (List Char) × List Param} {params : List Param}
    (h : PartsSay x db row levels fs r params) :
    BuildSays x db row (levels + 1) (.operator .and fs) (operatorText "AND" (partsOf r.1), r.2)
      params := by
  obtain ⟨new, tss, hadded, hlexes, htss, hnumbers, hspec⟩ := h
  have htext : operatorText "AND" (partsOf r.1) =
      if partsOf r.1 = [] then "1=1".toList else " AND ".toList.intercalate (partsOf r.1) := rfl
  rw [htext]
  generalize partsOf r.1 = parts at hlexes ⊢
  cases hlexes with
  | nil =>
      obtain rfl := eq_nil_of_numbers hnumbers
      rw [if_pos rfl, hadded, List.append_nil]
      refine ⟨[], [.atom .always], wrote_constant lexesAny_always rfl, fun strict hsound =>
        ⟨fun hts => absurd hts (List.cons_ne_nil _ _), fun _ => ?_⟩⟩
      obtain ⟨bs, hall, -, hvalues⟩ := hspec strict false hsound
      obtain ⟨vs, hvs, hmeans⟩ := hvalues _ (List.prefix_refl _)
      cases hvs
      cases hmeans
      rw [Filter.holds, ← hall]
      exact says_constant fun _ => rfl
  | @cons s ts parts tss hs hrest =>
      have hlex := lexes_join lexesAny_and (by decide)
        (fun d hd => by rw [← Option.some.inj hd]; decide) (List.Forall₂.cons hs hrest)
        (List.cons_ne_nil _ _)
      rw [if_neg (List.cons_ne_nil _ _)]
      refine ⟨new, [.and].intercalate (ts :: tss), ⟨hadded, Or.inr ⟨?_, hlex⟩, ?_⟩, ?_⟩
      · exact intercalate_ne_nil (htss ts List.mem_cons_self)
      · rw [placeholdersOf_join rfl, hnumbers]
      · refine fun strict hsound => ⟨fun hts => ?_, fun _ all hpushed => ?_⟩
        · exact absurd hts (intercalate_ne_nil (htss ts List.mem_cons_self))
        · obtain ⟨bs, hall, -, hvalues⟩ := hspec strict false hsound
          obtain ⟨vs, hvs, hmeans⟩ := hvalues all hpushed
          obtain ⟨e, hreads, hvalue⟩ := readsAnd_join hvs (List.cons_ne_nil _ _)
          rw [Filter.holds, ← hall]
          exact ⟨_, ⟨e, hreads.or, hvalue⟩, means_all hmeans⟩

/-- **OR** means any of its filters, where none of them was left out. -/
theorem buildSays_or {fs : List Filter} {r : List (List Char) × List Param} {params : List Param}
    (h : PartsSay x db row levels fs r params) :
    BuildSays x db row (levels + 1) (.operator .or fs) (operatorText "OR" (partsOf r.1), r.2)
      params := by
  obtain ⟨new, tss, hadded, hlexes, htss, hnumbers, hspec⟩ := h
  have htext : operatorText "OR" (partsOf r.1) =
      if partsOf r.1 = [] then "1=0".toList else " OR ".toList.intercalate (partsOf r.1) := rfl
  rw [htext]
  generalize partsOf r.1 = parts at hlexes ⊢
  cases hlexes with
  | nil =>
      obtain rfl := eq_nil_of_numbers hnumbers
      rw [if_pos rfl, hadded, List.append_nil]
      refine ⟨[], [.atom .never], wrote_constant lexesAny_never rfl, fun strict hsound =>
        ⟨fun hts => absurd hts (List.cons_ne_nil _ _), fun _ => ?_⟩⟩
      obtain ⟨bs, -, hbs, hvalues⟩ := hspec strict true hsound
      obtain ⟨vs, hvs, hmeans⟩ := hvalues _ (List.prefix_refl _)
      cases hvs
      cases hmeans
      rw [Filter.holds, ← hbs rfl]
      exact says_constant fun _ => rfl
  | @cons s ts parts tss hs hrest =>
      have hlex := lexes_join lexesAny_or (by decide)
        (fun d hd => by rw [← Option.some.inj hd]; decide) (List.Forall₂.cons hs hrest)
        (List.cons_ne_nil _ _)
      rw [if_neg (List.cons_ne_nil _ _)]
      refine ⟨new, [.or].intercalate (ts :: tss), ⟨hadded, Or.inr ⟨?_, hlex⟩, ?_⟩, ?_⟩
      · exact intercalate_ne_nil (htss ts List.mem_cons_self)
      · rw [placeholdersOf_join rfl, hnumbers]
      · refine fun strict hsound => ⟨fun hts => ?_, fun _ all hpushed => ?_⟩
        · exact absurd hts (intercalate_ne_nil (htss ts List.mem_cons_self))
        · obtain ⟨bs, -, hbs, hvalues⟩ := hspec strict true hsound
          obtain ⟨vs, hvs, hmeans⟩ := hvalues all hpushed
          rw [Filter.holds, ← hbs rfl]
          exact ⟨_, readsOr_join hvs (List.cons_ne_nil _ _), means_any hmeans⟩

/-- **NOT** means none of its filters, where none was left out and nothing is NULL. -/
theorem buildSays_not {fs : List Filter} {r : List (List Char) × List Param} {params : List Param}
    (h : PartsSay x db row levels fs r params) :
    BuildSays x db row (levels + 1) (.operator .not fs) (operatorText "NOT" (partsOf r.1), r.2)
      params := by
  obtain ⟨new, tss, hadded, hlexes, htss, hnumbers, hspec⟩ := h
  have htext : operatorText "NOT" (partsOf r.1) =
      if partsOf r.1 = [] then "1=1".toList
      else "NOT ".toList ++ parenthesized (" OR ".toList.intercalate (partsOf r.1)) := rfl
  rw [htext]
  generalize partsOf r.1 = parts at hlexes ⊢
  cases hlexes with
  | nil =>
      obtain rfl := eq_nil_of_numbers hnumbers
      rw [if_pos rfl, hadded, List.append_nil]
      refine ⟨[], [.atom .always], wrote_constant lexesAny_always rfl, fun strict hsound =>
        ⟨fun hts => absurd hts (List.cons_ne_nil _ _), fun _ => ?_⟩⟩
      obtain ⟨bs, -, hbs, hvalues⟩ := hspec true true hsound
      obtain ⟨vs, hvs, hmeans⟩ := hvalues _ (List.prefix_refl _)
      cases hvs
      cases hmeans
      rw [Filter.holds, ← hbs rfl]
      exact says_constant fun _ => rfl
  | @cons s ts parts tss hs hrest =>
      have hlex := lexes_join lexesAny_or (by decide)
        (fun d hd => by rw [← Option.some.inj hd]; decide) (List.Forall₂.cons hs hrest)
        (List.cons_ne_nil _ _)
      have hclosing : placeholdersOf [Token.closing] = [] := rfl
      have hopen : ∀ us, placeholdersOf (.not :: .opening :: (us ++ [Token.closing])) =
          placeholdersOf (us ++ [Token.closing]) := fun _ => rfl
      rw [if_neg (List.cons_ne_nil _ _)]
      refine ⟨new, .not :: .opening :: ([.or].intercalate (ts :: tss) ++ [Token.closing]),
        ⟨hadded, Or.inr ⟨List.cons_ne_nil _ _, (lexesAny_not.append hlex.parenthesized).lexes⟩, ?_⟩,
        ?_⟩
      · rw [hopen, placeholdersOf_append, hclosing, List.append_nil, placeholdersOf_join rfl,
          hnumbers]
      · refine fun strict hsound => ⟨fun hts => absurd hts (List.cons_ne_nil _ _),
          fun _ all hpushed => ?_⟩
        obtain ⟨bs, -, hbs, hvalues⟩ := hspec true true hsound
        obtain ⟨vs, hvs, hmeans⟩ := hvalues all hpushed
        obtain ⟨e, hreads, hvalue⟩ := readsOr_join hvs (List.cons_ne_nil _ _)
        rw [Filter.holds, ← hbs rfl]
        refine ⟨_, ⟨.not e, hreads.paren.not.negate.and.or, rfl⟩, ?_⟩
        rw [Expr.eval, hvalue]
        exact (means_any hmeans).not

/-- A filter that is cut off has no text. -/
theorem buildSays_cutOff (f : Filter) (params : List Param) :
    BuildSays x db row 0 f ([], params) params := by
  refine ⟨[], [], ⟨(List.append_nil _).symm, Or.inl ⟨rfl, rfl⟩, rfl⟩, fun strict hsound => ?_⟩
  cases f with
  | condition obj => exact hsound.elim
  | operator op conditions => exact hsound.elim

theorem get?_isObject {j v : Json} {name : String} (h : j.get? name = some v) :
    ∃ members, j = .object members := by
  cases j with
  | object members => exact ⟨members, rfl⟩
  | null => cases h
  | bool b => cases h
  | number literal => cases h
  | string s => cases h
  | array items => cases h

mutual

/-- **Building a filter.** -/
theorem build_spec : ∀ (f : Filter) (j : Json) (levels : Nat) (params : List Param), f.Reads j →
    BuildSays x db row levels f (buildFilterExpr x levels j params) params
  | f, j, 0, params, hreads => buildSays_cutOff f params
  | .condition obj, j, levels + 1, params, hreads => by
      obtain ⟨rfl, ⟨members, rfl⟩, hnone⟩ := hreads
      have hbuild : buildFilterExpr x (levels + 1) (.object members) params =
          buildCondition x (.object members) params := by
        rw [buildFilterExpr, hnone]
        rfl
      rw [hbuild]
      refine ⟨leafParams (properties x (.object members)), ?_⟩
      obtain ⟨ts, hwrote, hempty, hspec⟩ :=
        @wrote_condition x db row (.object members) params
      refine ⟨ts, hwrote, fun strict hsound => ⟨fun hts => ?_, fun hts => ?_⟩⟩
      · have hnil := hempty.1 hts
        refine ⟨fun hsome => hsome hnil, ?_⟩
        rw [Filter.holds, hnil]
        rfl
      · exact hspec strict hsound hts
  | .operator op conditions, j, levels + 1, params, hreads => by
      obtain ⟨hop, conds, hconds, hall⟩ := hreads
      obtain ⟨members, rfl⟩ := get?_isObject hop
      have hparts := buildAll_spec conditions conds levels params hall
      have hbuild : buildFilterExpr x (levels + 1) (.object members) params =
          (operatorText op.name (partsOf (buildAll (buildFilterExpr x levels) conds params).1),
            (buildAll (buildFilterExpr x levels) conds params).2) := by
        rw [buildFilterExpr, hop, hconds]
        rfl
      rw [hbuild]
      cases op with
      | and => exact buildSays_and hparts
      | or => exact buildSays_or hparts
      | not => exact buildSays_not hparts

theorem buildAll_spec : ∀ (fs : List Filter) (js : List Json) (levels : Nat) (params : List Param),
    allRead fs js →
    PartsSay x db row levels fs (buildAll (buildFilterExpr x levels) js params) params
  | [], [], levels, params, hreads => by
      refine ⟨[], [], (List.append_nil _).symm, List.Forall₂.nil, fun ts hts => (nomatch hts), rfl,
        fun strict full _ => ⟨[], rfl, fun _ => rfl, fun all _ =>
          ⟨[], List.Forall₂.nil, List.Forall₂.nil⟩⟩⟩
  | f :: fs, j :: js, levels, params, hreads =>
      partsSay_cons (build_spec f j levels params hreads.1)
        (buildAll_spec fs js levels _ hreads.2)

end

/-- The text of a filter with the condition that it is added to. -/
theorem lexes_filter {body : List Char} {ts : List (Token Atom)} (h : Lexes body ts) :
    Lexes ("1=1".toList ++ (" AND ".toList ++ parenthesized body))
      ([.atom .always] ++ ([.and] ++ .opening :: (ts ++ [Token.closing]))) :=
  (lexesAny_always.append (lexesAny_and.append h.parenthesized)).lexes

end Operators

/-! ## Filters that are accepted -/

mutual

/-- Every property is a known one. -/
def Filter.Known : Filter → Prop
  | .condition obj => ∀ members, obj = .object members →
      ∀ m ∈ members, knownFilterFields.contains m.1 = true
  | .operator _ conditions => allKnown conditions

def allKnown : List Filter → Prop
  | [] => True
  | f :: fs => f.Known ∧ allKnown fs

end

mutual

/-- `unsupported_filter_field` accepts the filters whose properties are known. -/
theorem unsupportedFilterField_eq_none_iff : ∀ (f : Filter) (j : Json), f.Reads j →
    (unsupportedFilterField j = none ↔ f.Known)
  | .condition obj, j, hreads => by
      obtain ⟨rfl, ⟨members, rfl⟩, hnone⟩ := hreads
      have hlookup : members.lookup "operator" = none := hnone
      rw [unsupportedFilterField, hlookup, if_neg (by decide), List.find?_eq_none, Filter.Known]
      constructor
      · rintro h members' heq m hm
        obtain rfl := Json.object.inj heq
        simpa using h m.1 (List.mem_map_of_mem hm)
      · intro h k hk
        obtain ⟨m, hm, rfl⟩ := List.mem_map.1 hk
        simpa using h members rfl m hm
  | .operator op conditions, j, hreads => by
      obtain ⟨hop, conds, hconds, hall⟩ := hreads
      obtain ⟨members, rfl⟩ := get?_isObject hop
      have hlookup : members.lookup "operator" = some (.string op.name) := hop
      have hlookup' : members.lookup "conditions" = some (.array conds) := hconds
      have hconditions := allSupported_iff conditions conds hall
      have hsome : (some (Json.string op.name)).isSome = true := rfl
      rw [unsupportedFilterField, hlookup, if_pos hsome, Filter.Known, ← hconditions]
      split
      · rename_i arr heq
        obtain rfl := Json.array.inj (Option.some.inj (hlookup'.symm.trans heq))
        rw [List.findSome?_eq_none_iff]
        simp
      · rename_i hother
        exact absurd hlookup' (hother conds)

theorem allSupported_iff : ∀ (fs : List Filter) (js : List Json), allRead fs js →
    ((∀ j ∈ js, unsupportedFilterField j = none) ↔ allKnown fs)
  | [], [], hreads => by simp [allKnown]
  | f :: fs, j :: js, hreads => by
      rw [List.forall_mem_cons, unsupportedFilterField_eq_none_iff f j hreads.1,
        allSupported_iff fs js hreads.2, allKnown]

end

/-! ## A filter that asks for nothing under OR -/

/-- No alphanumeric characters beyond those of ASCII, and no mailboxes. -/
def plainTables : FilterTables where
  isAlphanumeric := Char.isAlphanum
  idToLabel _ := none

/-- No dates and no hits. -/
def plainFunctions : SqlFunctions where
  julianday _ := none
  found _ _ := false

/-- A message of one byte. -/
def smallRow : CachedRow := ⟨"a1", "inbox".toList, 1, none⟩

/-- Messages of ten bytes or more. -/
def largeOnly : Json := .object [("minSize", .number "10")]

end AsterBridge.Jmap.EmailFilter
