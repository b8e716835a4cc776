import AsterBridge.Lib.Json
import AsterBridge.Lib.Words

/-!
# Filters of Email/query

The translation of a filter to SQL in `jmap/methods/email.rs`. It makes a text with numbered
placeholders and the parameters for them; an expression that says nothing is the empty text. A depth
is given as the number of levels that are left.
-/

set_option autoImplicit false

namespace AsterBridge.Jmap.EmailFilter

open AsterBridge.Lib AsterBridge.Lib.Text

/-- `is_alphanumeric` of the standard library, and the labels of the mailboxes. -/
structure FilterTables where
  isAlphanumeric : Char → Bool
  idToLabel : String → Option (List Char)

/-- A parameter, `rusqlite::types::Value`. -/
inductive Param where
  | text (s : List Char)
  | integer (n : Int)
deriving DecidableEq

/-! ## Comparisons -/

/-- The comparisons with a parameter. -/
inductive Comparison where
  | folderIs
  | folderIsNot
  | found
  | minSize
  | maxSize
  | before
  | after
deriving DecidableEq

/-- The text up to the number of the placeholder. -/
def Comparison.head : Comparison → String
  | .folderIs => "m.folder = ?"
  | .folderIsNot => "m.folder != ?"
  | .found => "m.aster_id IN (SELECT aster_id FROM message_fts WHERE message_fts MATCH ?"
  | .minSize => "m.size >= ?"
  | .maxSize => "m.size <= ?"
  | .before => "julianday(m.date) < julianday(?"
  | .after => "julianday(m.date) >= julianday(?"

/-- The text after it. -/
def Comparison.tail : Comparison → String
  | .found | .before | .after => ")"
  | _ => ""

/-- The text of a comparison with placeholder `n`. -/
def Comparison.text (c : Comparison) (n : Nat) : List Char :=
  c.head.toList ++ (toString n).toList ++ c.tail.toList

/-! ## Conditions -/

/-- `parts` and `params`. -/
structure Clauses where
  parts : List (List Char)
  params : List Param

/-- A comparison with the next parameter. -/
def Clauses.push (b : Clauses) (c : Comparison) (p : Param) : Clauses :=
  { parts := b.parts ++ [c.text (b.params.length + 1)], params := b.params ++ [p] }

/-- A part without a parameter. -/
def Clauses.pushText (b : Clauses) (s : String) : Clauses :=
  { b with parts := b.parts ++ [s.toList] }

/-- `replace('"', "\"\"")` -/
def doubleQuotes (s : List Char) : List Char := s.flatMap fun c => if c = '"' then ['"', '"'] else [c]

/-- `sanitize_fts_term` -/
def sanitizeFtsTerm (x : FilterTables) (input : List Char) : List Char :=
  let trimmed := trim input
  if trimmed = [] then []
  else
    let tokens := (splitWhitespace trimmed).filterMap fun tok =>
      let cleaned := tok.filter fun c =>
        x.isAlphanumeric c || c = '\'' || c = '-' || c = '_' || c = '@' || c = '.'
      if cleaned = [] then none else some ('"' :: doubleQuotes cleaned ++ ['"'])
    [' '].intercalate tokens

/-- The query that `push_fts_clause` makes of a term. -/
def matchExpr (column : String) (q : List Char) : List Char :=
  if column = "" then q else column.toList ++ ": ".toList ++ q

/-- `push_fts_clause` -/
def pushFtsClause (x : FilterTables) (b : Clauses) (column : String) (raw : String) : Clauses :=
  let q := sanitizeFtsTerm x raw.toList
  if q = [] then b else b.push .found (.text (matchExpr column q))

/-- `if let Some(v) = .. { .. }` -/
def Clauses.withSome {α : Type} (b : Clauses) (value : Option α) (f : Clauses → α → Clauses) :
    Clauses :=
  match value with
  | some v => f b v
  | none => b

/-- The clause of `inMailbox`. -/
def pushInMailbox (x : FilterTables) (b : Clauses) (id : String) : Clauses :=
  match x.idToLabel id with
  | some label => b.push .folderIs (.text label)
  | none => b.pushText "1=0"

/-- The clauses of `inMailboxOtherThan`; an id that is not known makes none. -/
def pushInMailboxOtherThan (x : FilterTables) (b : Clauses) (arr : List Json) : Clauses :=
  ((arr.filterMap Json.asStr).filterMap x.idToLabel).foldl
    (fun b label => b.push .folderIsNot (.text label)) b

/-- `build_condition` -/
def buildCondition (x : FilterTables) (obj : Json) (params : List Param) :
    List Char × List Param :=
  let string (name : String) : Option String := (obj.get? name).bind Json.asStr
  let integer (name : String) : Option Int := (obj.get? name).bind Json.asI64
  let b : Clauses := ⟨[], params⟩
  let b := b.withSome (string "inMailbox") (pushInMailbox x)
  let b := b.withSome ((obj.get? "inMailboxOtherThan").bind Json.asArray) (pushInMailboxOtherThan x)
  let b := b.withSome (string "subject") fun b s => pushFtsClause x b "subject" s
  let b := b.withSome (string "from") fun b s => pushFtsClause x b "sender" s
  let b := b.withSome (string "to") fun b s => pushFtsClause x b "recipients" s
  let b := b.withSome (string "body") fun b s => pushFtsClause x b "body_text" s
  let b := b.withSome (string "text") fun b s => pushFtsClause x b "" s
  let b := b.withSome (integer "minSize") fun b n => b.push .minSize (.integer n)
  let b := b.withSome (integer "maxSize") fun b n => b.push .maxSize (.integer n)
  let b := b.withSome (string "before") fun b s => b.push .before (.text s.toList)
  let b := b.withSome (string "after") fun b s => b.push .after (.text s.toList)
  (" AND ".toList.intercalate b.parts, b.params)

/-! ## Expressions -/

/-- `map` with the parameters. -/
def buildAll (build : Json → List Param → List Char × List Param) :
    List Json → List Param → List (List Char) × List Param
  | [], params => ([], params)
  | c :: cs, params =>
      let (text, params) := build c params
      let (texts, params) := buildAll build cs params
      (text :: texts, params)

/-- `format!("({})", s)` -/
def parenthesized (s : List Char) : List Char := '(' :: (s ++ [')'])

/-- The text of an operator over its parts. -/
def operatorText (op : String) (parts : List (List Char)) : List Char :=
  match op with
  | "AND" => if parts = [] then "1=1".toList else " AND ".toList.intercalate parts
  | "OR" => if parts = [] then "1=0".toList else " OR ".toList.intercalate parts
  | "NOT" =>
      if parts = [] then "1=1".toList
      else "NOT ".toList ++ parenthesized (" OR ".toList.intercalate parts)
  | _ => []

/-- `build_filter_expr` with `levels` depths left. -/
def buildFilterExpr (x : FilterTables) : Nat → Json → List Param → List Char × List Param
  | 0, _, params => ([], params)
  | levels + 1, f, params =>
      match f with
      | .object _ =>
          match (f.get? "operator").bind Json.asStr with
          | some op =>
              match (f.get? "conditions").bind Json.asArray with
              | none => ([], params)
              | some conds =>
                  let (texts, params) := buildAll (buildFilterExpr x levels) conds params
                  (operatorText op ((texts.filter (· ≠ [])).map parenthesized), params)
          | none => buildCondition x f params
      | _ => ([], params)

/-- `MAX_FILTER_DEPTH` -/
def maxFilterDepth : Nat := 32

/-- `build_filter` -/
def buildFilter (x : FilterTables) (filter : Option Json) : List Char × List Param :=
  match filter with
  | none => ([], [])
  | some f =>
      let (body, params) := buildFilterExpr x (maxFilterDepth + 1) f []
      if body = [] then ([], params) else (" AND ".toList ++ parenthesized body, params)

/-! ## Unknown properties -/

/-- `KNOWN_FILTER_FIELDS` -/
def knownFilterFields : List String :=
  ["inMailbox", "inMailboxOtherThan", "subject", "from", "to", "body", "text",
    "minSize", "maxSize", "before", "after"]

theorem mem_of_lookup {name : String} {j : Json} {members : List (String × Json)}
    (h : members.lookup name = some j) : (name, j) ∈ members := by
  induction members with
  | nil => cases h
  | cons m members ih =>
      obtain ⟨key, v⟩ := m
      rw [List.lookup_cons] at h
      split at h
      · rename_i hkey
        obtain rfl := Option.some.inj h
        rw [eq_of_beq hkey]
        exact List.mem_cons_self
      · exact List.mem_cons_of_mem _ (ih h)

/-- `unsupported_filter_field` -/
def unsupportedFilterField : Json → Option String
  | .object members =>
      if (members.lookup "operator").isSome then
        match _h : members.lookup "conditions" with
        | some (.array arr) => arr.attach.findSome? fun ⟨c, _⟩ => unsupportedFilterField c
        | _ => none
      else (members.map Prod.fst).find? fun k => !knownFilterFields.contains k
  | _ => none
termination_by j => sizeOf j
decreasing_by
  rename_i hc
  have hmember := List.sizeOf_lt_of_mem (mem_of_lookup _h)
  have hitem := List.sizeOf_lt_of_mem hc
  simp only [Prod.mk.sizeOf_spec, Json.array.sizeOf_spec, Json.object.sizeOf_spec] at hmember ⊢
  omega

end AsterBridge.Jmap.EmailFilter
