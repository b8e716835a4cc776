import AsterBridge.Lib.Json

/-!
# References to earlier results

`resolve_back_refs_with_names` of the dispatcher: an argument `#k` names an earlier call and a path
into its response, and is replaced by `k` with what stands there. The path is read more freely than
RFC 8620 says: slashes at its start do not count, an index may have a sign and zeros in front, and
an element of `*` in which the rest of the path leads nowhere is left out.

`Rules` are what the two readings of a path differ in. `result_references_are_resolved` says what
the dispatcher does, and that it gives the value of RFC 8620 wherever that one gives any.
-/

set_option autoImplicit false

namespace AsterBridge.Jmap.ResultReferences

open AsterBridge.Lib AsterBridge.Lib.Json

/-! ## The dispatcher -/

/-- `replace` of a pair of characters by one. -/
def replacePair (a b c : Char) : List Char → List Char
  | x :: y :: rest =>
      if x = a ∧ y = b then c :: replacePair a b c rest else x :: replacePair a b c (y :: rest)
  | rest => rest

/-- The segment that `eval` looks for. -/
def decoded (head : List Char) : List Char :=
  replacePair '~' '0' '~' (replacePair '~' '1' '/' head)

/-- The loop of `eval` over an array: a result that is an array is put in with its elements. -/
def collect (f : Json → Option Json) : List Json → List Json
  | [] => []
  | item :: items =>
      match f item with
      | some (.array inner) => inner ++ collect f items
      | some other => other :: collect f items
      | none => collect f items

/-- `eval` -/
def eval : List (List Char) → Json → Option Json
  | [], node => some node
  | head :: rest, node =>
      if decoded head = ['*'] then
        node.asArray.map fun arr => array (collect (eval rest) arr)
      else
        match node with
        | .array arr =>
            (Text.parseUInt (2 ^ 64) (String.ofList (decoded head))).bind fun i =>
              arr[i]?.bind (eval rest)
        | .object members => (members.lookup (String.ofList (decoded head))).bind (eval rest)
        | _ => none

/-- `MAX_POINTER_SEGMENTS` -/
def maxPointerSegments : Nat := 256

/-- The path has at most 256 segments, and one `*`. -/
def WithinLimits (parts : List (List Char)) : Prop :=
  parts.length ≤ maxPointerSegments ∧ parts.count ['*'] ≤ 1

instance (parts : List (List Char)) : Decidable (WithinLimits parts) :=
  inferInstanceAs (Decidable (_ ∧ _))

/-- `json_pointer_with_wildcard` -/
def jsonPointerWithWildcard (root : Json) (path : List Char) : Option Json :=
  let trimmed := path.dropWhile fun c => c == '/'
  if trimmed = [] then some root
  else
    let parts := trimmed.splitOn '/'
    if WithinLimits parts then eval parts root else none

/-- The names of the arguments that are references. -/
def isReference (name : String) : Bool := name.toList.head? == some '#'

/-- A text of a reference. -/
def field (hashKey name : String) (ref : Json) : Except String String :=
  match (ref.get? name).bind asStr with
  | some s => .ok s
  | none => .error (hashKey ++ ": missing " ++ name)

/-- The value of a reference. -/
def resolveRef (byCallId : String → Option Json) (byCallName : String → Option String)
    (hashKey : String) (ref : Json) : Except String Json := do
  let resultOf ← field hashKey "resultOf" ref
  let name ← field hashKey "name" ref
  let path ← field hashKey "path" ref
  match (byCallName resultOf).filter fun expected => expected ≠ name with
  | some expected =>
      .error (hashKey ++ ": name " ++ name ++ " does not match referenced call " ++ expected)
  | none =>
      match byCallId resultOf with
      | none => .error (hashKey ++ ": no prior call " ++ resultOf)
      | some prior =>
          match jsonPointerWithWildcard prior path.toList with
          | none => .error (hashKey ++ ": pointer " ++ path ++ " did not resolve")
          | some resolved => .ok resolved

/-- The loop over the references. -/
def resolveKeys (byCallId : String → Option Json) (byCallName : String → Option String) :
    List String → Json → Except String Json
  | [], args => .ok args
  | hashKey :: keys, args =>
      match resolveRef byCallId byCallName hashKey ((args.get? hashKey).getD .null) with
      | .error e => .error e
      | .ok resolved =>
          let realKey := String.ofList (hashKey.toList.dropWhile fun c => c == '#')
          resolveKeys byCallId byCallName keys ((args.remove hashKey).set realKey resolved)

/-- `resolve_back_refs_with_names` -/
def resolveBackRefsWithNames (byCallId : String → Option Json)
    (byCallName : String → Option String) (args : Json) : Except String Json :=
  match args with
  | .object members =>
      resolveKeys byCallId byCallName ((members.map Prod.fst).filter isReference) args
  | _ => .ok args

/-! ## What a path refers to -/

/-- What a reading of a path decides. -/
structure Rules where
  /-- the segments of a path -/
  segments : List Char → Option (List (List Char))
  /-- the index that a segment is -/
  index : List Char → Option Nat
  /-- what comes of the elements under `*` -/
  each : (Json → Option Json) → List Json → Option (List Json)

/-- The escapes `~1` and `~0`. -/
def unescape : List Char → List Char
  | '~' :: '1' :: rest => '/' :: unescape rest
  | '~' :: '0' :: rest => '~' :: unescape rest
  | c :: rest => c :: unescape rest
  | [] => []

/-- A value under `*` is put in as it is, an array with its elements. -/
def spread : Json → List Json
  | .array inner => inner
  | other => [other]

/-- A segment leads on to what `f` finds below it. -/
def Rules.step (r : Rules) (segment : List Char) (f : Json → Option Json) (v : Json) :
    Option Json :=
  if segment = ['*'] then
    match v with
    | .array items => (r.each f items).map fun values => array (values.flatMap spread)
    | _ => none
  else
    match v with
    | .array items => (r.index (unescape segment)).bind fun i => items[i]?.bind f
    | .object members => (members.lookup (String.ofList (unescape segment))).bind f
    | _ => none

/-- What the segments refer to in a value. -/
def Rules.refers (r : Rules) : List (List Char) → Json → Option Json
  | [], v => some v
  | segment :: rest, v => r.step segment (r.refers rest) v

/-- What a path refers to. -/
def Rules.value (r : Rules) (path : List Char) (root : Json) : Option Json :=
  (r.segments path).bind fun parts => if WithinLimits parts then r.refers parts root else none

/-- A slash in front of each segment. -/
def pointerSegments : List Char → Option (List (List Char))
  | [] => some []
  | '/' :: path => some (path.splitOn '/')
  | _ => none

/-- The number that is written so; no array has as many elements as the bound. -/
def canonicalIndex (s : List Char) : Option Nat :=
  (Text.parseDigits s).filter fun n => Nat.toDigits 10 n = s ∧ n < 2 ^ 64

/-- The reading of RFC 8620: all elements under `*` have to resolve. -/
def rfc8620 : Rules := ⟨pointerSegments, canonicalIndex, fun f items => items.mapM f⟩

/-- The reading of the dispatcher. -/
def dispatcher : Rules where
  segments path :=
    let trimmed := path.dropWhile fun c => c == '/'
    some (if trimmed = [] then [] else trimmed.splitOn '/')
  index s := Text.parseUInt (2 ^ 64) (String.ofList s)
  each f items := some (items.filterMap f)

/-! ## The dispatcher reads by its rules -/

/-- The two replacements are one reading of the escapes. -/
theorem decoded_eq (head : List Char) : decoded head = unescape head := by
  have hcons : ∀ (c : Char) (cs : List Char), c ≠ '~' →
      replacePair '~' '0' '~' (c :: cs) = c :: replacePair '~' '0' '~' cs := by
    intro c cs hc
    cases cs with
    | nil => rfl
    | cons d ds => rw [replacePair, if_neg fun h => hc h.1]
  unfold decoded
  induction head using unescape.induct with
  | case1 rest ih =>
      rw [replacePair, if_pos ⟨rfl, rfl⟩, hcons _ _ (by decide), ih, unescape]
  | case2 rest ih =>
      have hzero : replacePair '~' '1' '/' ('0' :: rest) = '0' :: replacePair '~' '1' '/' rest := by
        cases rest with
        | nil => rfl
        | cons d ds => rw [replacePair, if_neg fun h => absurd h.1 (by decide)]
      rw [replacePair, if_neg fun h => absurd h.2 (by decide), hzero, replacePair,
        if_pos ⟨rfl, rfl⟩, ih, unescape]
  | case3 c rest hone hzero ih =>
      have hunescape : unescape (c :: rest) = c :: unescape rest := by
        rw [unescape]
        · exact hone
        · exact hzero
      rw [hunescape, ← ih]
      cases rest with
      | nil => rfl
      | cons d ds =>
          have hnot : ¬(c = '~' ∧ d = '1') := by
            rintro ⟨rfl, rfl⟩
            exact hone ds rfl rfl
          rw [replacePair, if_neg hnot]
          by_cases hc : c = '~'
          · -- the next character stays in front, and it is no zero
            subst hc
            have hd : d ≠ '0' := by
              rintro rfl
              exact hzero ds rfl rfl
            have hnext : ∃ e es, replacePair '~' '1' '/' (d :: ds) = e :: es ∧ e ≠ '0' := by
              cases ds with
              | nil => exact ⟨d, [], rfl, hd⟩
              | cons e es =>
                  rw [replacePair]
                  split
                  · exact ⟨_, _, rfl, by decide⟩
                  · exact ⟨_, _, rfl, hd⟩
            obtain ⟨e, es, heq, he⟩ := hnext
            rw [heq, replacePair, if_neg fun h => he h.2]
          · exact hcons _ _ hc
  | case4 => rfl

theorem decoded_eq_star (head : List Char) : decoded head = ['*'] ↔ head = ['*'] := by
  rw [decoded_eq]
  constructor
  · intro h
    cases head using unescape.induct with
    | case1 rest => cases h
    | case2 rest => cases h
    | case3 c rest hone hzero =>
        have hunescape : unescape (c :: rest) = c :: unescape rest := by
          rw [unescape]
          · exact hone
          · exact hzero
        rw [hunescape] at h
        obtain ⟨rfl, hrest⟩ := List.cons.inj h
        cases rest with
        | nil => rfl
        | cons d ds =>
            unfold unescape at hrest
            split at hrest
            · cases hrest
            · cases hrest
            · cases hrest
            · rename_i hnil
              cases hnil
    | case4 => cases h
  · rintro rfl
    rfl

theorem collect_eq (f : Json → Option Json) (items : List Json) :
    collect f items = (items.filterMap f).flatMap spread := by
  induction items with
  | nil => rfl
  | cons item items ih =>
      rw [collect]
      split
      · rename_i inner heq
        rw [List.filterMap_cons_some heq, List.flatMap_cons, ih]
        rfl
      · rename_i other hother heq
        rw [List.filterMap_cons_some heq, List.flatMap_cons, ih]
        cases other with
        | array inner => exact absurd rfl (hother inner)
        | _ => rfl
      · rename_i heq
        rw [List.filterMap_cons_none heq, ih]

theorem eval_eq (parts : List (List Char)) (node : Json) :
    eval parts node = dispatcher.refers parts node := by
  induction parts generalizing node with
  | nil => rfl
  | cons head rest ih =>
      have hrest : eval rest = dispatcher.refers rest := funext ih
      rw [Rules.refers, ← hrest]
      unfold eval Rules.step
      by_cases hstar : head = ['*']
      · rw [if_pos ((decoded_eq_star head).mpr hstar), if_pos hstar]
        cases node with
        | array items =>
            rw [asArray, Option.map_some, collect_eq]
            rfl
        | _ => rfl
      · rw [if_neg (hstar ∘ (decoded_eq_star head).mp), if_neg hstar, decoded_eq]
        rfl

/-- **The dispatcher reads a path by its rules.** -/
theorem jsonPointerWithWildcard_eq (root : Json) (path : List Char) :
    jsonPointerWithWildcard root path = dispatcher.value path root := by
  unfold jsonPointerWithWildcard Rules.value dispatcher
  dsimp only
  split
  · rfl
  · rw [Option.bind_some]
    exact if_congr Iff.rfl (eval_eq _ _) rfl

/-! ## The rules of RFC 8620 -/

theorem index_of_canonical {s : List Char} {i : Nat} (h : canonicalIndex s = some i) :
    dispatcher.index s = some i := by
  obtain ⟨hparse, hrest⟩ := Option.filter_eq_some_iff.mp h
  have hcanonical : Nat.toDigits 10 i = s ∧ i < 2 ^ 64 := by simpa using hrest
  have hparsed : Text.parseUInt (2 ^ 64) (toString i) = some i := by
    rw [Text.parseUInt_toString, if_pos hcanonical.2]
  have htext : String.ofList s = toString i := by
    rw [← hcanonical.1]
    apply String.toList_injective
    rw [String.toList_ofList]
    exact Nat.toList_repr.symm
  show Text.parseUInt (2 ^ 64) (String.ofList s) = some i
  rw [htext]
  exact hparsed

/-- Where all elements resolve, none is left out. -/
theorem filterMap_of_mapM {f g : Json → Option Json} (hfg : ∀ v w, f v = some w → g v = some w)
    {items values : List Json} (h : items.mapM f = some values) : items.filterMap g = values := by
  induction items generalizing values with
  | nil =>
      cases h
      rfl
  | cons item items ih =>
      rw [List.mapM_cons] at h
      obtain ⟨v, hv, h⟩ := Option.bind_eq_some_iff.mp h
      obtain ⟨vs, hvs, h⟩ := Option.bind_eq_some_iff.mp h
      cases h
      rw [List.filterMap_cons_some (hfg item v hv), ih hvs]

/-- **What the segments refer to in RFC 8620, they refer to in the dispatcher.** -/
theorem refers_of_rfc8620 {parts : List (List Char)} {root v : Json}
    (h : rfc8620.refers parts root = some v) : dispatcher.refers parts root = some v := by
  induction parts generalizing root v with
  | nil => exact h
  | cons segment rest ih =>
      rw [Rules.refers] at h ⊢
      unfold Rules.step at h ⊢
      by_cases hstar : segment = ['*']
      · rw [if_pos hstar] at h ⊢
        cases root with
        | array items =>
            obtain ⟨values, hvalues, rfl⟩ := Option.map_eq_some_iff.mp h
            have hkept := filterMap_of_mapM (fun _ _ hv => ih hv) hvalues
            show (some (items.filterMap (dispatcher.refers rest))).map _ = _
            rw [hkept]
            rfl
        | _ => cases h
      · rw [if_neg hstar] at h ⊢
        cases root with
        | array items =>
            obtain ⟨i, hi, h⟩ := Option.bind_eq_some_iff.mp h
            obtain ⟨item, hitem, h⟩ := Option.bind_eq_some_iff.mp h
            refine Option.bind_eq_some_iff.mpr ⟨i, index_of_canonical hi, ?_⟩
            exact Option.bind_eq_some_iff.mpr ⟨item, hitem, ih h⟩
        | object members =>
            obtain ⟨child, hchild, h⟩ := Option.bind_eq_some_iff.mp h
            exact Option.bind_eq_some_iff.mpr ⟨child, hchild, ih h⟩
        | _ => cases h

/-- The first segment of a path is not empty. -/
def NamesFirst (path : List Char) : Prop := ∀ rest, path = '/' :: rest → rest.head?.any (· ≠ '/')

/-- **What a path refers to in RFC 8620, it refers to in the dispatcher**, unless its first segment
is empty. -/
theorem value_of_rfc8620 {path : List Char} (hpath : NamesFirst path) {root v : Json}
    (h : rfc8620.value path root = some v) : dispatcher.value path root = some v := by
  obtain ⟨parts, hparts, h⟩ := Option.bind_eq_some_iff.mp h
  refine Option.bind_eq_some_iff.mpr ⟨parts, ?_, ?_⟩
  · cases path with
    | nil => exact hparts
    | cons c rest =>
        by_cases hc : c = '/'
        · subst hc
          have hrest := hpath rest rfl
          cases rest with
          | nil => cases hrest
          | cons d ds =>
              have hd : d ≠ '/' := by simpa using hrest
              have hdrop : ('/' :: d :: ds).dropWhile (fun c => c == '/') = d :: ds := by
                simp [hd]
              show some (if ('/' :: d :: ds).dropWhile (fun c => c == '/') = [] then []
                else (('/' :: d :: ds).dropWhile fun c => c == '/').splitOn '/') = some parts
              rw [hdrop, if_neg (List.cons_ne_nil _ _)]
              exact hparts
        · have hnone : pointerSegments (c :: rest) = none := by
            unfold pointerSegments
            split
            · rename_i heq
              cases heq
            · rename_i heq
              exact absurd (List.cons.inj heq).1 hc
            · rfl
          have hnone' : rfc8620.segments (c :: rest) = none := hnone
          rw [hnone'] at hparts
          cases hparts
  · split at h
    · rename_i hlimits
      rw [if_pos hlimits]
      exact refers_of_rfc8620 h
    · cases h

/-! ## The arguments -/

section Arguments

variable {byCallId : String → Option Json} {byCallName : String → Option String}

/-- A reference names an earlier call by its id and its name, and refers to `v` in its response. -/
def Referenced (r : Rules) (byCallId : String → Option Json) (byCallName : String → Option String)
    (ref v : Json) : Prop :=
  ∃ resultOf name path prior, ref.get? "resultOf" = some (string resultOf) ∧
    ref.get? "name" = some (string name) ∧ ref.get? "path" = some (string path) ∧
    (∀ expected, byCallName resultOf = some expected → expected = name) ∧
    byCallId resultOf = some prior ∧ r.value path.toList prior = some v

theorem field_eq_ok {hashKey name s : String} {ref : Json} :
    field hashKey name ref = .ok s ↔ ref.get? name = some (string s) := by
  unfold field
  cases h : ref.get? name with
  | none => simp
  | some j =>
      cases j with
      | string t => simp [asStr]
      | _ => simp [asStr]

/-- **What `resolve_back_refs_with_names` takes for the value of a reference.** -/
theorem resolveRef_eq_ok {hashKey : String} {ref v : Json} :
    resolveRef byCallId byCallName hashKey ref = .ok v ↔
      Referenced dispatcher byCallId byCallName ref v := by
  constructor
  · intro h
    unfold resolveRef at h
    cases hresult : field hashKey "resultOf" ref with
    | error e => simp [hresult, bind, Except.bind] at h
    | ok resultOf =>
    cases hname : field hashKey "name" ref with
    | error e => simp [hresult, hname, bind, Except.bind] at h
    | ok name =>
    cases hpath : field hashKey "path" ref with
    | error e => simp [hresult, hname, hpath, bind, Except.bind] at h
    | ok path =>
    simp only [hresult, hname, hpath, bind, Except.bind] at h
    split at h
    · cases h
    · rename_i hsame
      split at h
      · cases h
      · rename_i prior hprior
        split at h
        · cases h
        · rename_i resolved hresolved
          cases h
          refine ⟨resultOf, name, path, prior, field_eq_ok.mp hresult, field_eq_ok.mp hname,
            field_eq_ok.mp hpath, ?_, hprior, ?_⟩
          · intro expected hexpected
            rw [hexpected] at hsame
            by_contra hne
            simp [Option.filter, hne] at hsame
          · rw [← jsonPointerWithWildcard_eq]
            exact hresolved
  · rintro ⟨resultOf, name, path, prior, hresult, hname, hpath, hsame, hprior, hvalue⟩
    have hnone : ((byCallName resultOf).filter fun expected => expected ≠ name) = none := by
      cases hexpected : byCallName resultOf with
      | none => rfl
      | some expected => simp [Option.filter, hsame expected hexpected]
    unfold resolveRef
    simp only [field_eq_ok.mpr hresult, field_eq_ok.mpr hname, field_eq_ok.mpr hpath, bind,
      Except.bind, hnone, hprior, jsonPointerWithWildcard_eq, hvalue]

/-- The name that a reference gives a value to. -/
def realKey (hashKey : String) : String :=
  String.ofList (hashKey.toList.dropWhile fun c => c == '#')

theorem realKey_hash {k : String} (h : isReference k = false) : realKey ("#" ++ k) = k := by
  unfold realKey
  rw [String.toList_append]
  have hdrop : ("#".toList ++ k.toList).dropWhile (fun c => c == '#') = k.toList := by
    cases hk : k.toList with
    | nil => rfl
    | cons c cs =>
        have hc : c ≠ '#' := by
          unfold isReference at h
          rw [hk] at h
          simpa using h
        simp [hc]
  rw [hdrop, String.ofList_toList]

theorem isReference_hash (k : String) : isReference ("#" ++ k) = true := by
  unfold isReference
  rw [String.toList_append]
  rfl

theorem hash_inj {k k' : String} (h : "#" ++ k = "#" ++ k') : k = k' :=
  (String.append_right_inj _).mp h

/-- The references to be resolved: different names, each with one `#`. -/
structure Keys (keys : List String) : Prop where
  nodup : keys.Nodup
  single : ∀ key ∈ keys, ∃ k, key = "#" ++ k ∧ isReference k = false

/-- The arguments after a reference is replaced. -/
theorem get?_replaced {args : Json} (hobject : args.IsObject) (k : String) (v : Json)
    (name : String) : ((args.remove ("#" ++ k)).set k v).get? name =
      if name = k then some v else if name = "#" ++ k then none else args.get? name := by
  rw [get?_set (isObject_remove hobject ("#" ++ k)), get?_remove]

/-- **The loop.** Each reference is replaced by its value; the other arguments stay. -/
theorem resolveKeys_eq_ok {keys : List String} {args args' : Json} (hobject : args.IsObject)
    (hkeys : Keys keys) (h : resolveKeys byCallId byCallName keys args = .ok args') :
    (∀ k, "#" ++ k ∈ keys →
      (∃ v, resolveRef byCallId byCallName ("#" ++ k) ((args.get? ("#" ++ k)).getD .null) = .ok v ∧
        args'.get? k = some v) ∧ args'.get? ("#" ++ k) = none) ∧
    ∀ name, name ∉ keys → "#" ++ name ∉ keys → args'.get? name = args.get? name := by
  induction keys generalizing args with
  | nil =>
      cases h
      exact ⟨nofun, fun _ _ _ => rfl⟩
  | cons key keys ih =>
      obtain ⟨hnew, hnodup⟩ := List.nodup_cons.mp hkeys.nodup
      have hrest : Keys keys :=
        ⟨hnodup, fun key' hkey' => hkeys.single key' (List.mem_cons_of_mem _ hkey')⟩
      obtain ⟨k, rfl, hk⟩ := hkeys.single key List.mem_cons_self
      rw [resolveKeys] at h
      split at h
      · cases h
      rename_i v hv
      have hremoved := isObject_remove hobject ("#" ++ k)
      change resolveKeys byCallId byCallName keys
        ((args.remove ("#" ++ k)).set (realKey ("#" ++ k)) v) = .ok args' at h
      rw [realKey_hash hk] at h
      have hstep := get?_replaced hobject k v
      obtain ⟨hvalues, hothers⟩ := ih (isObject_set hremoved k v) hrest h
      have hne : "#" ++ k ≠ k := by
        intro heq
        have href := isReference_hash k
        rw [heq, hk] at href
        cases href
      have hnotkey : k ∉ keys := by
        intro hmem
        obtain ⟨k', rfl, -⟩ := hrest.single k hmem
        rw [isReference_hash] at hk
        cases hk
      refine ⟨?_, ?_⟩
      · intro k' hk'
        by_cases heq : k' = k
        · subst heq
          refine ⟨⟨v, hv, ?_⟩, ?_⟩
          · rw [hothers k' hnotkey hnew, hstep, if_pos rfl]
          · have hdouble : "#" ++ ("#" ++ k') ∉ keys := by
              intro hmem
              obtain ⟨k'', heq, hk''⟩ := hrest.single _ hmem
              rw [← hash_inj heq, isReference_hash] at hk''
              cases hk''
            rw [hothers _ hnew hdouble, hstep, if_neg hne, if_pos rfl]
        · have hmem : "#" ++ k' ∈ keys := by
            obtain hhead | hmem := List.mem_cons.mp hk'
            · exact absurd (hash_inj hhead) heq
            · exact hmem
          have hne' : "#" ++ k' ≠ k := by
            rintro rfl
            rw [isReference_hash] at hk
            cases hk
          have hsame := hvalues k' hmem
          rw [hstep, if_neg hne', if_neg fun h => heq (hash_inj h)] at hsame
          exact hsame
      · intro name hname hhash
        have hname' : name ≠ "#" ++ k ∧ name ∉ keys := by simpa using hname
        have hhash' : "#" ++ name ≠ "#" ++ k ∧ "#" ++ name ∉ keys := by simpa using hhash
        have hnk : name ≠ k := fun heq => hhash'.1 (heq ▸ rfl)
        rw [hothers name hname'.2 hhash'.2, hstep, if_neg hnk, if_neg hname'.1]

/-- Where the loop fails, a reference has no value. -/
theorem resolveKeys_eq_error {keys : List String} {args : Json} {e : String}
    (hobject : args.IsObject) (hkeys : Keys keys)
    (h : resolveKeys byCallId byCallName keys args = .error e) :
    ∃ k, "#" ++ k ∈ keys ∧
      ∀ v, resolveRef byCallId byCallName ("#" ++ k) ((args.get? ("#" ++ k)).getD .null) ≠ .ok v := by
  induction keys generalizing args with
  | nil => cases h
  | cons key keys ih =>
      obtain ⟨hnew, hnodup⟩ := List.nodup_cons.mp hkeys.nodup
      have hrest : Keys keys :=
        ⟨hnodup, fun key' hkey' => hkeys.single key' (List.mem_cons_of_mem _ hkey')⟩
      obtain ⟨k, rfl, hk⟩ := hkeys.single key List.mem_cons_self
      rw [resolveKeys] at h
      split at h
      · rename_i hv
        refine ⟨k, List.mem_cons_self, ?_⟩
        intro v hok
        rw [hv] at hok
        cases hok
      · rename_i v hv
        have hremoved := isObject_remove hobject ("#" ++ k)
        change resolveKeys byCallId byCallName keys
          ((args.remove ("#" ++ k)).set (realKey ("#" ++ k)) v) = .error e at h
        rw [realKey_hash hk] at h
        obtain ⟨k', hmem, hfails⟩ := ih (isObject_set hremoved k v) hrest h
        refine ⟨k', List.mem_cons_of_mem _ hmem, ?_⟩
        -- the value of a later reference is not touched before its turn
        have hne : "#" ++ k' ≠ k := by
          rintro rfl
          rw [isReference_hash] at hk
          cases hk
        have hother : "#" ++ k' ≠ "#" ++ k := by
          intro heq
          exact hnew (heq ▸ hmem)
        rw [get?_replaced hobject, if_neg hne, if_neg hother] at hfails
        exact hfails

end Arguments

/-! ## The references of a call -/

/-- The arguments have different names, and a reference `#k` stands beside neither `k` nor `##k`. -/
structure PlainReferences (members : List (String × Json)) : Prop where
  nodup : (members.map Prod.fst).Nodup
  single : ∀ name ∈ members.map Prod.fst, isReference name = true →
    ∃ k, name = "#" ++ k ∧ isReference k = false ∧ k ∉ members.map Prod.fst

theorem lookup_eq_none {members : List (String × Json)} {name : String}
    (h : name ∉ members.map Prod.fst) : members.lookup name = none := by
  rw [List.lookup_eq_none_iff]
  intro m hm
  have hne : name ≠ m.1 := by
    rintro rfl
    exact h (List.mem_map_of_mem hm)
  simpa using hne

theorem mem_of_lookup {members : List (String × Json)} {name : String} {v : Json}
    (h : members.lookup name = some v) : name ∈ members.map Prod.fst := by
  by_contra hnot
  rw [lookup_eq_none hnot] at h
  cases h

/-- **References to earlier results are resolved.** Every reference is replaced by the value that
the dispatcher reads, and the other arguments stay; where there is none for one of them, the call
fails; and the value is the one of RFC 8620 wherever that has one and the path does not begin with
an empty segment. -/
theorem result_references_are_resolved (byCallId : String → Option Json)
    (byCallName : String → Option String) (members : List (String × Json))
    (hplain : PlainReferences members) :
    (∀ args, resolveBackRefsWithNames byCallId byCallName (object members) = .ok args →
      (∀ k ref, members.lookup ("#" ++ k) = some ref →
        (∃ v, Referenced dispatcher byCallId byCallName ref v ∧ args.get? k = some v) ∧
          args.get? ("#" ++ k) = none) ∧
      ∀ name, isReference name = false → members.lookup ("#" ++ name) = none →
        args.get? name = members.lookup name) ∧
    (∀ e, resolveBackRefsWithNames byCallId byCallName (object members) = .error e →
      ∃ k ref, members.lookup ("#" ++ k) = some ref ∧
        ∀ v, ¬Referenced dispatcher byCallId byCallName ref v) ∧
    ∀ path prior v, NamesFirst path → rfc8620.value path prior = some v →
      dispatcher.value path prior = some v := by
  have hkeys : Keys ((members.map Prod.fst).filter isReference) := by
    refine ⟨hplain.nodup.filter _, ?_⟩
    intro key hkey
    obtain ⟨hmem, href⟩ := List.mem_filter.mp hkey
    obtain ⟨k, heq, hk, -⟩ := hplain.single key hmem href
    exact ⟨k, heq, hk⟩
  have hmem : ∀ k, "#" ++ k ∈ (members.map Prod.fst).filter isReference ↔
      "#" ++ k ∈ members.map Prod.fst := by
    intro k
    rw [List.mem_filter, and_iff_left (isReference_hash k)]
  refine ⟨?_, ?_, fun path prior v hpath hvalue => value_of_rfc8620 hpath hvalue⟩
  · intro args hok
    obtain ⟨hvalues, hothers⟩ := resolveKeys_eq_ok (isObject_object members) hkeys hok
    refine ⟨?_, ?_⟩
    · intro k ref href
      obtain ⟨⟨v, hv, hk⟩, hgone⟩ := hvalues k ((hmem k).mpr (mem_of_lookup href))
      rw [get?_object, href, Option.getD_some] at hv
      exact ⟨⟨v, resolveRef_eq_ok.mp hv, hk⟩, hgone⟩
    · intro name hname hnone
      rw [hothers name, get?_object]
      · intro hkey
        rw [(List.mem_filter.mp hkey).2] at hname
        cases hname
      · rw [hmem]
        intro hin
        obtain ⟨m, hm, heq⟩ := List.mem_map.mp hin
        have hnot := List.lookup_eq_none_iff.mp hnone m hm
        simp [heq] at hnot
  · intro e herror
    obtain ⟨k, hkey, hfails⟩ := resolveKeys_eq_error (isObject_object members) hkeys herror
    obtain ⟨m, hm, heq⟩ := List.mem_map.mp ((hmem k).mp hkey)
    cases hlookup : members.lookup ("#" ++ k) with
    | none =>
        have hnot := List.lookup_eq_none_iff.mp hlookup m hm
        simp [heq] at hnot
    | some ref =>
        refine ⟨k, ref, hlookup, ?_⟩
        intro v hv
        rw [get?_object, hlookup, Option.getD_some] at hfails
        exact hfails v (resolveRef_eq_ok.mpr hv)

/-- A response in which one of two objects has no id. -/
def listed : Json :=
  object [("list", array [object [("id", string "a")], object []])]

/-- A reference into the response of the call "0". -/
def intoList (path : String) : Json :=
  object [("resultOf", string "0"), ("name", string "Email/get"), ("path", string path)]

/-- The reference to the first id gets its value, and the other argument stays. -/
theorem first_id_is_resolved :
    ∃ args, resolveBackRefsWithNames (fun _ => some listed) (fun _ => none)
        (object [("accountId", string "A"), ("#ids", intoList "/list/0/id")]) = .ok args ∧
      args.get? "accountId" = some (string "A") ∧
      ∃ v, Referenced dispatcher (fun _ => some listed) (fun _ => none) (intoList "/list/0/id") v ∧
        args.get? "ids" = some v := by
  have hplain : PlainReferences
      [("accountId", string "A"), ("#ids", intoList "/list/0/id")] := by
    refine ⟨by decide, ?_⟩
    intro name hname href
    obtain rfl | rfl : name = "accountId" ∨ name = "#ids" := by simpa using hname
    · exact absurd href (by decide)
    · exact ⟨"ids", rfl, by decide, by decide⟩
  refine ⟨object [("accountId", string "A"), ("ids", string "a")], rfl, rfl, ?_⟩
  obtain ⟨hresolved, -, -⟩ :=
    result_references_are_resolved (fun _ => some listed) (fun _ => none) _ hplain
  exact ((hresolved _ rfl).1 "ids" (intoList "/list/0/id") rfl).1

/-- An element without an id is left out, where RFC 8620 says that the reference fails. -/
theorem element_without_id_is_dropped :
    (∀ v, ¬Referenced rfc8620 (fun _ => some listed) (fun _ => none) (intoList "/list/*/id") v) ∧
      resolveBackRefsWithNames (fun _ => some listed) (fun _ => none)
        (object [("#ids", intoList "/list/*/id")]) = .ok (object [("ids", strings ["a"])]) := by
  refine ⟨?_, rfl⟩
  rintro v ⟨resultOf, name, path, prior, -, -, hpath, -, hprior, hvalue⟩
  cases hpath
  cases hprior
  have hnone : rfc8620.value "/list/*/id".toList listed = none := rfl
  rw [hnone] at hvalue
  cases hvalue

end AsterBridge.Jmap.ResultReferences
