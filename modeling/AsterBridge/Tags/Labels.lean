import AsterBridge.Tags.Keywords
import Mathlib.Data.List.Sort

/-!
# Labels and their aliases

`tags.rs`: every label gets a keyword of its own, and mail clients know it under the forms
they make of its name. `alias_rows` gives each form to one label, and `find_by_keyword` looks
first for a keyword and then for an alias. What the rows show is what the lookup finds.
-/

set_option autoImplicit false

namespace AsterBridge.Tags

open AsterBridge.Lib AsterBridge.Lib.Text

/-! ## Labels -/

local instance lawfulBEqKeyword : LawfulBEq (List Char) := inferInstance

/-- `CustomTag` -/
structure CustomTag where
  tagToken : String
  serverId : String
  name : List Char
  keyword : Option (List Char)
  position : ℤ
deriving DecidableEq

/-- `to_ascii_lowercase` -/
def lower (cs : List Char) : List Char := cs.map Char.toLower

/-- The order of `sort_by` on the tokens. -/
def byToken (a b : CustomTag) : Bool := decide (a.tagToken ≤ b.tagToken)

/-- The keyword that a label asks for: that of its path, or that of its name. -/
def wantedKeyword (paths : String → Option (List Char)) (tag : CustomTag) :
    Option (List Char) :=
  ((paths tag.tagToken).bind keywordForText).or (keywordForName tag.name)

/-- The loop of `assign_keywords`. -/
def assignFrom (paths : String → Option (List Char)) (taken : List (List Char)) :
    List CustomTag → List CustomTag
  | [] => []
  | tag :: rest =>
      match (wantedKeyword paths tag).filter fun keyword => lower keyword ∉ taken with
      | some keyword =>
          { tag with keyword := some keyword } :: assignFrom paths (lower keyword :: taken) rest
      | none => { tag with keyword := none } :: assignFrom paths taken rest

/-- `assign_keywords` -/
def assignKeywords (tags : List CustomTag) (paths : String → Option (List Char)) :
    List CustomTag :=
  assignFrom paths [] (tags.mergeSort byToken)

/-! ## Aliases -/

/-- `LEGACY_KEY_REPLACED` -/
def legacyKeyReplaced : List Char := [' ', '(', ')', '/', '{', '%', '*', '<', '>', '\\', '"']

/-- `legacy_client_key` -/
def legacyClientKey (text : List Char) : List Char :=
  lower (Imap.Mutf7.encode (text.map fun c => if legacyKeyReplaced.contains c then '_' else c))

section Client

variable (sha256 : List UInt8 → List UInt8)

/-- `client_keywords` -/
def clientKeywords (text : List Char) : List (List Char) :=
  [legacyClientKey text, readableClientKey sha256 text].foldl (fun out key =>
    if isAtomKeyword key && !isLocalKeyword key && !out.any (eqIgnoreAsciiCase · key) then
      out ++ [key]
    else out) []

/-- `keyword_aliases` -/
def keywordAliases (keyword : List Char) : List (List Char) :=
  match decodeKeyword keyword with
  | none => []
  | some text => (clientKeywords sha256 text).filter fun key => !eqIgnoreAsciiCase key keyword

/-- The keywords that no alias may take. -/
def ownedKeywords (tags : List CustomTag) : List (List Char) :=
  (tags.filterMap CustomTag.keyword).filter fun keyword => !isFoldedShiftKey keyword

/-- The body of the inner loop of `alias_rows`. -/
def addAlias (owned : List (List Char)) (token : String) (rows : List (List Char × String))
    (key : List Char) : List (List Char × String) :=
  if owned.any (eqIgnoreAsciiCase · key) || rows.any (fun row => eqIgnoreAsciiCase row.1 key) then
    rows
  else rows ++ [(key, token)]

/-- The body of the outer loop of `alias_rows`. -/
def addAliases (owned : List (List Char)) (rows : List (List Char × String)) (tag : CustomTag) :
    List (List Char × String) :=
  match tag.keyword with
  | none => rows
  | some keyword => (keywordAliases sha256 keyword).foldl (addAlias owned tag.tagToken) rows

/-- `alias_rows` -/
def aliasRows (tags : List CustomTag) : List (List Char × String) :=
  (tags.mergeSort byToken).foldl (addAliases sha256 (ownedKeywords tags)) []

/-- `find_by_keyword` -/
def findByKeyword (tags : List CustomTag) (keyword : List Char) : Option CustomTag :=
  let own := tags.find? fun tag => tag.keyword.any (eqIgnoreAsciiCase · keyword)
  if own.any fun tag => !tag.keyword.any isFoldedShiftKey then own
  else
    (((aliasRows sha256 tags).find? fun row => eqIgnoreAsciiCase row.1 keyword).bind fun row =>
      tags.find? fun tag => tag.tagToken == row.2).or own

end Client

/-! ## Keywords of their own -/

theorem eqIgnoreAsciiCase_iff {s t : List Char} :
    eqIgnoreAsciiCase s t = true ↔ lower s = lower t := beq_iff_eq

/-- Two labels have keywords that differ in more than case. -/
def KeywordsDiffer (a b : CustomTag) : Prop :=
  ∀ k ∈ a.keyword, ∀ k' ∈ b.keyword, eqIgnoreAsciiCase k k' = false

section Assign

variable {paths : String → Option (List Char)} {taken : List (List Char)} {tags : List CustomTag}

/-- No assigned keyword is one that was taken before. -/
theorem notMem_taken {tag : CustomTag} {k : List Char} (h : tag ∈ assignFrom paths taken tags)
    (hk : k ∈ tag.keyword) : lower k ∉ taken := by
  induction tags generalizing taken with
  | nil => exact absurd h List.not_mem_nil
  | cons first rest ih =>
      rw [assignFrom] at h
      split at h
      case h_1 keyword hwanted =>
        rcases List.mem_cons.1 h with rfl | h
        · obtain rfl := Option.some.inj hk
          exact of_decide_eq_true (Option.filter_eq_some_iff.1 hwanted).2
        · exact fun hmem => ih h (List.mem_cons_of_mem _ hmem)
      case h_2 =>
        rcases List.mem_cons.1 h with rfl | h
        · exact nomatch hk
        · exact ih h

theorem pairwise_assignFrom : (assignFrom paths taken tags).Pairwise KeywordsDiffer := by
  induction tags generalizing taken with
  | nil => exact List.Pairwise.nil
  | cons first rest ih =>
      rw [assignFrom]
      split
      case h_1 keyword hwanted =>
        refine List.pairwise_cons.2 ⟨fun tag htag k hk k' hk' => ?_, ih⟩
        obtain rfl := Option.some.inj hk
        have hnot := notMem_taken htag hk'
        rw [Bool.eq_false_iff]
        exact fun hsame => hnot (eqIgnoreAsciiCase_iff.1 hsame ▸ List.mem_cons_self)
      case h_2 => exact List.pairwise_cons.2 ⟨fun tag _ k hk => (nomatch hk), ih⟩

theorem tokens_assignFrom :
    (assignFrom paths taken tags).map CustomTag.tagToken = tags.map CustomTag.tagToken := by
  induction tags generalizing taken with
  | nil => rfl
  | cons first rest ih =>
      rw [assignFrom]
      split <;> rw [List.map_cons, ih, List.map_cons]

end Assign

/-! ## Lookups -/

/-- A search finds the only element it can find. -/
theorem find?_of_unique {α : Type} {p : α → Bool} {xs : List α} {x : α} (hx : x ∈ xs)
    (hp : p x = true) (hunique : ∀ y ∈ xs, p y = true → y = x) : xs.find? p = some x := by
  cases hfind : xs.find? p with
  | none => exact absurd hp (List.find?_eq_none.1 hfind x hx)
  | some y => rw [hunique y (List.mem_of_find?_eq_some hfind) (List.find?_some hfind)]

/-- Two elements of a list with a relation between any two are equal or related. -/
theorem eq_or_of_pairwise {α : Type} {R : α → α → Prop} {xs : List α} {x y : α}
    (h : xs.Pairwise R) (hx : x ∈ xs) (hy : y ∈ xs) : x = y ∨ R x y ∨ R y x := by
  by_contra hno
  obtain ⟨hne, hnot⟩ := not_or.1 hno
  have hsym : Std.Symm fun a b => R a b ∨ R b a := ⟨fun _ _ => Or.symm⟩
  have hboth : xs.Pairwise fun a b => R a b ∨ R b a := h.imp Or.inl
  exact hnot (hboth.forall hx hy hne)

section Lookup

variable {sha256 : List UInt8 → List UInt8} {tags : List CustomTag} {tag other : CustomTag}
  {keyword k k' : List Char}

/-- A keyword belongs to one label. -/
theorem eq_of_keywords (h : tags.Pairwise KeywordsDiffer) (htag : tag ∈ tags)
    (hother : other ∈ tags) (hk : tag.keyword = some k) (hk' : other.keyword = some k')
    (hsame : eqIgnoreAsciiCase k k' = true) : tag = other := by
  rcases eq_or_of_pairwise h htag hother with heq | hdiffer | hdiffer
  · exact heq
  · exact absurd hsame (by rw [hdiffer k hk k' hk']; exact Bool.false_ne_true)
  · have hback : eqIgnoreAsciiCase k' k = true :=
      eqIgnoreAsciiCase_iff.2 (eqIgnoreAsciiCase_iff.1 hsame).symm
    exact absurd hback (by rw [hdiffer k' hk' k hk]; exact Bool.false_ne_true)

/-- A keyword that is no folded key finds its label. -/
theorem findByKeyword_own (h : tags.Pairwise KeywordsDiffer) (htag : tag ∈ tags)
    (hk : tag.keyword = some k) (hplain : isFoldedShiftKey k = false)
    (hsame : eqIgnoreAsciiCase k keyword = true) : findByKeyword sha256 tags keyword = some tag := by
  have hown : (tags.find? fun tag => tag.keyword.any (eqIgnoreAsciiCase · keyword)) = some tag := by
    refine find?_of_unique htag (by rw [hk]; exact hsame) fun other hother hany => ?_
    obtain ⟨k', hk', hsame'⟩ := (Option.any_eq_true _ _).1 hany
    refine eq_of_keywords h hother htag hk' hk (eqIgnoreAsciiCase_iff.2 ?_)
    rw [eqIgnoreAsciiCase_iff.1 hsame', eqIgnoreAsciiCase_iff.1 hsame]
  rw [findByKeyword, hown]
  rw [if_pos]
  rw [Option.any_some, hk, Option.any_some, hplain, Bool.not_false]

end Lookup

/-! ## Rows -/

/-- Rows that were added so far: no two aliases are the same but for case, no alias is a
keyword that a label owns, and each row names a label. -/
structure RowsOf (tags : List CustomTag) (rows : List (List Char × String)) : Prop where
  distinct : rows.Pairwise fun a b => eqIgnoreAsciiCase a.1 b.1 = false
  unowned : ∀ row ∈ rows, ∀ k ∈ ownedKeywords tags, eqIgnoreAsciiCase k row.1 = false
  named : ∀ row ∈ rows, ∃ tag ∈ tags, tag.tagToken = row.2

section Rows

variable {sha256 : List UInt8 → List UInt8} {tags : List CustomTag} {tag : CustomTag}
  {rows : List (List Char × String)} {key : List Char}

theorem RowsOf.addAlias (h : RowsOf tags rows) (htag : tag ∈ tags) :
    RowsOf tags (addAlias (ownedKeywords tags) tag.tagToken rows key) := by
  unfold Tags.addAlias
  split
  case isTrue => exact h
  case isFalse hfree =>
    simp only [Bool.or_eq_true, List.any_eq_true, not_or, not_exists, not_and,
      Bool.not_eq_true] at hfree
    refine ⟨?_, ?_, ?_⟩
    · refine List.pairwise_append.2 ⟨h.distinct, List.pairwise_singleton _ _, ?_⟩
      intro row hrow new hnew
      obtain rfl := List.mem_singleton.1 hnew
      exact hfree.2 row hrow
    · intro row hrow k hk
      rcases List.mem_append.1 hrow with hrow | hrow
      · exact h.unowned row hrow k hk
      · obtain rfl := List.mem_singleton.1 hrow
        exact hfree.1 k hk
    · intro row hrow
      rcases List.mem_append.1 hrow with hrow | hrow
      · exact h.named row hrow
      · obtain rfl := List.mem_singleton.1 hrow
        exact ⟨tag, htag, rfl⟩

theorem RowsOf.addAliases (h : RowsOf tags rows) (htag : tag ∈ tags) :
    RowsOf tags (addAliases sha256 (ownedKeywords tags) rows tag) := by
  unfold Tags.addAliases
  split
  case h_1 => exact h
  case h_2 keyword hkeyword =>
    generalize keywordAliases sha256 keyword = keys
    induction keys generalizing rows with
    | nil => exact h
    | cons key keys ih => exact ih (h.addAlias htag)

/-- The rows of a list of labels. -/
theorem rowsOf_aliasRows (tags : List CustomTag) : RowsOf tags (aliasRows sha256 tags) := by
  have hall : ∀ (ordered : List CustomTag) (rows : List (List Char × String)),
      (∀ tag ∈ ordered, tag ∈ tags) → RowsOf tags rows →
        RowsOf tags (ordered.foldl (addAliases sha256 (ownedKeywords tags)) rows) := by
    intro ordered
    induction ordered with
    | nil => exact fun _ _ hrows => hrows
    | cons tag ordered ih =>
        intro rows hmem hrows
        exact ih _ (fun t ht => hmem t (List.mem_cons_of_mem _ ht))
          (hrows.addAliases (hmem tag List.mem_cons_self))
  refine hall _ _ (fun tag htag => List.mem_mergeSort.1 htag) ⟨List.Pairwise.nil, ?_, ?_⟩
  · exact fun row hrow => absurd hrow List.not_mem_nil
  · exact fun row hrow => absurd hrow List.not_mem_nil

/-- An alias of the rows finds the label of its row. -/
theorem findByKeyword_alias {row : List Char × String}
    (htokens : (tags.map CustomTag.tagToken).Nodup) (hrow : row ∈ aliasRows sha256 tags)
    (hsame : eqIgnoreAsciiCase row.1 key = true) :
    ∃ tag ∈ tags, tag.tagToken = row.2 ∧ findByKeyword sha256 tags key = some tag := by
  have hrows := @rowsOf_aliasRows sha256 tags
  obtain ⟨tag, htag, htoken⟩ := hrows.named row hrow
  have hfind : ((aliasRows sha256 tags).find? fun row => eqIgnoreAsciiCase row.1 key) =
      some row := by
    refine find?_of_unique hrow hsame fun other hother hkey => ?_
    have hboth : lower other.1 = lower row.1 :=
      (eqIgnoreAsciiCase_iff.1 hkey).trans (eqIgnoreAsciiCase_iff.1 hsame).symm
    rcases eq_or_of_pairwise hrows.distinct hother hrow with heq | hdiffer | hdiffer
    · exact heq
    · exact absurd (eqIgnoreAsciiCase_iff.2 hboth) (by rw [hdiffer]; exact Bool.false_ne_true)
    · exact absurd (eqIgnoreAsciiCase_iff.2 hboth.symm)
        (by rw [hdiffer]; exact Bool.false_ne_true)
  have htags : (tags.find? fun tag => tag.tagToken == row.2) = some tag := by
    refine find?_of_unique htag (beq_iff_eq.2 htoken) fun other hother hkey => ?_
    exact List.inj_on_of_nodup_map htokens hother htag ((beq_iff_eq.1 hkey).trans htoken.symm)
  refine ⟨tag, htag, htoken, ?_⟩
  rw [findByKeyword, hfind]
  rw [if_neg, Option.bind_some, htags, Option.some_or]
  -- a label whose keyword is the alias owns no keyword
  intro hown
  obtain ⟨owner, howner, hplain⟩ := (Option.any_eq_true _ _).1 hown
  have hfound : owner.keyword.any (eqIgnoreAsciiCase · key) = true := by
    simpa using List.find?_some howner
  obtain ⟨k, hk, hkey⟩ := (Option.any_eq_true _ _).1 hfound
  rw [hk, Option.any_some] at hplain
  have howned : k ∈ ownedKeywords tags :=
    List.mem_filter.2 ⟨List.mem_filterMap.2 ⟨owner, List.mem_of_find?_eq_some howner, hk⟩, hplain⟩
  have hboth : lower k = lower row.1 :=
    (eqIgnoreAsciiCase_iff.1 hkey).trans (eqIgnoreAsciiCase_iff.1 hsame).symm
  exact absurd (eqIgnoreAsciiCase_iff.2 hboth)
    (by rw [hrows.unowned row hrow k howned]; exact Bool.false_ne_true)

end Rows

/-! ## After `assign_keywords` -/

theorem nodup_assignKeywords {tags : List CustomTag}
    (h : (tags.map CustomTag.tagToken).Nodup) (paths : String → Option (List Char)) :
    ((assignKeywords tags paths).map CustomTag.tagToken).Nodup := by
  rw [assignKeywords, tokens_assignFrom]
  exact ((List.mergeSort_perm tags byToken).map _).nodup_iff.2 h

/-- **Labels are found as they are shown**: after `assign_keywords` no two labels have one
keyword, a keyword that is no folded key finds its label in any case, no two rows have one
alias, and the alias of a row finds the label of the row. -/
theorem labels_are_found_as_shown (sha256 : List UInt8 → List UInt8) (tags : List CustomTag)
    (paths : String → Option (List Char)) (h : (tags.map CustomTag.tagToken).Nodup) :
    let labels := assignKeywords tags paths
    labels.Pairwise KeywordsDiffer ∧
    (∀ tag ∈ labels, ∀ k ∈ tag.keyword, isFoldedShiftKey k = false →
      ∀ keyword, eqIgnoreAsciiCase k keyword = true →
        findByKeyword sha256 labels keyword = some tag) ∧
    (aliasRows sha256 labels).Pairwise (fun a b => eqIgnoreAsciiCase a.1 b.1 = false) ∧
    (∀ row ∈ aliasRows sha256 labels, ∀ keyword, eqIgnoreAsciiCase row.1 keyword = true →
      ∃ tag ∈ labels, tag.tagToken = row.2 ∧ findByKeyword sha256 labels keyword = some tag) := by
  intro labels
  have hdiffer : labels.Pairwise KeywordsDiffer := pairwise_assignFrom
  have htokens := nodup_assignKeywords h paths
  exact ⟨hdiffer, fun tag htag k hk hplain keyword => findByKeyword_own hdiffer htag hk hplain,
    (rowsOf_aliasRows labels).distinct,
    fun row hrow keyword => findByKeyword_alias htokens hrow⟩

/-- One label `a b` and its three names. -/
theorem one_label_is_found :
    (aliasRows id (assignKeywords [⟨"t", "s", ['a', ' ', 'b'], none, 0⟩] fun _ => none)).Pairwise
      (fun a b => eqIgnoreAsciiCase a.1 b.1 = false) :=
  (labels_are_found_as_shown id [⟨"t", "s", ['a', ' ', 'b'], none, 0⟩] (fun _ => none)
    (List.nodup_singleton _)).2.2.1

end AsterBridge.Tags
