import Mathlib.Data.List.Basic

/-!
# Conditions of SQL

The tokens of a condition over any atoms, its reading with the precedence of SQL (NOT before AND
before OR), and its value: true, false or NULL (`none`). A run of equal operators is read from the
right, which has the same value. The rules say what a text reads as in front of anything that ends a
condition.
-/

set_option autoImplicit false

namespace AsterBridge.Lib.Sql

variable {α : Type}

/-! ## Values -/

/-- `AND` -/
def andValue : Option Bool → Option Bool → Option Bool
  | some false, _ | _, some false => some false
  | some true, v => v
  | v, some true => v
  | none, none => none

/-- `OR` -/
def orValue : Option Bool → Option Bool → Option Bool
  | some true, _ | _, some true => some true
  | some false, v => v
  | v, some false => v
  | none, none => none

/-- `AND` of a list. -/
def allValue (vs : List (Option Bool)) : Option Bool := vs.foldr andValue (some true)

/-- `OR` of a list. -/
def anyValue (vs : List (Option Bool)) : Option Bool := vs.foldr orValue (some false)

section Values

variable {v w : Option Bool} {vs : List (Option Bool)}

@[simp]
theorem andValue_true (v : Option Bool) : andValue v (some true) = v := by
  rcases v with _ | _ | _ <;> rfl

@[simp]
theorem orValue_false (v : Option Bool) : orValue v (some false) = v := by
  rcases v with _ | _ | _ <;> rfl

theorem andValue_some (a b : Bool) : andValue (some a) (some b) = some (a && b) := by
  cases a <;> cases b <;> rfl

theorem orValue_some (a b : Bool) : orValue (some a) (some b) = some (a || b) := by
  cases a <;> cases b <;> rfl

theorem andValue_eq_true_iff :
    andValue v w = some true ↔ v = some true ∧ w = some true := by
  rcases v with _ | _ | _ <;> rcases w with _ | _ | _ <;> decide

theorem orValue_eq_true_iff :
    orValue v w = some true ↔ v = some true ∨ w = some true := by
  rcases v with _ | _ | _ <;> rcases w with _ | _ | _ <;> decide

/-- A conjunction is true when all of it is true; NULL is as good as false. -/
theorem allValue_eq_true_iff : allValue vs = some true ↔ ∀ v ∈ vs, v = some true := by
  induction vs with
  | nil => simp [allValue]
  | cons v vs ih =>
      have hcons : allValue (v :: vs) = andValue v (allValue vs) := rfl
      rw [hcons, andValue_eq_true_iff, ih, List.forall_mem_cons]

/-- A disjunction is true when some of it is true. -/
theorem anyValue_eq_true_iff : anyValue vs = some true ↔ ∃ v ∈ vs, v = some true := by
  induction vs with
  | nil => simp [anyValue]
  | cons v vs ih =>
      have hcons : anyValue (v :: vs) = orValue v (anyValue vs) := rfl
      rw [hcons, orValue_eq_true_iff, ih]
      simp only [List.mem_cons, exists_eq_or_imp]

theorem allValue_some (bs : List Bool) : allValue (bs.map some) = some (bs.all id) := by
  induction bs with
  | nil => rfl
  | cons b bs ih =>
      have hcons : allValue ((b :: bs).map some) = andValue (some b) (allValue (bs.map some)) := rfl
      rw [hcons, ih, andValue_some, List.all_cons, id]

theorem anyValue_some (bs : List Bool) : anyValue (bs.map some) = some (bs.any id) := by
  induction bs with
  | nil => rfl
  | cons b bs ih =>
      have hcons : anyValue ((b :: bs).map some) = orValue (some b) (anyValue (bs.map some)) := rfl
      rw [hcons, ih, orValue_some, List.any_cons, id]

end Values

/-! ## Conditions -/

/-- A token of a condition. -/
inductive Token (α : Type) where
  | atom (a : α)
  | opening
  | closing
  | and
  | or
  | not
deriving DecidableEq

/-- A condition. -/
inductive Expr (α : Type) where
  | atom (a : α)
  | and (left right : Expr α)
  | or (left right : Expr α)
  | not (e : Expr α)
deriving DecidableEq

/-- The value of a condition. -/
def Expr.eval (value : α → Option Bool) : Expr α → Option Bool
  | .atom a => value a
  | .and left right => andValue (left.eval value) (right.eval value)
  | .or left right => orValue (left.eval value) (right.eval value)
  | .not e => (e.eval value).map Bool.not

mutual

/-- An atom or a condition in parentheses. -/
def parsePrimary : Nat → List (Token α) → Option (Expr α × List (Token α))
  | _ + 1, .atom a :: rest => some (.atom a, rest)
  | fuel + 1, .opening :: rest =>
      match parseOr fuel rest with
      | some (e, .closing :: rest) => some (e, rest)
      | _ => none
  | _, _ => none

/-- `NOT` -/
def parseNot : Nat → List (Token α) → Option (Expr α × List (Token α))
  | 0, _ => none
  | fuel + 1, ts =>
      match ts with
      | .not :: rest => (parseNot fuel rest).map fun (e, rest) => (.not e, rest)
      | _ => parsePrimary fuel ts

/-- `AND` -/
def parseAnd : Nat → List (Token α) → Option (Expr α × List (Token α))
  | 0, _ => none
  | fuel + 1, ts =>
      match parseNot fuel ts with
      | some (e, .and :: rest) => (parseAnd fuel rest).map fun (e', rest) => (.and e e', rest)
      | other => other

/-- `OR` -/
def parseOr : Nat → List (Token α) → Option (Expr α × List (Token α))
  | 0, _ => none
  | fuel + 1, ts =>
      match parseAnd fuel ts with
      | some (e, .or :: rest) => (parseOr fuel rest).map fun (e', rest) => (.or e e', rest)
      | other => other

end

/-- The condition of the tokens. -/
def parse (ts : List (Token α)) : Option (Expr α) :=
  match parseOr (4 * ts.length) ts with
  | some (e, []) => some e
  | _ => none

/-! ## Reading -/

/-- The tokens read as `e` where a primary stands. -/
def ReadsPrimary (ts : List (Token α)) (e : Expr α) : Prop :=
  ∀ rest fuel, 4 * ts.length ≤ fuel + 3 → parsePrimary fuel (ts ++ rest) = some (e, rest)

/-- The tokens read as `e` where a negation stands. -/
def ReadsNot (ts : List (Token α)) (e : Expr α) : Prop :=
  ∀ rest fuel, 4 * ts.length ≤ fuel + 2 → parseNot fuel (ts ++ rest) = some (e, rest)

/-- Nothing after the tokens continues a conjunction. -/
def NoAnd (rest : List (Token α)) : Prop := ∀ tail, rest ≠ .and :: tail

/-- Nothing after the tokens continues a condition. -/
def NoOperator (rest : List (Token α)) : Prop := NoAnd rest ∧ ∀ tail, rest ≠ .or :: tail

/-- The tokens read as `e` where a conjunction stands. -/
def ReadsAnd (ts : List (Token α)) (e : Expr α) : Prop :=
  ∀ rest fuel, NoAnd rest → 4 * ts.length ≤ fuel + 1 →
    parseAnd fuel (ts ++ rest) = some (e, rest)

/-- The tokens read as `e` where a condition stands. -/
def ReadsOr (ts : List (Token α)) (e : Expr α) : Prop :=
  ∀ rest fuel, NoOperator rest → 4 * ts.length ≤ fuel → parseOr fuel (ts ++ rest) = some (e, rest)

section Reading

variable {ts us : List (Token α)} {e e' : Expr α} {rest : List (Token α)}

theorem noAnd_nil : NoAnd ([] : List (Token α)) := fun _ h => nomatch h

theorem noOperator_nil : NoOperator ([] : List (Token α)) := ⟨noAnd_nil, fun _ h => (nomatch h)⟩

theorem noOperator_closing : NoOperator (.closing :: rest : List (Token α)) :=
  ⟨fun _ h => (nomatch h), fun _ h => (nomatch h)⟩

theorem readsPrimary_atom (a : α) : ReadsPrimary [.atom a] (.atom a) := by
  intro rest fuel hfuel
  obtain ⟨fuel, rfl⟩ := Nat.exists_eq_add_one_of_ne_zero
    (show fuel ≠ 0 by rw [List.length_singleton] at hfuel; omega)
  rfl

theorem ReadsOr.paren (h : ReadsOr ts e) : ReadsPrimary (.opening :: (ts ++ [.closing])) e := by
  intro rest fuel hfuel
  rw [List.length_cons, List.length_append, List.length_singleton] at hfuel
  obtain ⟨fuel, rfl⟩ := Nat.exists_eq_add_one_of_ne_zero (show fuel ≠ 0 by omega)
  have hinner := h (.closing :: rest) fuel noOperator_closing (by omega)
  rw [List.cons_append, List.append_assoc, List.singleton_append, parsePrimary, hinner]

theorem ReadsPrimary.not (h : ReadsPrimary ts e) : ReadsNot ts e := by
  intro rest fuel hfuel
  have hne : ts ≠ [] := by
    rintro rfl
    -- nothing at all is no primary
    exact absurd (h [] 0 (Nat.zero_le _)) (fun hnone => nomatch hnone)
  have hpos := List.length_pos_iff.2 hne
  obtain ⟨fuel, rfl⟩ := Nat.exists_eq_add_one_of_ne_zero (show fuel ≠ 0 by omega)
  have hprimary := h rest fuel (by omega)
  unfold parseNot
  dsimp only
  split
  · rename_i tail hts
    -- a primary does not start with NOT
    rw [hts] at hprimary
    cases fuel with
    | zero => cases hprimary
    | succ fuel => cases hprimary
  · exact hprimary

theorem ReadsNot.negate (h : ReadsNot ts e) : ReadsNot (.not :: ts) (.not e) := by
  intro rest fuel hfuel
  rw [List.length_cons] at hfuel
  obtain ⟨fuel, rfl⟩ := Nat.exists_eq_add_one_of_ne_zero (show fuel ≠ 0 by omega)
  have hinner := h rest fuel (by omega)
  rw [List.cons_append, parseNot, hinner]
  rfl

theorem ReadsNot.and (h : ReadsNot ts e) : ReadsAnd ts e := by
  intro rest fuel hrest hfuel
  have hne : ts ≠ [] := by
    rintro rfl
    exact absurd (h [] 0 (Nat.zero_le _)) (fun hnone => nomatch hnone)
  have hpos := List.length_pos_iff.2 hne
  obtain ⟨fuel, rfl⟩ := Nat.exists_eq_add_one_of_ne_zero (show fuel ≠ 0 by omega)
  rw [parseAnd, h rest fuel (by omega)]
  split
  · rename_i heq
    exact absurd (Prod.mk.inj (Option.some.inj heq)).2 (hrest _)
  · rfl

theorem ReadsNot.andMore (h : ReadsNot ts e) (h' : ReadsAnd us e') :
    ReadsAnd (ts ++ .and :: us) (.and e e') := by
  intro rest fuel hrest hfuel
  rw [List.length_append, List.length_cons] at hfuel
  obtain ⟨fuel, rfl⟩ := Nat.exists_eq_add_one_of_ne_zero (show fuel ≠ 0 by omega)
  have hfirst := h (.and :: (us ++ rest)) fuel (by omega)
  have hmore := h' rest fuel hrest (by omega)
  rw [List.append_assoc, List.cons_append, parseAnd, hfirst]
  dsimp only
  rw [hmore]
  rfl

theorem ReadsAnd.or (h : ReadsAnd ts e) : ReadsOr ts e := by
  intro rest fuel hrest hfuel
  have hne : ts ≠ [] := by
    rintro rfl
    exact absurd (h [] 0 noAnd_nil (Nat.zero_le _)) (fun hnone => nomatch hnone)
  have hpos := List.length_pos_iff.2 hne
  obtain ⟨fuel, rfl⟩ := Nat.exists_eq_add_one_of_ne_zero (show fuel ≠ 0 by omega)
  rw [parseOr, h rest fuel hrest.1 (by omega)]
  split
  · rename_i heq
    exact absurd (Prod.mk.inj (Option.some.inj heq)).2 (hrest.2 _)
  · rfl

theorem ReadsAnd.orMore (h : ReadsAnd ts e) (h' : ReadsOr us e') :
    ReadsOr (ts ++ .or :: us) (.or e e') := by
  intro rest fuel hrest hfuel
  rw [List.length_append, List.length_cons] at hfuel
  obtain ⟨fuel, rfl⟩ := Nat.exists_eq_add_one_of_ne_zero (show fuel ≠ 0 by omega)
  have hfirst := h (.or :: (us ++ rest)) fuel (fun _ heq => nomatch heq) (by omega)
  have hmore := h' rest fuel hrest (by omega)
  rw [List.append_assoc, List.cons_append, parseOr, hfirst]
  dsimp only
  rw [hmore]
  rfl

/-- The tokens read as a conjunct of the value `v`. -/
def NotValue (value : α → Option Bool) (ts : List (Token α)) (v : Option Bool) : Prop :=
  ∃ e, ReadsNot ts e ∧ e.eval value = v

/-- The tokens read as a condition of the value `v`. -/
def OrValue (value : α → Option Bool) (ts : List (Token α)) (v : Option Bool) : Prop :=
  ∃ e, ReadsOr ts e ∧ e.eval value = v

/-- Conjuncts joined by AND. -/
theorem readsAnd_join {value : α → Option Bool} {parts : List (List (Token α))}
    {vs : List (Option Bool)} (h : List.Forall₂ (NotValue value) parts vs) (hne : parts ≠ []) :
    ∃ e, ReadsAnd ([.and].intercalate parts) e ∧ e.eval value = allValue vs := by
  induction h with
  | nil => exact absurd rfl hne
  | @cons ts v parts vs hpart hparts ih =>
      obtain ⟨e, hreads, hvalue⟩ := hpart
      have hcons : allValue (v :: vs) = andValue v (allValue vs) := rfl
      cases parts with
      | nil =>
          cases hparts
          rw [List.intercalate_singleton]
          exact ⟨e, hreads.and, by rw [hvalue, hcons, allValue, List.foldr_nil, andValue_true]⟩
      | cons us parts =>
          obtain ⟨e', hmore, hvalue'⟩ := ih (List.cons_ne_nil _ _)
          rw [List.intercalate_cons_cons, List.append_assoc, List.singleton_append]
          exact ⟨.and e e', hreads.andMore hmore, by rw [Expr.eval, hvalue, hvalue', hcons]⟩

/-- Disjuncts joined by OR. -/
theorem readsOr_join {value : α → Option Bool} {parts : List (List (Token α))}
    {vs : List (Option Bool)} (h : List.Forall₂ (NotValue value) parts vs) (hne : parts ≠ []) :
    OrValue value ([.or].intercalate parts) (anyValue vs) := by
  induction h with
  | nil => exact absurd rfl hne
  | @cons ts v parts vs hpart hparts ih =>
      obtain ⟨e, hreads, hvalue⟩ := hpart
      have hcons : anyValue (v :: vs) = orValue v (anyValue vs) := rfl
      cases parts with
      | nil =>
          cases hparts
          rw [List.intercalate_singleton]
          exact ⟨e, hreads.and.or, by rw [hvalue, hcons, anyValue, List.foldr_nil, orValue_false]⟩
      | cons us parts =>
          obtain ⟨e', hmore, hvalue'⟩ := ih (List.cons_ne_nil _ _)
          rw [List.intercalate_cons_cons, List.append_assoc, List.singleton_append]
          exact ⟨.or e e', hreads.and.orMore hmore, by rw [Expr.eval, hvalue, hvalue', hcons]⟩

/-- The whole of the tokens. -/
theorem ReadsOr.parse (h : ReadsOr ts e) : parse ts = some e := by
  have hall := h [] (4 * ts.length) noOperator_nil (Nat.le_refl _)
  rw [List.append_nil] at hall
  rw [Sql.parse, hall]

end Reading

end AsterBridge.Lib.Sql
