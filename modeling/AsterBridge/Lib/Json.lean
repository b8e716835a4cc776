import AsterBridge.Lib.Text

/-!
# JSON values

`serde_json::Value` with the lookups and updates of its API. An object is the list of its
members; a number is kept as its literal.
-/

set_option autoImplicit false

namespace AsterBridge.Lib

/-- `Value` -/
inductive Json where
  | null
  | bool (b : Bool)
  | number (literal : String)
  | string (s : String)
  | array (items : List Json)
  | object (members : List (String × Json))

namespace Json

/-- `get` with a name. -/
def get? (j : Json) (name : String) : Option Json :=
  match j with
  | object members => members.lookup name
  | _ => none

/-- `as_str` -/
def asStr : Json → Option String
  | string s => some s
  | _ => none

/-- `as_array` -/
def asArray : Json → Option (List Json)
  | array items => some items
  | _ => none

/-- `as_bool` -/
def asBool : Json → Option Bool
  | bool b => some b
  | _ => none

/-- `as_u64`: an integer literal in the range of the type. -/
def asU64 : Json → Option Nat
  | number literal => (Text.parseDigits literal.toList).filter (· < 2 ^ 64)
  | _ => none

/-- `as_i64`; the literal `-0` is a float. -/
def asI64 : Json → Option Int
  | number literal =>
      match literal.toList with
      | '-' :: digits =>
          ((Text.parseDigits digits).filter fun n => 0 < n ∧ n ≤ 2 ^ 63).map fun n => -(n : Int)
      | digits => ((Text.parseDigits digits).filter (· < 2 ^ 63)).map fun n => (n : Int)
  | _ => none

/-- `json!` of a list of texts. -/
def strings (texts : List String) : Json := array (texts.map string)

/-- `json!` of a text that may be missing. -/
def ofOption : Option String → Json
  | some s => string s
  | none => null

/-- The members without the name. -/
def dropMember (name : String) (members : List (String × Json)) : List (String × Json) :=
  members.filter fun m => m.1 != name

/-- `value[name] = v`, on an object and on `null`, which becomes one. -/
def set (j : Json) (name : String) (v : Json) : Json :=
  match j with
  | object members => object (dropMember name members ++ [(name, v)])
  | null => object [(name, v)]
  | other => other

/-- `remove` of the object. -/
def remove (j : Json) (name : String) : Json :=
  match j with
  | object members => object (dropMember name members)
  | other => other

/-- The value is an object. -/
def IsObject : Json → Prop
  | object _ => True
  | _ => False

@[simp] theorem isObject_object (members : List (String × Json)) : (object members).IsObject :=
  trivial

@[simp] theorem get?_object (members : List (String × Json)) (name : String) :
    (object members).get? name = members.lookup name := rfl

theorem lookup_dropMember (name name' : String) (members : List (String × Json)) :
    (dropMember name members).lookup name' =
      if name' = name then none else members.lookup name' := by
  induction members with
  | nil => simp [dropMember]
  | cons m members ih =>
      rcases m with ⟨k, v⟩
      simp only [dropMember] at ih ⊢
      by_cases hk : k = name
      · rw [List.filter_cons_of_neg (by simp [hk]), ih]
        split
        · rfl
        · rename_i hne
          have hb : (name' == k) = false := by simpa [hk] using hne
          rw [List.lookup_cons, hb]
      · rw [List.filter_cons_of_pos (by simp [hk]), List.lookup_cons, List.lookup_cons, ih]
        split
        · rename_i heq
          have hname : name' = k := by simpa using heq
          rw [if_neg (hname ▸ hk)]
        · rfl

theorem lookup_append_none {members : List (String × Json)} {name : String}
    (h : members.lookup name = none) (v : Json) (name' : String) :
    (members ++ [(name, v)]).lookup name' =
      if name' = name then some v else members.lookup name' := by
  induction members with
  | nil =>
      by_cases hname : name' = name
      · simp [hname]
      · have hb : (name' == name) = false := by simpa using hname
        simp [List.lookup_cons, hb, hname]
  | cons m members ih =>
      rcases m with ⟨k, w⟩
      rw [List.lookup_cons] at h
      rw [List.cons_append, List.lookup_cons, List.lookup_cons]
      cases hk : name == k with
      | true => simp [hk] at h
      | false =>
          rw [hk] at h
          rw [ih h]
          split
          · rename_i heq
            have hne : name ≠ k := by simpa using hk
            have hsame : name' = k := by simpa using heq
            rw [if_neg (hsame ▸ hne.symm)]
          · rfl

@[simp] theorem get?_set {j : Json} (hj : j.IsObject) (name name' : String) (v : Json) :
    (j.set name v).get? name' = if name' = name then some v else j.get? name' := by
  cases j with
  | object members =>
      simp only [set, get?]
      rw [lookup_append_none (by simp [lookup_dropMember]), lookup_dropMember]
      split <;> rfl
  | _ => exact hj.elim

@[simp] theorem get?_remove {j : Json} (name name' : String) :
    (j.remove name).get? name' = if name' = name then none else j.get? name' := by
  cases j with
  | object members => exact lookup_dropMember name name' members
  | _ => simp [remove, get?]

@[simp] theorem isObject_set {j : Json} (hj : j.IsObject) (name : String) (v : Json) :
    (j.set name v).IsObject := by
  cases j with
  | object members => trivial
  | _ => exact hj.elim

theorem isObject_remove {j : Json} (hj : j.IsObject) (name : String) : (j.remove name).IsObject := by
  cases j with
  | object members => trivial
  | _ => exact hj.elim

/-! ## Numbers -/

/-- `json!` of an integer. -/
def int (n : Int) : Json := number (toString n)

theorem asU64_int {n : Nat} (h : n < 2 ^ 64) : (int n).asU64 = some n := by
  have hdigits : (toString (n : Int)).toList = Nat.toDigits 10 n := Nat.toList_repr
  rw [int, asU64, hdigits, Text.parseDigits_toDigits]
  exact Option.filter_some_pos (decide_eq_true h)

theorem asI64_int {n : Int} (hlo : -2 ^ 63 ≤ n) (hhi : n < 2 ^ 63) : (int n).asI64 = some n := by
  cases n with
  | ofNat n =>
      have hdigits : (toString (Int.ofNat n)).toList = Nat.toDigits 10 n := Nat.toList_repr
      obtain ⟨c, cs, htext, hminus, -⟩ := Text.toDigits_head n
      have hparse := Text.parseDigits_toDigits n
      have hn : n < 2 ^ 63 := by
        have : ((n : Nat) : Int) < 2 ^ 63 := hhi
        omega
      rw [int, asI64, hdigits, htext]
      rw [htext] at hparse
      split
      next heq => exact absurd (List.cons.inj heq).1 hminus
      next =>
        have hfits : (some n).filter (fun n => decide (n < 2 ^ 63)) = some n :=
          Option.filter_some_pos (decide_eq_true hn)
        rw [hparse, hfits]
        rfl
  | negSucc n =>
      have hdigits : (toString (Int.negSucc n)).toList = '-' :: Nat.toDigits 10 (n + 1) := by
        change ("-" ++ Nat.repr (n + 1)).toList = _
        rw [String.toList_append, Nat.toList_repr]
        rfl
      have hn : 0 < n + 1 ∧ n + 1 ≤ 2 ^ 63 := by omega
      have hfits : (some (n + 1)).filter (fun n => decide (0 < n ∧ n ≤ 2 ^ 63)) = some (n + 1) :=
        Option.filter_some_pos (decide_eq_true hn)
      rw [int, asI64, hdigits]
      split
      next digits heq =>
        cases heq
        rw [Text.parseDigits_toDigits, hfits]
        rfl
      next hnot => exact absurd rfl (hnot _)

end Json

end AsterBridge.Lib
