import Mathlib.Data.List.Nodup
import Mathlib.Tactic

/-!
# Tables with a primary key

A table is the list of its rows in insertion order, each row a key with its
other columns; the field `nodup` is the primary-key constraint. The operations
are those of SQL on such a table: `INSERT OR IGNORE` (`insertIgnore`), `INSERT ..
ON CONFLICT DO UPDATE` (`upsert`), `UPDATE .. WHERE` (`updateWhere`) and
`DELETE .. WHERE` (`deleteWhere`). Each has one lemma that says what a lookup
sees afterwards.
-/

set_option autoImplicit false

namespace AsterBridge.Lib

universe u v

/-- Rows in insertion order, no two with the same key. -/
structure Table (κ : Type u) (ρ : Type v) where
  rows : List (κ × ρ)
  nodup : (rows.map Prod.fst).Nodup

namespace Table

variable {κ : Type u} {ρ : Type v}

/-- The table without rows. -/
def empty : Table κ ρ := ⟨[], List.nodup_nil⟩

instance : Inhabited (Table κ ρ) := ⟨empty⟩

@[simp] theorem rows_empty : (empty : Table κ ρ).rows = [] := rfl

theorem nodup_rows (t : Table κ ρ) : t.rows.Nodup := t.nodup.of_map

theorem eq_of_mem {t : Table κ ρ} {k : κ} {a b : ρ} (ha : (k, a) ∈ t.rows)
    (hb : (k, b) ∈ t.rows) : a = b := by
  have h := List.inj_on_of_nodup_map t.nodup ha hb rfl
  exact congrArg Prod.snd h

/-- `UPDATE .. SET row = f key row WHERE p key row`. -/
def updateWhere (t : Table κ ρ) (p : κ → ρ → Bool) (f : κ → ρ → ρ) : Table κ ρ where
  rows := t.rows.map fun e => if p e.1 e.2 then (e.1, f e.1 e.2) else e
  nodup := by
    have h : (t.rows.map fun e => if p e.1 e.2 then (e.1, f e.1 e.2) else e).map Prod.fst =
        t.rows.map Prod.fst := by
      rw [List.map_map]
      refine List.map_congr_left fun e _ => ?_
      by_cases hp : p e.1 e.2 <;> simp [hp]
    rw [h]
    exact t.nodup

/-- `DELETE .. WHERE p key row`. -/
def deleteWhere (t : Table κ ρ) (p : κ → ρ → Bool) : Table κ ρ where
  rows := t.rows.filter fun e => !p e.1 e.2
  nodup := t.nodup.sublist (List.filter_sublist.map _)

theorem mem_updateWhere {t : Table κ ρ} {p : κ → ρ → Bool} {f : κ → ρ → ρ} {e : κ × ρ} :
    e ∈ (t.updateWhere p f).rows ↔
      ∃ r, (e.1, r) ∈ t.rows ∧ e.2 = if p e.1 r then f e.1 r else r := by
  rcases e with ⟨k, v⟩
  simp only [updateWhere, List.mem_map]
  constructor
  · rintro ⟨⟨k', r⟩, hmem, heq⟩
    by_cases hp : p k' r
    · simp only [hp, if_true, Prod.mk.injEq] at heq
      obtain ⟨rfl, rfl⟩ := heq
      exact ⟨r, hmem, by simp [hp]⟩
    · simp only [hp, Bool.false_eq_true, if_false, Prod.mk.injEq] at heq
      obtain ⟨rfl, rfl⟩ := heq
      exact ⟨r, hmem, by simp [hp]⟩
  · rintro ⟨r, hmem, heq⟩
    refine ⟨(k, r), hmem, ?_⟩
    by_cases hp : p k r <;> simp [hp, heq]

@[simp] theorem keys_updateWhere (t : Table κ ρ) (p : κ → ρ → Bool) (f : κ → ρ → ρ) :
    (t.updateWhere p f).rows.map Prod.fst = t.rows.map Prod.fst := by
  simp only [updateWhere, List.map_map]
  refine List.map_congr_left fun e _ => ?_
  by_cases hp : p e.1 e.2 <;> simp [hp]

@[simp] theorem mem_deleteWhere {t : Table κ ρ} {p : κ → ρ → Bool} {e : κ × ρ} :
    e ∈ (t.deleteWhere p).rows ↔ e ∈ t.rows ∧ p e.1 e.2 = false := by
  simp [deleteWhere]

section Lookup

variable [DecidableEq κ]

/-- The row with key `k`. -/
def get? (t : Table κ ρ) (k : κ) : Option ρ := t.rows.lookup k

/-- Whether there is a row with key `k`. -/
def contains (t : Table κ ρ) (k : κ) : Bool := (t.get? k).isSome

theorem get?_eq_some_iff {t : Table κ ρ} {k : κ} {r : ρ} :
    t.get? k = some r ↔ (k, r) ∈ t.rows := by
  rcases t with ⟨rows, hnd⟩
  simp only [get?]
  induction rows with
  | nil => simp
  | cons e es ih =>
      rcases e with ⟨k', r'⟩
      simp only [List.map_cons, List.nodup_cons] at hnd
      by_cases hk : k = k'
      · subst hk
        have hnot : (k, r) ∉ es := fun h => hnd.1 (List.mem_map_of_mem h)
        simp only [List.lookup_cons_self, Option.some.injEq, List.mem_cons, Prod.mk.injEq,
          true_and, hnot, or_false]
        exact eq_comm
      · have hb : (k == k') = false := by simpa using hk
        simp only [List.lookup_cons, hb, List.mem_cons, Prod.mk.injEq, hk, false_and, false_or]
        exact ih hnd.2

theorem get?_eq_none_iff {t : Table κ ρ} {k : κ} :
    t.get? k = none ↔ ∀ r, (k, r) ∉ t.rows := by
  rw [Option.eq_none_iff_forall_ne_some]
  exact forall_congr' fun r => not_congr get?_eq_some_iff

@[simp] theorem get?_empty (k : κ) : (empty : Table κ ρ).get? k = none := rfl

theorem get?_updateWhere (t : Table κ ρ) (p : κ → ρ → Bool) (f : κ → ρ → ρ) (k : κ) :
    (t.updateWhere p f).get? k = (t.get? k).map fun r => if p k r then f k r else r := by
  cases h : t.get? k with
  | none =>
      rw [get?_eq_none_iff] at h
      simp only [Option.map_none, get?_eq_none_iff, mem_updateWhere, not_exists, not_and]
      exact fun r r' hr => absurd hr (h r')
  | some r =>
      simp only [Option.map_some, get?_eq_some_iff, mem_updateWhere]
      exact ⟨r, get?_eq_some_iff.1 h, rfl⟩

theorem get?_deleteWhere (t : Table κ ρ) (p : κ → ρ → Bool) (k : κ) :
    (t.deleteWhere p).get? k = (t.get? k).filter fun r => !p k r := by
  cases h : t.get? k with
  | none =>
      rw [get?_eq_none_iff] at h
      simp only [Option.filter_none, get?_eq_none_iff, mem_deleteWhere, not_and]
      exact fun r hr => absurd hr (h r)
  | some r =>
      have hmem := get?_eq_some_iff.1 h
      by_cases hp : p k r
      · simp only [Option.filter_some, hp, Bool.not_true, Bool.false_eq_true, if_false,
          get?_eq_none_iff, mem_deleteWhere, not_and]
        intro r' hr'
        rw [eq_of_mem hr' hmem]
        simp [hp]
      · simp only [Option.filter_some, hp, Bool.not_false, if_true, get?_eq_some_iff,
          mem_deleteWhere]
        exact ⟨hmem, by simp⟩

theorem not_mem_keys_of_get?_eq_none {t : Table κ ρ} {k : κ} (h : t.get? k = none) :
    k ∉ t.rows.map Prod.fst := by
  rw [get?_eq_none_iff] at h
  rintro hk
  obtain ⟨⟨k', r⟩, hr, rfl⟩ := List.mem_map.1 hk
  exact h r hr

/-- `INSERT OR IGNORE`: a row whose key is taken is not stored. -/
def insertIgnore (t : Table κ ρ) (k : κ) (r : ρ) : Table κ ρ :=
  if h : t.get? k = none then
    { rows := t.rows ++ [(k, r)]
      nodup := by
        rw [List.map_append]
        refine List.nodup_append.2 ⟨t.nodup, by simp, ?_⟩
        rintro a ha b hb rfl
        simp only [List.map_cons, List.map_nil, List.mem_singleton] at hb
        exact not_mem_keys_of_get?_eq_none h (hb ▸ ha) }
  else t

/-- `INSERT .. ON CONFLICT(key) DO UPDATE SET ..` where the update replaces the
row. -/
def upsert (t : Table κ ρ) (k : κ) (r : ρ) : Table κ ρ :=
  (t.updateWhere (fun k' _ => k' = k) (fun _ _ => r)).insertIgnore k r

/-- Membership after `insertIgnore` with a new key. -/
theorem mem_insertIgnore_of_none {t : Table κ ρ} {k : κ} {r : ρ} (h : t.get? k = none)
    {e : κ × ρ} : e ∈ (t.insertIgnore k r).rows ↔ e ∈ t.rows ∨ e = (k, r) := by
  simp [insertIgnore, h]

theorem rows_insertIgnore_of_none {t : Table κ ρ} {k : κ} {r : ρ} (h : t.get? k = none) :
    (t.insertIgnore k r).rows = t.rows ++ [(k, r)] := by
  simp [insertIgnore, h]

theorem insertIgnore_of_some {t : Table κ ρ} {k : κ} {r r' : ρ} (h : t.get? k = some r') :
    t.insertIgnore k r = t := by
  simp [insertIgnore, h]

theorem get?_insertIgnore (t : Table κ ρ) (k : κ) (r : ρ) (k' : κ) :
    (t.insertIgnore k r).get? k' = if k' = k then some ((t.get? k).getD r) else t.get? k' := by
  cases h : t.get? k with
  | some r' =>
      rw [insertIgnore_of_some h]
      by_cases hk : k' = k
      · subst hk; simp [h]
      · simp [hk]
  | none =>
      by_cases hk : k' = k
      · subst hk
        simp [get?_eq_some_iff, mem_insertIgnore_of_none h]
      · simp only [hk, if_false]
        ext r'
        rw [get?_eq_some_iff, get?_eq_some_iff, mem_insertIgnore_of_none h]
        simp [hk]

@[simp] theorem get?_upsert (t : Table κ ρ) (k : κ) (r : ρ) (k' : κ) :
    (t.upsert k r).get? k' = if k' = k then some r else t.get? k' := by
  rw [upsert, get?_insertIgnore, get?_updateWhere, get?_updateWhere]
  by_cases hk : k' = k
  · subst hk
    cases h : t.get? k' <;> simp
  · cases h : t.get? k' <;> simp [hk]

theorem mem_upsert {t : Table κ ρ} {k : κ} {r : ρ} {e : κ × ρ} :
    e ∈ (t.upsert k r).rows ↔ e = (k, r) ∨ (e.1 ≠ k ∧ e ∈ t.rows) := by
  rcases e with ⟨k', r'⟩
  rw [← get?_eq_some_iff, get?_upsert]
  by_cases hk : k' = k
  · subst hk
    simp [eq_comm]
  · simp [hk, get?_eq_some_iff]

end Lookup

end Table

end AsterBridge.Lib
