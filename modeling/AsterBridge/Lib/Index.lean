import Mathlib.Data.List.Perm.Basic
import Mathlib.Data.List.Nodup
import Mathlib.Tactic

/-!
# An index kept beside a table

An index has one entry for each row of a table, under the key of the row. A statement on the table
goes through its rows one by one and changes the index at each. `Follows` is what one row has to do
to the index, `Follows.foldl` what the statement has done after the last one.
-/

set_option autoImplicit false

namespace AsterBridge.Lib.Index

universe u v w

variable {κ : Type u} {α : Type v} {ρ : Type w}

/-- The entries but those under the key `k`. -/
def erase [DecidableEq κ] (ix : List (κ × α)) (k : κ) : List (κ × α) :=
  ix.filter fun e => e.1 ≠ k

theorem erase_of_notMem [DecidableEq κ] {ix : List (κ × α)} {k : κ} (h : k ∉ ix.map Prod.fst) :
    erase ix k = ix := by
  refine List.filter_eq_self.2 fun e he => ?_
  refine decide_eq_true fun heq => h ?_
  exact heq ▸ List.mem_map_of_mem he

/-- The one entry under its key goes. -/
theorem erase_middle [DecidableEq κ] {ix xs ys : List (κ × α)} {k : κ} {a : α}
    (h : ix.Perm (xs ++ (k, a) :: ys)) (hnodup : ((xs ++ (k, a) :: ys).map Prod.fst).Nodup) :
    (erase ix k).Perm (xs ++ ys) := by
  rw [List.map_append, List.map_cons, List.nodup_middle, List.nodup_cons, List.mem_append,
    not_or] at hnodup
  have hxs : erase xs k = xs := erase_of_notMem hnodup.1.1
  have hys : erase ys k = ys := erase_of_notMem hnodup.1.2
  have hfilter : (erase ix k).Perm (erase (xs ++ (k, a) :: ys) k) := h.filter _
  rw [erase, erase, List.filter_append, List.filter_cons_of_neg (by simp)] at hfilter
  rw [erase] at hxs hys
  rwa [hxs, hys] at hfilter

/-- The entries of rows. -/
def entries (key : ρ → κ) (value : ρ → α) (rows : List ρ) : List (κ × α) :=
  rows.map fun r => (key r, value r)

section Follows

variable {key : ρ → κ} {value : ρ → α}

theorem entries_append (xs ys : List ρ) :
    entries key value (xs ++ ys) = entries key value xs ++ entries key value ys :=
  List.map_append

theorem keys_entries (rows : List ρ) :
    (entries key value rows).map Prod.fst = rows.map key := by
  rw [entries, List.map_map]
  rfl

/-- The rows that a statement leaves keep the order of their keys. -/
theorem keys_filterMap {next : ρ → Option ρ} (hkey : ∀ r r', next r = some r' → key r' = key r)
    (rows : List ρ) : ((rows.filterMap next).map key).Sublist (rows.map key) := by
  induction rows with
  | nil => exact List.Sublist.slnil
  | cons r rows ih =>
      cases hnext : next r with
      | none =>
          rw [List.filterMap_cons_none hnext, List.map_cons]
          exact ih.cons _
      | some r' =>
          rw [List.filterMap_cons_some hnext, List.map_cons, List.map_cons, hkey r r' hnext]
          exact ih.cons_cons _

/-- What a statement does at a row: `act` to the index, where `next` says what becomes of the row.
Only the entry of the row changes. -/
structure Follows (key : ρ → κ) (value : ρ → α)
    (act : ρ → List (κ × α) → List (κ × α)) (next : ρ → Option ρ) : Prop where
  same : ∀ r r', next r = some r' → key r' = key r
  step : ∀ r ix xs ys, ix.Perm (xs ++ (key r, value r) :: ys) →
    ((xs ++ (key r, value r) :: ys).map Prod.fst).Nodup →
      (act r ix).Perm (xs ++ (entries key value (next r).toList ++ ys))

/-- After the last row the index has the entries of the rows that are left. -/
theorem Follows.foldl {act : ρ → List (κ × α) → List (κ × α)} {next : ρ → Option ρ}
    (h : Follows key value act next) {rows : List ρ} {ix : List (κ × α)}
    (hix : ix.Perm (entries key value rows)) (hnodup : (rows.map key).Nodup) :
    (rows.foldl (fun ix r => act r ix) ix).Perm (entries key value (rows.filterMap next)) := by
  have hgo : ∀ (todo done : List ρ) (ix : List (κ × α)),
      ix.Perm (entries key value done ++ entries key value todo) →
      ((done ++ todo).map key).Nodup →
      (todo.foldl (fun ix r => act r ix) ix).Perm
        (entries key value done ++ entries key value (todo.filterMap next)) := by
    intro todo
    induction todo with
    | nil => exact fun done ix hix _ => hix
    | cons r todo ih =>
        intro done ix hix hnodup
        have hmiddle : ((entries key value done ++ (key r, value r) :: entries key value todo).map
            Prod.fst).Nodup := by
          rw [List.map_append, List.map_cons, keys_entries, keys_entries]
          rwa [List.map_append, List.map_cons] at hnodup
        have hstep := h.step r ix _ _ hix hmiddle
        rw [← List.append_assoc, ← entries_append] at hstep
        have hrest : ((done ++ (next r).toList ++ todo).map key).Nodup := by
          refine hnodup.sublist ?_
          rw [List.append_assoc, List.map_append, List.map_append, List.map_append]
          refine (List.Sublist.refl _).append ?_
          cases hnext : next r with
          | none => exact List.sublist_cons_self _ _
          | some r' =>
              rw [Option.toList_some, List.map_singleton, h.same r r' hnext]
              exact List.Sublist.refl _
        have hafter := ih (done ++ (next r).toList) (act r ix) hstep hrest
        rw [List.foldl_cons]
        rw [entries_append, List.append_assoc] at hafter
        cases hnext : next r with
        | none =>
            rw [hnext] at hafter
            rw [List.filterMap_cons_none hnext]
            exact hafter
        | some r' =>
            rw [hnext] at hafter
            rw [List.filterMap_cons_some hnext]
            exact hafter
  exact hgo rows [] ix hix hnodup

end Follows

end AsterBridge.Lib.Index
