import Mathlib.Data.List.Basic
import Mathlib.Order.Basic
import Mathlib.Tactic.Common

/-!
# State, counter and journal

A store shows a status for each of its items. Beside them it keeps a counter and a
journal of entries, each an item with the counter's value when it was written.

`Witnessed a b` says that from `a` to `b` the journal accounts for the store: every item
whose status differs has an entry above the counter of `a`. It composes
(`Witnessed.trans`). A counter that stands still then means that nothing has changed
(`Witnessed.status_eq`).
-/

set_option autoImplicit false

namespace AsterBridge.Lib

universe u v w

/-- The statuses of the items, the counter and the journal. -/
structure Journal (τ : Type w) (ι : Type u) (σ : Type v) where
  counter : τ
  entries : List (ι × τ)
  status : ι → σ

namespace Journal

variable {τ : Type w} {ι : Type u} {σ : Type v} {a b c : Journal τ ι σ}

/-- The entries from `a` to `b`. -/
def since (a b : Journal τ ι σ) : List (ι × τ) := b.entries.drop a.entries.length

/-- An item has an entry from `a` to `b`. -/
def Covered (a b : Journal τ ι σ) (i : ι) : Prop := ∃ n, (i, n) ∈ since a b

theorem covered_of_append {new : List (ι × τ)} (h : b.entries = a.entries ++ new) {i : ι}
    {n : τ} (hmem : (i, n) ∈ new) : Covered a b i := by
  refine ⟨n, ?_⟩
  rw [since, h, List.drop_left]
  exact hmem

variable [Preorder τ]

/-- The counter and the journal grow: new entries lie between the counters. -/
def Grows (a b : Journal τ ι σ) : Prop :=
  a.counter ≤ b.counter ∧ ∃ new, b.entries = a.entries ++ new ∧
    ∀ e ∈ new, a.counter < e.2 ∧ e.2 ≤ b.counter

/-- The journal accounts for every change of a status. -/
structure Witnessed (a b : Journal τ ι σ) : Prop where
  grows : Grows a b
  covered : ∀ i, a.status i ≠ b.status i → Covered a b i

theorem Grows.refl (a : Journal τ ι σ) : Grows a a :=
  ⟨le_rfl, [], (List.append_nil _).symm, fun _ he => absurd he List.not_mem_nil⟩

theorem Grows.trans (h : Grows a b) (h' : Grows b c) : Grows a c := by
  obtain ⟨hle, new, heq, hnew⟩ := h
  obtain ⟨hle', new', heq', hnew'⟩ := h'
  refine ⟨hle.trans hle', new ++ new', by rw [heq', heq, List.append_assoc], fun e he => ?_⟩
  rcases List.mem_append.1 he with he | he
  · exact ⟨(hnew e he).1, (hnew e he).2.trans hle'⟩
  · exact ⟨hle.trans_lt (hnew' e he).1, (hnew' e he).2⟩

/-- Writing entries for some items at a new value of the counter. -/
theorem Grows.write (hcounter : a.counter < b.counter) (items : List ι)
    (hentries : b.entries = a.entries ++ items.map fun i => (i, b.counter)) : Grows a b := by
  refine ⟨hcounter.le, _, hentries, fun e he => ?_⟩
  obtain ⟨i, -, rfl⟩ := List.mem_map.1 he
  exact ⟨hcounter, le_rfl⟩

theorem Grows.of_eq (hcounter : b.counter = a.counter) (hentries : b.entries = a.entries) :
    Grows a b :=
  ⟨hcounter.ge, [], by rw [hentries, List.append_nil], fun _ he => absurd he List.not_mem_nil⟩

/-- An entry of the first part is one of the whole. -/
theorem Covered.left (h' : Grows b c) {i : ι} (hi : Covered a b i) : Covered a c i := by
  obtain ⟨n, hn⟩ := hi
  obtain ⟨-, new, heq, -⟩ := h'
  refine ⟨n, ?_⟩
  rw [since, heq, List.drop_append]
  exact List.mem_append_left _ hn

/-- An entry of the second part is one of the whole. -/
theorem Covered.right (h : Grows a b) {i : ι} (hi : Covered b c i) : Covered a c i := by
  obtain ⟨n, hn⟩ := hi
  obtain ⟨-, new, heq, -⟩ := h
  have hlen : a.entries.length ≤ b.entries.length := by
    rw [heq, List.length_append]
    omega
  exact ⟨n, (List.drop_sublist_drop_left c.entries hlen).mem hn⟩

theorem Witnessed.refl (a : Journal τ ι σ) : Witnessed a a :=
  ⟨Grows.refl a, fun _ hne => absurd rfl hne⟩

theorem Witnessed.trans (h : Witnessed a b) (h' : Witnessed b c) : Witnessed a c := by
  refine ⟨h.grows.trans h'.grows, fun i hne => ?_⟩
  by_cases hfirst : a.status i = b.status i
  · exact (h'.covered i fun heq => hne (hfirst.trans heq)).right h.grows
  · exact (h.covered i hfirst).left h'.grows

/-- **A counter that stands still** means that no status has changed. -/
theorem Witnessed.status_eq (h : Witnessed a b) (hcounter : a.counter = b.counter) (i : ι) :
    a.status i = b.status i := by
  by_contra hne
  obtain ⟨n, hn⟩ := h.covered i hne
  obtain ⟨-, new, heq, hnew⟩ := h.grows
  rw [since, heq, List.drop_left] at hn
  obtain ⟨hlt, hle⟩ := hnew _ hn
  exact absurd (hlt.trans_le hle) hcounter.not_lt

/-- A changed status has an entry above the counter of the earlier moment. -/
theorem Witnessed.entry (h : Witnessed a b) {i : ι} (hne : a.status i ≠ b.status i) :
    ∃ n, (i, n) ∈ since a b ∧ a.counter < n := by
  obtain ⟨n, hn⟩ := h.covered i hne
  obtain ⟨-, new, heq, hnew⟩ := h.grows
  have hmem := hn
  rw [since, heq, List.drop_left] at hmem
  exact ⟨n, hn, (hnew _ hmem).1⟩

end Journal

/-- A list that is cut to its newest part at every append holds the newest part of all. -/
theorem newest_append {α : Type u} (cap : Nat) (old rows : List α) :
    (old.drop (old.length - cap) ++ rows).drop
        ((old.drop (old.length - cap) ++ rows).length - cap) =
      (old ++ rows).drop ((old ++ rows).length - cap) := by
  rw [List.drop_append, List.drop_append, List.drop_drop, List.length_append, List.length_append,
    List.length_drop]
  have hold : old.length - cap + (old.length - (old.length - cap) + rows.length - cap) =
      old.length + rows.length - cap := by omega
  have hrows : old.length - (old.length - cap) + rows.length - cap -
      (old.length - (old.length - cap)) = old.length + rows.length - cap - old.length := by omega
  rw [hold, hrows]

end AsterBridge.Lib
