import Mathlib.Tactic

/-!
# Ledgers of issued numbers

In every space `k : κ` numbers are issued in increasing order; `next k` is above
all numbers issued so far and `live k i` is the number that `i` holds now. A
number may be revoked at any time.

`Advances s t` says what issuing and revoking may do to a ledger. It is
transitive, so it describes whole histories; the two facts about histories are
`Advances.owner_unique` (a number never gets a second owner) and
`Advances.issued_later` (a number that is new is above all earlier ones).
-/

set_option autoImplicit false

namespace AsterBridge.Lib

universe u v

/-- Next number and live numbers of every space. -/
structure Ledger (κ : Type u) (ι : Type v) where
  next : κ → Nat
  live : κ → ι → Option Nat

namespace Ledger

variable {κ : Type u} {ι : Type v}

/-- Live numbers are positive, below the next one, and have one owner each. -/
structure Sound (s : Ledger κ ι) : Prop where
  pos : ∀ k i n, s.live k i = some n → 1 ≤ n
  below : ∀ k i n, s.live k i = some n → n < s.next k
  owner : ∀ k i j n, s.live k i = some n → s.live k j = some n → i = j

/-- `t` is a later state of the ledger `s`. -/
structure Advances (s t : Ledger κ ι) : Prop where
  sound : s.Sound → t.Sound
  next_le : s.Sound → ∀ k, s.next k ≤ t.next k
  live : s.Sound → ∀ k i n, t.live k i = some n → s.live k i = some n ∨ s.next k ≤ n

theorem Advances.refl (s : Ledger κ ι) : Advances s s :=
  ⟨id, fun _ _ => le_rfl, fun _ _ _ _ h => Or.inl h⟩

theorem Advances.trans {s t u : Ledger κ ι} (h : Advances s t) (h' : Advances t u) :
    Advances s u where
  sound hs := h'.sound (h.sound hs)
  next_le hs k := (h.next_le hs k).trans (h'.next_le (h.sound hs) k)
  live hs k i n hn := by
    rcases h'.live (h.sound hs) k i n hn with hlive | hge
    · exact h.live hs k i n hlive
    · exact Or.inr ((h.next_le hs k).trans hge)

/-- Revoking numbers is an advance. -/
theorem Advances.revoke {s t : Ledger κ ι} (hnext : ∀ k, t.next k = s.next k)
    (hlive : ∀ k i n, t.live k i = some n → s.live k i = some n) : Advances s t where
  sound hs :=
    { pos := fun k i n h => hs.pos k i n (hlive k i n h)
      below := fun k i n h => by
        rw [hnext]
        exact hs.below k i n (hlive k i n h)
      owner := fun k i j n h h' => hs.owner k i j n (hlive k i n h) (hlive k j n h') }
  next_le _ k := (hnext k).ge
  live _ k i n h := Or.inl (hlive k i n h)

/-- Issuing the next number of a space is an advance. -/
theorem Advances.issue [DecidableEq κ] [DecidableEq ι] {s t : Ledger κ ι} (k : κ) (i : ι) {n : Nat}
    (hpos : 1 ≤ n) (hn : s.Sound → n = s.next k)
    (hnext : ∀ k', t.next k' = if k' = k then n + 1 else s.next k')
    (hlive : ∀ k' j, t.live k' j = if k' = k ∧ j = i then some n else s.live k' j) :
    Advances s t where
  sound hs := by
    have hnew := hn hs
    -- a live number is the new one or an old one, which lies below it
    have hcases : ∀ k' j m, t.live k' j = some m →
        (k' = k ∧ j = i ∧ m = n) ∨ s.live k' j = some m := by
      intro k' j m hm
      rw [hlive] at hm
      by_cases hk : k' = k ∧ j = i
      · rw [if_pos hk] at hm
        exact Or.inl ⟨hk.1, hk.2, (Option.some.inj hm).symm⟩
      · rw [if_neg hk] at hm
        exact Or.inr hm
    refine ⟨?_, ?_, ?_⟩
    · intro k' j m hm
      rcases hcases k' j m hm with ⟨-, -, rfl⟩ | hold
      · exact hpos
      · exact hs.pos k' j m hold
    · intro k' j m hm
      rw [hnext]
      rcases hcases k' j m hm with ⟨rfl, -, rfl⟩ | hold
      · rw [if_pos rfl]
        omega
      · have hlt := hs.below k' j m hold
        by_cases hk : k' = k
        · rw [if_pos hk]
          rw [hk] at hlt
          omega
        · rwa [if_neg hk]
    · intro k' j j' m hm hm'
      rcases hcases k' j m hm with ⟨rfl, rfl, rfl⟩ | hold
      · rcases hcases k' j' m hm' with ⟨-, rfl, -⟩ | hold'
        · rfl
        · have hlt := hs.below k' j' m hold'
          omega
      · rcases hcases k' j' m hm' with ⟨rfl, rfl, rfl⟩ | hold'
        · have hlt := hs.below k' j m hold
          omega
        · exact hs.owner k' j j' m hold hold'
  next_le hs k' := by
    rw [hnext]
    by_cases hk : k' = k
    · rw [if_pos hk, hk, hn hs]
      omega
    · rw [if_neg hk]
  live hs k' j m hm := by
    rw [hlive] at hm
    by_cases hk : k' = k ∧ j = i
    · rw [if_pos hk] at hm
      rw [hk.1, ← hn hs, Option.some.inj hm]
      exact Or.inr le_rfl
    · rw [if_neg hk] at hm
      exact Or.inl hm

/-- **No second owner.** A number live once never belongs to anyone else later. -/
theorem Advances.owner_unique {s t : Ledger κ ι} (h : Advances s t) (hs : s.Sound) {k : κ}
    {i j : ι} {n : Nat} (hi : s.live k i = some n) (hj : t.live k j = some n) : i = j := by
  rcases h.live hs k j n hj with hold | hge
  · exact hs.owner k i j n hi hold
  · have hlt := hs.below k i n hi
    omega

/-- **New numbers are above old ones.** A number that its owner did not hold
before is above every number that was live then. -/
theorem Advances.issued_later {s t : Ledger κ ι} (h : Advances s t) (hs : s.Sound) {k : κ}
    {i j : ι} {m n : Nat} (hnew : s.live k i ≠ some n) (hi : t.live k i = some n)
    (hj : s.live k j = some m) : m < n := by
  rcases h.live hs k i n hi with hold | hge
  · exact absurd hold hnew
  · exact (hs.below k j m hj).trans_le hge

end Ledger

end AsterBridge.Lib
