import Mathlib.Data.List.Forall2
import Mathlib.Tactic

/-!
# Splitting a list along a list of parts

`Splits P parts xs` says that `xs` is cut into one piece for each part, in order, where `P` says
which pieces a part takes. A part may take exactly one element (`splits_one`) or any number of
elements of a kind (`splits_many`); each has one equation, which reads the list from its front.
-/

set_option autoImplicit false

namespace AsterBridge.Lib

variable {α β : Type} {P : α → List β → Prop}

/-- The list is one piece after the other, a piece for each part. -/
inductive Splits (P : α → List β → Prop) : List α → List β → Prop where
  | nil : Splits P [] []
  | cons {part : α} {parts : List α} {piece rest : List β} (hpiece : P part piece)
      (hrest : Splits P parts rest) : Splits P (part :: parts) (piece ++ rest)

theorem splits_nil {xs : List β} : Splits P [] xs ↔ xs = [] := by
  constructor
  · rintro ⟨⟩
    rfl
  · rintro rfl
    exact .nil

theorem splits_cons {part : α} {parts : List α} {xs : List β} :
    Splits P (part :: parts) xs ↔
      ∃ piece rest, xs = piece ++ rest ∧ P part piece ∧ Splits P parts rest := by
  constructor
  · intro h
    cases h with
    | cons hpiece hrest => exact ⟨_, _, rfl, hpiece, hrest⟩
  · rintro ⟨piece, rest, rfl, hpiece, hrest⟩
    exact .cons hpiece hrest

/-- The pieces as a list. -/
theorem splits_iff {parts : List α} {xs : List β} :
    Splits P parts xs ↔ ∃ pieces : List (List β), pieces.flatten = xs ∧ List.Forall₂ P parts pieces := by
  constructor
  · intro h
    induction h with
    | nil => exact ⟨[], rfl, .nil⟩
    | cons hpiece _ ih =>
        obtain ⟨pieces, hflat, hall⟩ := ih
        exact ⟨_ :: pieces, by rw [List.flatten_cons, hflat], .cons hpiece hall⟩
  · rintro ⟨pieces, rfl, hall⟩
    induction hall with
    | nil => exact .nil
    | cons hpiece _ ih => exact .cons hpiece ih

/-- A part that takes one element. -/
theorem splits_one {part : α} {parts : List α} {xs : List β} {ok : β → Prop}
    (h : ∀ piece, P part piece ↔ ∃ b, piece = [b] ∧ ok b) :
    Splits P (part :: parts) xs ↔ ∃ b rest, xs = b :: rest ∧ ok b ∧ Splits P parts rest := by
  rw [splits_cons]
  constructor
  · rintro ⟨piece, rest, rfl, hpiece, hrest⟩
    obtain ⟨b, rfl, hb⟩ := (h piece).1 hpiece
    exact ⟨b, rest, rfl, hb, hrest⟩
  · rintro ⟨b, rest, rfl, hb, hrest⟩
    exact ⟨[b], rest, rfl, (h [b]).2 ⟨b, rfl, hb⟩, hrest⟩

/-- A part that takes any number of elements: none, or one and then more. -/
theorem splits_many {part : α} {parts : List α} {xs : List β} {ok : β → Prop}
    (h : ∀ piece, P part piece ↔ ∀ b ∈ piece, ok b) :
    Splits P (part :: parts) xs ↔
      Splits P parts xs ∨ ∃ b rest, xs = b :: rest ∧ ok b ∧ Splits P (part :: parts) rest := by
  constructor
  · intro hsplit
    obtain ⟨piece, rest, rfl, hpiece, hrest⟩ := splits_cons.1 hsplit
    cases piece with
    | nil => exact .inl hrest
    | cons b piece =>
        have hall := (h _).1 hpiece
        have hmore : P part piece := (h _).2 fun c hc => hall c (List.mem_cons_of_mem _ hc)
        exact .inr ⟨b, piece ++ rest, rfl, hall b List.mem_cons_self, .cons hmore hrest⟩
  · rintro (hnone | ⟨b, rest, rfl, hb, hsplit⟩)
    · exact splits_cons.2 ⟨[], xs, rfl, (h []).2 (by simp), hnone⟩
    · obtain ⟨piece, rest', rfl, hpiece, hrest⟩ := splits_cons.1 hsplit
      refine splits_cons.2 ⟨b :: piece, rest', rfl, (h _).2 fun c hc => ?_, hrest⟩
      rcases List.mem_cons.1 hc with rfl | hmem
      · exact hb
      · exact (h _).1 hpiece c hmem

/-- Splitting commutes with maps that respect the pieces. -/
theorem splits_map {α' β' : Type} {P' : α' → List β' → Prop} {f : α → α'} {g : β → β'}
    (h : ∀ part piece, P' (f part) (piece.map g) ↔ P part piece) {parts : List α} {xs : List β} :
    Splits P' (parts.map f) (xs.map g) ↔ Splits P parts xs := by
  induction parts generalizing xs with
  | nil => rw [List.map_nil, splits_nil, splits_nil, List.map_eq_nil_iff]
  | cons part parts ih =>
      rw [List.map_cons, splits_cons, splits_cons]
      constructor
      · rintro ⟨piece', rest', hxs, hpiece, hrest⟩
        obtain ⟨piece, rest, rfl, rfl, rfl⟩ := List.map_eq_append_iff.1 hxs
        exact ⟨piece, rest, rfl, (h part piece).1 hpiece, ih.1 hrest⟩
      · rintro ⟨piece, rest, rfl, hpiece, hrest⟩
        exact ⟨_, _, List.map_append, (h part piece).2 hpiece, ih.2 hrest⟩

end AsterBridge.Lib
