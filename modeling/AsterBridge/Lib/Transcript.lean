import Mathlib.Data.List.Induction

/-!
# Transcripts

A transcript lists the events of a run, oldest first. `Each` is a condition on every
event against what came before it. `Since` splits a transcript at an event after which
only quiet ones follow, which is how "since the last" is said of a run.
-/

set_option autoImplicit false

namespace AsterBridge.Lib.Transcript

universe u

variable {ε : Type u} {t mid es : List ε} {e : ε}

/-- Every event meets `P` against the events before it. -/
def Each (P : List ε → ε → Prop) (t : List ε) : Prop :=
  ∀ before e after, t = before ++ e :: after → P before e

/-- The transcript ends with `e` and the events `mid`, which are all quiet. -/
structure Since (quiet : ε → Prop) (e : ε) (t mid : List ε) : Prop where
  split : ∃ earlier, t = earlier ++ e :: mid
  quiet : ∀ x ∈ mid, quiet x

section Each

variable {P : List ε → ε → Prop}

theorem each_nil (P : List ε → ε → Prop) : Each P [] := by
  intro before e after h
  exact absurd h.symm (by simp)

theorem each_concat : Each P (t ++ [e]) ↔ Each P t ∧ P t e := by
  constructor
  · intro h
    refine ⟨fun before x after hx => h before x (after ++ [e]) ?_, h t e [] rfl⟩
    rw [hx, List.append_assoc, List.cons_append]
  · rintro ⟨h, he⟩ before x after hx
    -- the event `x` is the last one, or lies in `t`
    cases after using List.reverseRecOn with
    | nil =>
        obtain ⟨ht, hlast⟩ := List.append_inj' hx rfl
        obtain rfl := (List.cons.inj hlast).1
        exact ht ▸ he
    | append_singleton init last =>
        rw [← List.cons_append, ← List.append_assoc] at hx
        exact h before x init (List.append_inj' hx rfl).1

/-- Events that meet the condition against any past may be appended. -/
theorem Each.append (h : Each P t) (hes : ∀ x ∈ es, ∀ before, P before x) : Each P (t ++ es) := by
  induction es using List.reverseRecOn with
  | nil => rwa [List.append_nil]
  | append_singleton init last ih =>
      rw [← List.append_assoc, each_concat]
      refine ⟨ih fun x hx => hes x (List.mem_append_left _ hx), ?_⟩
      exact hes last (List.mem_append_right _ List.mem_cons_self) _

end Each

section Since

variable {quiet : ε → Prop}

theorem since_concat (quiet : ε → Prop) (t : List ε) (e : ε) : Since quiet e (t ++ [e]) [] :=
  ⟨⟨t, rfl⟩, fun _ hx => absurd hx List.not_mem_nil⟩

theorem Since.append (h : Since quiet e t mid) (hes : ∀ x ∈ es, quiet x) :
    Since quiet e (t ++ es) (mid ++ es) := by
  obtain ⟨earlier, rfl⟩ := h.split
  refine ⟨⟨earlier, by simp⟩, fun x hx => ?_⟩
  rcases List.mem_append.1 hx with hmid | hnew
  · exact h.quiet x hmid
  · exact hes x hnew

end Since

end AsterBridge.Lib.Transcript
