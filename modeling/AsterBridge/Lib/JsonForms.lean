import AsterBridge.Lib.JsonText
import AsterBridge.Lib.Utf16

/-!
# The texts of a JSON object

All texts that a JSON object whose values are strings may be written as: any white space between
the tokens, any escape for a character. `JsonText.write` gives one of them.
-/

set_option autoImplicit false

namespace AsterBridge.Lib.JsonForms

/-- The unit that four hexadecimal digits name. -/
def hexUnit (a b c d : Char) : Option Nat := do
  let a ← JsonText.hexValue a
  let b ← JsonText.hexValue b
  let c ← JsonText.hexValue c
  let d ← JsonText.hexValue d
  return ((a * 16 + b) * 16 + c) * 16 + d

/-- A text of a character inside a string: itself, a short escape, or its units. -/
inductive CharForm : Char → List Char → Prop where
  | plain {c : Char} (hquote : c ≠ '"') (hslash : c ≠ '\\') (hcontrol : 0x20 ≤ c.toNat) :
      CharForm c [c]
  | short {letter c : Char} (h : JsonText.unescape letter = some c) : CharForm c ['\\', letter]
  | unit {c a₁ a₂ a₃ a₄ : Char} {u : Nat} (h : Utf16.encodeChar c = [u])
      (hu : hexUnit a₁ a₂ a₃ a₄ = some u) : CharForm c ['\\', 'u', a₁, a₂, a₃, a₄]
  | pair {c a₁ a₂ a₃ a₄ b₁ b₂ b₃ b₄ : Char} {u v : Nat} (h : Utf16.encodeChar c = [u, v])
      (hu : hexUnit a₁ a₂ a₃ a₄ = some u) (hv : hexUnit b₁ b₂ b₃ b₄ = some v) :
      CharForm c ['\\', 'u', a₁, a₂, a₃, a₄, '\\', 'u', b₁, b₂, b₃, b₄]

/-- A text of a string. -/
def StringForm (s : List Char) (text : List Char) : Prop :=
  ∃ forms, List.Forall₂ CharForm s forms ∧ text = '"' :: (forms.flatten ++ ['"'])

/-- White space between tokens. -/
def IsBlank (s : List Char) : Prop := ∀ c ∈ s, c = ' ' ∨ c = '\n' ∨ c = '\r' ∨ c = '\t'

theorem IsBlank.whitespace {s : List Char} (h : IsBlank s) :
    ∀ c ∈ s, Text.isWhitespace c = true := by
  intro c hc
  rcases h c hc with rfl | rfl | rfl | rfl
  all_goals decide

theorem IsBlank.notMem {s : List Char} (h : IsBlank s) {c : Char}
    (hc : Text.isWhitespace c = false) : c ∉ s := by
  intro hmem
  rw [h.whitespace c hmem] at hc
  exact absurd hc (by decide)

/-- A text of a member. -/
def MemberForm (m : List Char × List Char) (text : List Char) : Prop :=
  ∃ b₁ b₂ b₃ b₄ name value, IsBlank b₁ ∧ IsBlank b₂ ∧ IsBlank b₃ ∧ IsBlank b₄ ∧
    StringForm m.1 name ∧ StringForm m.2 value ∧
    text = b₁ ++ (name ++ (b₂ ++ ':' :: (b₃ ++ (value ++ b₄))))

/-- A text of an object. -/
def ObjectForm (members : List (List Char × List Char)) (text : List Char) : Prop :=
  ∃ b₁ b₂ inner, IsBlank b₁ ∧ IsBlank b₂ ∧ text = b₁ ++ '{' :: (inner ++ '}' :: b₂) ∧
    (members = [] ∧ IsBlank inner ∨
      members ≠ [] ∧ ∃ texts, List.Forall₂ MemberForm members texts ∧
        inner = [','].intercalate texts)

end AsterBridge.Lib.JsonForms
