import Mathlib.Data.List.Basic
import Mathlib.Tactic

/-!
# Lines on the wire

Texts whose lines end in CRLF, and replies of several lines: a line that begins with a dot
is sent with one more, and a line that is a dot alone ends the reply.
-/

set_option autoImplicit false

namespace AsterBridge.Lib.Lines

/-- `\r\n` -/
def crlf : List Char := ['\r', '\n']

/-- Neither CR nor LF. -/
def NoBreak (s : List Char) : Prop := ∀ c ∈ s, c ≠ '\r' ∧ c ≠ '\n'

/-! ## Texts without a break -/

section NoBreak

variable {s t : List Char} {c : Char}

instance (s : List Char) : Decidable (NoBreak s) :=
  decidable_of_iff (s.all (fun c => decide (c ≠ '\r' ∧ c ≠ '\n')) = true)
    (List.all_eq_true.trans (forall₂_congr fun _ _ => decide_eq_true_iff))

theorem noBreak_nil : NoBreak [] := fun _ h => absurd h List.not_mem_nil

theorem NoBreak.cons (hc : c ≠ '\r' ∧ c ≠ '\n') (h : NoBreak s) : NoBreak (c :: s) := by
  intro d hd
  rcases List.mem_cons.1 hd with rfl | hd
  · exact hc
  · exact h d hd

theorem NoBreak.append (hs : NoBreak s) (ht : NoBreak t) : NoBreak (s ++ t) := by
  intro c hc
  rcases List.mem_append.1 hc with hc | hc
  · exact hs c hc
  · exact ht c hc

theorem NoBreak.mono (h : NoBreak t) (hsub : ∀ c ∈ s, c ∈ t) : NoBreak s :=
  fun c hc => h c (hsub c hc)

theorem NoBreak.tail (h : NoBreak (c :: s)) : NoBreak s :=
  h.mono fun _ => List.mem_cons_of_mem _

theorem NoBreak.flatMap {α : Type} {l : List α} {f : α → List Char} (h : ∀ a ∈ l, NoBreak (f a)) :
    NoBreak (l.flatMap f) := by
  intro c hc
  obtain ⟨a, ha, hc⟩ := List.mem_flatMap.1 hc
  exact h a ha c hc

/-- A decimal numeral has no break. -/
theorem noBreak_toString (n : Nat) : NoBreak (toString n).toList := by
  have hlist : (toString n).toList = Nat.toDigits 10 n := Nat.toList_repr
  intro c hc
  rw [hlist] at hc
  have hdigit := Nat.isDigit_of_mem_toDigits (by decide : 0 < 10) (by decide) hc
  constructor
  · rintro rfl
    exact absurd hdigit (by decide)
  · rintro rfl
    exact absurd hdigit (by decide)

end NoBreak

/-! ## Lines -/

/-- Every line with its CRLF. -/
def joined (lines : List (List Char)) : List Char := lines.flatMap (· ++ crlf)

/-- The lines of a text, where only CRLF ends a line. -/
def crlfLines : List Char → List (List Char)
  | [] => []
  | '\r' :: '\n' :: rest => [] :: crlfLines rest
  | c :: rest =>
      match crlfLines rest with
      | [] => [[c]]
      | line :: lines => (c :: line) :: lines

section Lines

variable {line rest : List Char} {lines : List (List Char)}

@[simp] theorem joined_nil : joined [] = [] := rfl

@[simp] theorem joined_cons (line : List Char) (lines : List (List Char)) :
    joined (line :: lines) = line ++ crlf ++ joined lines := rfl

@[simp] theorem joined_append (ls ls' : List (List Char)) :
    joined (ls ++ ls') = joined ls ++ joined ls' := List.flatMap_append

theorem crlfLines_crlf (rest : List Char) : crlfLines (crlf ++ rest) = [] :: crlfLines rest := by
  rw [crlf, List.cons_append, List.cons_append, List.nil_append, crlfLines]

theorem crlfLines_append (h : NoBreak line) (rest : List Char) :
    crlfLines (line ++ crlf ++ rest) = line :: crlfLines rest := by
  induction line with
  | nil => exact crlfLines_crlf rest
  | cons c line ih =>
      have hc := h c List.mem_cons_self
      rw [List.cons_append, List.cons_append, crlfLines, ih h.tail]
      exact fun _ hcr => absurd hcr hc.1

/-- Lines without a break are read as they were sent. -/
theorem crlfLines_joined (h : ∀ line ∈ lines, NoBreak line) : crlfLines (joined lines) = lines := by
  induction lines with
  | nil => rfl
  | cons line lines ih =>
      rw [joined_cons, crlfLines_append (h line List.mem_cons_self),
        ih fun l hl => h l (List.mem_cons_of_mem _ hl)]

end Lines

/-! ## Replies of several lines -/

/-- A line as it is sent. -/
def stuff (line : List Char) : List Char :=
  if line.head? = some '.' then '.' :: line else line

/-- A line as it is read. -/
def unstuff : List Char → List Char
  | '.' :: line => line
  | line => line

/-- The lines that a client reads from a reply: those after the status line and before the
line that is a dot. -/
def replyLines (reply : List Char) : List (List Char) :=
  (((crlfLines reply).drop 1).takeWhile (· ≠ ['.'])).map unstuff

/-- The reply is made of lines that end in CRLF, and the first line that is a dot is the
last. -/
def Framed (reply : List Char) : Prop :=
  ∃ before, (∀ line ∈ before, NoBreak line ∧ line ≠ ['.']) ∧ reply = joined (before ++ [['.']])

section Replies

variable {status line : List Char} {lines : List (List Char)}

@[simp] theorem unstuff_stuff (line : List Char) : unstuff (stuff line) = line := by
  cases line with
  | nil => rfl
  | cons c line =>
      by_cases hc : c = '.'
      · rw [hc]
        rfl
      · rw [stuff, if_neg (by simpa using hc), unstuff]
        exact fun _ hdot => absurd (List.cons.inj hdot).1 hc

theorem stuff_ne_dot (line : List Char) : stuff line ≠ ['.'] := by
  intro h
  have hline := unstuff_stuff line
  rw [h] at hline
  rw [← hline] at h
  exact absurd h (by decide)

theorem NoBreak.stuff (h : NoBreak line) : NoBreak (stuff line) := by
  unfold Lines.stuff
  split
  · exact h.cons (by decide)
  · exact h

/-- The reply with a status line and stuffed lines. -/
theorem framed_reply (hstatus : NoBreak status) (hne : status ≠ ['.'])
    (h : ∀ line ∈ lines, NoBreak line) :
    Framed (joined (status :: lines.map stuff ++ [['.']])) := by
  refine ⟨status :: lines.map stuff, ?_, rfl⟩
  intro line hline
  rcases List.mem_cons.1 hline with rfl | hline
  · exact ⟨hstatus, hne⟩
  · obtain ⟨l, hl, rfl⟩ := List.mem_map.1 hline
    exact ⟨(h l hl).stuff, stuff_ne_dot l⟩

/-- A client reads the lines that were stuffed. -/
theorem replyLines_reply (hstatus : NoBreak status) (h : ∀ line ∈ lines, NoBreak line) :
    replyLines (joined (status :: lines.map stuff ++ [['.']])) = lines := by
  have hbreak : ∀ line ∈ status :: lines.map stuff ++ [['.']], NoBreak line := by
    intro line hline
    simp only [List.cons_append, List.mem_cons, List.mem_append, List.mem_map, List.not_mem_nil,
      or_false] at hline
    rcases hline with rfl | ⟨l, hl, rfl⟩ | rfl
    · exact hstatus
    · exact (h l hl).stuff
    · decide
  have hdots : ∀ line ∈ lines.map stuff, decide (line ≠ ['.']) = true := by
    intro line hline
    obtain ⟨l, _, rfl⟩ := List.mem_map.1 hline
    exact decide_eq_true (stuff_ne_dot l)
  have hsame : unstuff ∘ stuff = id := funext unstuff_stuff
  rw [replyLines, crlfLines_joined hbreak, List.cons_append, List.drop_succ_cons, List.drop_zero,
    List.takeWhile_append_of_pos hdots, List.takeWhile_cons_of_neg (by decide), List.append_nil,
    List.map_map, hsame, List.map_id]

end Replies

end AsterBridge.Lib.Lines
