import Mathlib.Tactic.Common

/-!
# Programs whose operations fail

A program is a sequence of operations on a state. What the world does to each operation is a
`Turn`: the process dies before it, it returns an error, or it runs. An error can be caught, the
death of the process cannot; the state stays as the last operation left it.

`wp p post s` says that `post` holds however `p` ends on the state `s`, and `Keeps I p` that `p`
keeps `I`, also where it fails and where it dies. Each way to put programs together has one rule.
-/

set_option autoImplicit false

namespace AsterBridge.Lib.Faults

universe u

/-- What the world does to one operation. -/
structure Turn where
  dies : Bool
  error : Option String
  /-- what the operation reads from outside, as a clock -/
  reading : Nat
  /-- a choice that is left to the operation -/
  choice : Bool
deriving DecidableEq

/-- An operation that works. -/
def Turn.calm : Turn := ⟨false, none, 0, false⟩

/-- How a program ends. -/
inductive Exit (α : Type u) where
  | done (a : α)
  | failed (error : String)
  | died

/-- The end of a program, the state it leaves and the turns it has not used. -/
structure Outcome (σ : Type u) (α : Type u) where
  exit : Exit α
  state : σ
  turns : List Turn

/-- A program; where the turns run out, its operations work. -/
def Prog (σ : Type u) (α : Type u) : Type u := σ → List Turn → Outcome σ α

namespace Prog

variable {σ α β : Type u}

instance : Monad (Prog σ) where
  pure a := fun s ts => ⟨.done a, s, ts⟩
  bind p f := fun s ts =>
    match p s ts with
    | ⟨.done a, s', ts'⟩ => f a s' ts'
    | ⟨.failed e, s', ts'⟩ => ⟨.failed e, s', ts'⟩
    | ⟨.died, s', ts'⟩ => ⟨.died, s', ts'⟩

/-- An error is returned. -/
def fail (e : String) : Prog σ α := fun s ts => ⟨.failed e, s, ts⟩

/-- The state is looked at. -/
def look (f : σ → α) : Prog σ α := fun s ts => ⟨.done (f s), s, ts⟩

/-- The state is changed without an operation, as by what is recorded of a run. -/
def modify (f : σ → σ) : Prog σ PUnit := fun s ts => ⟨.done ⟨⟩, f s, ts⟩

/-- `p`, where the condition holds. -/
def only (c : Bool) (p : Prog σ PUnit) : Prog σ PUnit := if c then p else pure ⟨⟩

/-- An error of `p` is looked at. -/
def attempt (p : Prog σ α) : Prog σ (Except String α) := fun s ts =>
  match p s ts with
  | ⟨.done a, s', ts'⟩ => ⟨.done (.ok a), s', ts'⟩
  | ⟨.failed e, s', ts'⟩ => ⟨.done (.error e), s', ts'⟩
  | ⟨.died, s', ts'⟩ => ⟨.died, s', ts'⟩

/-- One operation, which sees its turn. -/
def operation (f : Turn → σ → Except String α × σ) : Prog σ α := fun s ts =>
  if (ts.headD .calm).dies then ⟨.died, s, ts.tail⟩
  else
    match f (ts.headD .calm) s with
    | (.ok a, s') => ⟨.done a, s', ts.tail⟩
    | (.error e, s') => ⟨.failed e, s', ts.tail⟩

/-- An operation that changes nothing where it fails. -/
def atomic (f : Turn → σ → Except String (α × σ)) : Prog σ α :=
  operation fun t s =>
    match t.error with
    | some e => (.error e, s)
    | none =>
        match f t s with
        | .ok (a, s') => (.ok a, s')
        | .error e => (.error e, s)

/-- `p`, again while its error may pass and attempts are left: what it ends with, and the
attempts that are left. -/
def retry (again : String → Bool) (p : Prog σ α) : Nat → Prog σ (Except String α × Nat)
  | 0 => do
      let r ← p.attempt
      pure (r, 0)
  | attempts + 1 => do
      match ← p.attempt with
      | .ok a => pure (.ok a, attempts + 1)
      | .error e => if again e then retry again p attempts else pure (.error e, attempts + 1)

/-- A program for each element of a list. -/
def each (f : β → Prog σ PUnit) : List β → Prog σ PUnit
  | [] => pure ⟨⟩
  | b :: bs => do
      f b
      each f bs

/-! ## The weakest precondition -/

/-- However `p` ends, `post` holds. -/
def wp (p : Prog σ α) (post : Exit α → σ → Prop) (s : σ) : Prop :=
  ∀ ts, post (p s ts).exit (p s ts).state

variable {p : Prog σ α} {f : α → Prog σ β} {post post' : Exit α → σ → Prop} {s : σ}

theorem wp_mono (h : wp p post s) (hpost : ∀ r s', post r s' → post' r s') : wp p post' s := by
  intro ts
  apply hpost
  exact h ts

theorem wp_pure {a : α} (h : post (.done a) s) : wp (pure a : Prog σ α) post s := by
  intro ts
  exact h

theorem wp_fail {e : String} (h : post (.failed e) s) : wp (fail e : Prog σ α) post s := by
  intro ts
  exact h

theorem wp_look {g : σ → α} (h : post (.done (g s)) s) : wp (look g) post s := by
  intro ts
  exact h

theorem wp_modify {g : σ → σ} {goal : Exit PUnit → σ → Prop} (h : goal (.done ⟨⟩) (g s)) :
    wp (modify g) goal s := by
  intro ts
  exact h

/-- What the second program needs is what the first one ensures. -/
theorem wp_bind {goal : Exit β → σ → Prop}
    (h : wp p (fun r s' =>
      match r with
      | .done a => wp (f a) goal s'
      | .failed e => goal (.failed e) s'
      | .died => goal .died s') s) : wp (p >>= f) goal s := by
  intro ts
  have hp := h ts
  show goal (match p s ts with
    | ⟨.done a, s', ts'⟩ => f a s' ts'
    | ⟨.failed e, s', ts'⟩ => ⟨.failed e, s', ts'⟩
    | ⟨.died, s', ts'⟩ => ⟨.died, s', ts'⟩).exit _
  show goal _ (match p s ts with
    | ⟨.done a, s', ts'⟩ => f a s' ts'
    | ⟨.failed e, s', ts'⟩ => ⟨.failed e, s', ts'⟩
    | ⟨.died, s', ts'⟩ => ⟨.died, s', ts'⟩).state
  generalize p s ts = r at hp
  obtain ⟨exit, s', ts'⟩ := r
  cases exit with
  | done a => exact hp ts'
  | failed e => exact hp
  | died => exact hp

theorem wp_attempt {goal : Exit (Except String α) → σ → Prop}
    (h : wp p (fun r s' =>
      match r with
      | .done a => goal (.done (.ok a)) s'
      | .failed e => goal (.done (.error e)) s'
      | .died => goal .died s') s) : wp p.attempt goal s := by
  intro ts
  have hp := h ts
  unfold attempt
  generalize p s ts = r at hp ⊢
  obtain ⟨exit, s', ts'⟩ := r
  cases exit with
  | done a => exact hp
  | failed e => exact hp
  | died => exact hp

theorem wp_operation {g : Turn → σ → Except String α × σ} (hdied : post .died s)
    (h : ∀ t, match g t s with
      | (.ok a, s') => post (.done a) s'
      | (.error e, s') => post (.failed e) s') : wp (operation g) post s := by
  intro ts
  have ht := h (ts.headD .calm)
  unfold operation
  split
  · exact hdied
  · generalize g (ts.headD .calm) s = r at ht
    obtain ⟨result, s'⟩ := r
    cases result with
    | ok a => exact ht
    | error e => exact ht

theorem wp_atomic {g : Turn → σ → Except String (α × σ)} (hdied : post .died s)
    (hfailed : ∀ e, post (.failed e) s) (h : ∀ t a s', g t s = .ok (a, s') → post (.done a) s') :
    wp (atomic g) post s := by
  refine wp_operation hdied ?_
  intro t
  cases t.error with
  | some e => exact hfailed e
  | none =>
      dsimp only
      cases hg : g t s with
      | error e => exact hfailed e
      | ok r => exact h t r.1 r.2 hg

/-- A postcondition by how a program ends: done, failed or died. -/
def Ends (R : α → σ → Prop) (I D : σ → Prop) : Exit α → σ → Prop
  | .done a, s => R a s
  | .failed _, s => I s
  | .died, s => D s

/-- The same of `retry`, which returns the last error. -/
def Retried (R : α → σ → Prop) (I D : σ → Prop) : Exit (Except String α × Nat) → σ → Prop
  | .done (.ok a, _), s => R a s
  | .done (.error _, _), s => I s
  | .failed _, _ => False
  | .died, s => D s

/-- A failed attempt leaves what the next one starts from. -/
theorem wp_retry {again : String → Bool} {I D : σ → Prop} {R : α → σ → Prop}
    (h : ∀ s, I s → wp p (Ends R I D) s) (attempts : Nat) :
    ∀ s, I s → wp (retry again p attempts) (Retried R I D) s := by
  induction attempts with
  | zero =>
      intro s hs
      refine wp_bind (wp_attempt (wp_mono (h s hs) ?_))
      intro r s' hr
      cases r with
      | done a => exact wp_pure hr
      | failed e => exact wp_pure hr
      | died => exact hr
  | succ attempts ih =>
      intro s hs
      refine wp_bind (wp_attempt (wp_mono (h s hs) ?_))
      intro r s' hr
      cases r with
      | done a => exact wp_pure hr
      | failed e =>
          dsimp only
          split
          · exact ih s' hr
          · exact wp_pure hr
      | died => exact hr

/-! ## Invariants -/

/-- `I` holds after `p` where it held before, however `p` ends. -/
def Keeps (I : σ → Prop) (p : Prog σ α) : Prop := ∀ s, I s → wp p (fun _ => I) s

variable {I : σ → Prop}

theorem Keeps.state (h : Keeps I p) (hs : I s) (ts : List Turn) : I (p s ts).state :=
  h s hs ts

theorem keeps_pure (a : α) : Keeps I (pure a : Prog σ α) := fun _ hs => wp_pure hs

theorem keeps_fail (e : String) : Keeps I (fail e : Prog σ α) := fun _ hs => wp_fail hs

theorem keeps_look (g : σ → α) : Keeps I (look g) := fun _ hs => wp_look hs

theorem keeps_modify {g : σ → σ} (h : ∀ s, I s → I (g s)) : Keeps I (modify g) :=
  fun s hs => wp_modify (h s hs)

theorem Keeps.bind (hp : Keeps I p) (hf : ∀ a, Keeps I (f a)) : Keeps I (p >>= f) := by
  intro s hs
  refine wp_bind (wp_mono (hp s hs) ?_)
  intro r s' hs'
  cases r with
  | done a => exact hf a s' hs'
  | failed e => exact hs'
  | died => exact hs'

theorem Keeps.attempt (hp : Keeps I p) : Keeps I p.attempt := by
  intro s hs
  refine wp_attempt (wp_mono (hp s hs) ?_)
  intro r s' hs'
  cases r with
  | done a => exact hs'
  | failed e => exact hs'
  | died => exact hs'

theorem keeps_operation {g : Turn → σ → Except String α × σ} (h : ∀ t s, I s → I (g t s).2) :
    Keeps I (operation g) := by
  intro s hs
  refine wp_operation hs ?_
  intro t
  have ht := h t s hs
  generalize g t s = r at ht
  obtain ⟨result, s'⟩ := r
  cases result with
  | ok a => exact ht
  | error e => exact ht

theorem keeps_atomic {g : Turn → σ → Except String (α × σ)}
    (h : ∀ t s a s', I s → g t s = .ok (a, s') → I s') : Keeps I (atomic g) :=
  fun s hs => wp_atomic hs (fun _ => hs) fun t a s' => h t s a s' hs

/-- A loop keeps what every round of it keeps. -/
theorem keeps_each {g : β → Prog σ PUnit} {bs : List β} (h : ∀ b ∈ bs, Keeps I (g b)) :
    Keeps I (each g bs) := by
  induction bs with
  | nil => exact keeps_pure _
  | cons b bs ih =>
      refine Keeps.bind (h b List.mem_cons_self) ?_
      intro _
      exact ih fun c hc => h c (List.mem_cons_of_mem _ hc)

theorem keeps_only {c : Bool} {q : Prog σ PUnit} (hq : c = true → Keeps I q) :
    Keeps I (only c q) := by
  cases c with
  | false => exact keeps_pure _
  | true => exact hq rfl

theorem keeps_ite {c : Prop} [Decidable c] {q : Prog σ α} (hp : c → Keeps I p)
    (hq : ¬c → Keeps I q) : Keeps I (if c then p else q) := by
  split
  · rename_i hc
    exact hp hc
  · rename_i hc
    exact hq hc

end Prog

end AsterBridge.Lib.Faults
