import AsterBridge.Lib.Pieces
import AsterBridge.Smtp.Transactions

/-!
# Where a message ends

`read_line_bytes` of `smtp/server.rs` takes a line from the fills of the read buffer. After
354 two loops decide where the message ends: the session's own loop while the message fits,
and the loop that skips the rest of an oversize message. The first compares a line without
every trailing CR and LF with a dot, the second a line without one LF and one CR.
-/

set_option autoImplicit false

namespace AsterBridge.Smtp

open AsterBridge.Lib.Pieces

/-! ## Reading a line -/

/-- The bytes that a connection has still to read, as the fills of its buffer. -/
abbrev Stream := List (Piece UInt8)

/-- `read_line_bytes` after the bytes `out`: the line, and what is still to read. The read
is an error if the line is longer than `cap`. -/
def readLineBytes (cap : ℕ) : Stream → Bytes → Bytes × Stream
  | [], out => (out, [])
  | avail :: later, out =>
      let (sliceEnd, done) := match avail.val.findIdx? (· == 10) with
        | some i => (i + 1, true)
        | none => (avail.val.length, false)
      let takeN := min sliceEnd (cap - out.length + 1)
      let out := out ++ avail.val.take takeN
      if cap < out.length ∨ done = true then (out, unread (avail.val.drop takeN) later)
      -- neither: the whole fill was taken
      else readLineBytes cap later out

/-- The next line of a stream, with its LF. -/
abbrev nextLine (s : Stream) : Bytes := firstLine 10 (whole s)

/-- A line within the cap is read as it is, whatever the fills are. -/
theorem readLineBytes_of_le {cap : ℕ} {s : Stream} {out : Bytes}
    (h : out.length + (nextLine s).length ≤ cap) :
    (readLineBytes cap s out).1 = out ++ nextLine s ∧
      whole (readLineBytes cap s out).2 = (whole s).drop (nextLine s).length := by
  induction s generalizing out with
  | nil => exact ⟨(List.append_nil out).symm, rfl⟩
  | cons avail later ih =>
      unfold nextLine at h ⊢
      rw [whole_cons] at h ⊢
      rw [readLineBytes]
      cases hfind : avail.val.findIdx? (· == 10) with
      | some i =>
          obtain ⟨hmem, hlen⟩ := take_of_findIdx? hfind
          rw [firstLine_append_of_mem hmem] at h ⊢
          have hmin : min (i + 1) (cap - out.length + 1) = (firstLine 10 avail.val).length := by
            omega
          simp only [hmin, or_true, if_true, whole_unread, take_firstLine, List.drop_append,
            Nat.sub_eq_zero_of_le (length_firstLine_le 10 avail.val), List.drop_zero, and_self]
      | none =>
          have hnot := notMem_of_findIdx? hfind
          rw [firstLine_append_of_notMem hnot] at h ⊢
          rw [List.length_append] at h ⊢
          have hmin : min avail.val.length (cap - out.length + 1) = avail.val.length := by omega
          have hle : ¬(cap < (out ++ avail.val).length ∨ false = true) := by
            rw [List.length_append]
            simp only [Bool.false_eq_true, or_false]
            omega
          simp only [hmin, List.take_length, if_neg hle]
          have hcap : (out ++ avail.val).length + (nextLine later).length ≤ cap := by
            rw [List.length_append, Nat.add_assoc]
            exact h
          obtain ⟨hline, hrest⟩ := ih hcap
          refine ⟨by rw [hline, List.append_assoc], ?_⟩
          rw [hrest, ← List.drop_drop, List.drop_left]

/-- A line over the cap is an error of the read. -/
theorem lt_readLineBytes {cap : ℕ} {s : Stream} {out : Bytes} (hout : out.length ≤ cap)
    (h : cap < out.length + (nextLine s).length) : cap < (readLineBytes cap s out).1.length := by
  induction s generalizing out with
  | nil => exact absurd h (by simpa [nextLine, firstLine] using hout)
  | cons avail later ih =>
      unfold nextLine at h
      rw [whole_cons] at h
      rw [readLineBytes]
      cases hfind : avail.val.findIdx? (· == 10) with
      | some i =>
          obtain ⟨hmem, hlen⟩ := take_of_findIdx? hfind
          rw [firstLine_append_of_mem hmem] at h
          have hle := length_firstLine_le 10 avail.val
          simp only [or_true, if_true, List.length_append, List.length_take]
          omega
      | none =>
          have hnot := notMem_of_findIdx? hfind
          rw [firstLine_append_of_notMem hnot, List.length_append] at h
          dsimp only
          split
          case isTrue hlong => exact hlong.resolve_right Bool.false_ne_true
          case isFalse hshort =>
            simp only [List.length_append, List.length_take, Bool.false_eq_true, or_false,
              not_lt] at hshort
            refine ih (by simpa using hshort) ?_
            simp only [List.length_append, List.length_take]
            unfold nextLine
            omega

/-! ## The session on its stream -/

/-- A read of the session from its stream, with the answers it gets. -/
def Traced.receive (x : Crates) (t : Traced) (s : Stream) (a : Answers) : Traced × Stream :=
  let read := readLineBytes t.conn.readCap s []
  (t.step x (.read read.1 a), read.2)

/-- One read for each of the answers. -/
def Traced.receives (x : Crates) (t : Traced) (s : Stream) (answers : List Answers) :
    Traced × Stream :=
  answers.foldl (fun p a => p.1.receive x p.2 a) (t, s)

theorem Traced.receives_cons (x : Crates) (t : Traced) (s : Stream) (a : Answers)
    (answers : List Answers) :
    t.receives x s (a :: answers) =
      (t.receive x s a).1.receives x (t.receive x s a).2 answers := rfl

/-- A session between 354 and the end of the message, in one of the two loops. -/
structure Conn.InMessage (c : Conn) : Prop where
  state : c.smtp.state = .data
  phase : c.phase = .command ∨ c.phase = .draining

/-- A session after a message, in the loop that reads commands. -/
structure Conn.AfterMessage (c : Conn) : Prop where
  state : c.smtp.state = .authenticated
  phase : c.phase = .command

theorem Conn.InMessage.not_after {c : Conn} (h : c.InMessage) : ¬c.AfterMessage := by
  intro hafter
  exact absurd (h.state.symm.trans hafter.state) (by decide)

section Reads

variable {x : Crates} {t : Traced} {s : Stream} {a : Answers}

theorem Conn.InMessage.readCap {c : Conn} (h : c.InMessage) : c.readCap = maxDataLineLength := by
  rw [Conn.readCap, if_pos h.state]

theorem Conn.InMessage.not_closed {c : Conn} (h : c.InMessage) : c.phase ≠ .closed := by
  rcases h.phase with hphase | hphase <;> rw [hphase] <;> decide

/-- A line within the cap reaches the loop of the session. -/
theorem Conn.InMessage.receive_line (h : t.conn.InMessage) (hs : whole s ≠ [])
    (hcap : (nextLine s).length ≤ maxDataLineLength) :
    (t.receive x s a).1 = ⟨(t.conn.handleLine x a (nextLine s)).1, t.transcript ++
        .received (nextLine s) :: (t.conn.handleLine x a (nextLine s)).2⟩ ∧
      whole (t.receive x s a).2 = (whole s).drop (nextLine s).length := by
  have hread := @readLineBytes_of_le maxDataLineLength s [] (by simpa using hcap)
  rw [Traced.receive, h.readCap]
  refine ⟨?_, hread.2⟩
  dsimp only
  rw [hread.1, List.nil_append, Traced.step, Conn.step, if_neg h.not_closed, h.readCap,
    if_neg hcap.not_gt, if_neg (firstLine_ne_nil hs)]

/-- A line over the cap ends the connection. -/
theorem Conn.InMessage.receive_long (h : t.conn.InMessage)
    (hcap : maxDataLineLength < (nextLine s).length) :
    (t.receive x s a).1.conn.phase = .closed := by
  have hread := @lt_readLineBytes maxDataLineLength s [] (Nat.zero_le _) (by simpa using hcap)
  rw [Traced.receive, h.readCap]
  dsimp only
  rw [Traced.step, Conn.step, if_neg h.not_closed, h.readCap, if_pos hread]
  rcases h.phase with hphase | hphase
  · rw [if_pos hphase]
    rfl
  · rw [if_neg (by rw [hphase]; decide), Conn.readFailed, hphase]
    rfl

end Reads

/-! ## A message that fits -/

/-- A line as a client sends it, without the line end. -/
def stuffed (line : Bytes) : Bytes := if line.head? = some 46 then 46 :: line else line

/-- The lines of a message as a client sends them. -/
def sentLines (lines : List Bytes) : Bytes := lines.flatMap (stuffed · ++ [13, 10])

/-- The lines of a message, each with CRLF. -/
def messageText (lines : List Bytes) : Bytes := lines.flatMap (· ++ [13, 10])

/-- A line without CR or LF. -/
def Unbroken (line : Bytes) : Prop := 13 ∉ line ∧ 10 ∉ line

section Message

variable {line : Bytes}

theorem Unbroken.stuffed (h : Unbroken line) : Unbroken (stuffed line) := by
  unfold Smtp.stuffed
  split
  case isTrue =>
    constructor
    · exact fun hmem => h.1 ((List.mem_cons.1 hmem).resolve_left (by decide))
    · exact fun hmem => h.2 ((List.mem_cons.1 hmem).resolve_left (by decide))
  case isFalse => exact h

theorem stuffed_ne_dot (line : Bytes) : stuffed line ≠ [46] := by
  unfold stuffed
  split
  case isTrue hdot =>
    intro h
    rw [(List.cons.inj h).2] at hdot
    exact absurd hdot (by decide)
  case isFalse hdot =>
    rintro rfl
    exact hdot rfl

theorem stripLineEnd_crlf (h : Unbroken line) : stripLineEnd (line ++ [13, 10]) = line := by
  have hsplit : line ++ [13, 10] = line ++ [13] ++ [10] := by simp
  have hkeep : ∀ hl : line ≠ [], ¬(line.getLast hl == 13 || line.getLast hl == 10) = true := by
    intro hl hlast
    rcases Bool.or_eq_true_iff.1 hlast with h13 | h10
    · exact h.1 (beq_iff_eq.1 h13 ▸ List.getLast_mem hl)
    · exact h.2 (beq_iff_eq.1 h10 ▸ List.getLast_mem hl)
  rw [stripLineEnd, hsplit, List.rdropWhile_concat_pos _ _ _ (by decide),
    List.rdropWhile_concat_pos _ _ _ (by decide), List.rdropWhile_eq_self_iff.2 hkeep]

/-- The reader takes off the dot that the client put on. -/
theorem dataLine_stuffed (h : Unbroken line) :
    dataLine (stuffed line ++ [13, 10]) = line ++ [13, 10] := by
  rw [dataLine, stripLineEnd_crlf h.stuffed, stuffed]
  by_cases hdot : line.head? = some 46
  · rw [if_pos hdot]
    rfl
  · rw [if_neg hdot]
    split
    case h_1 rest => exact absurd rfl hdot
    case h_2 => rfl

theorem nextLine_of_crlf {s : Stream} {rest : Bytes} (h : Unbroken line)
    (hs : whole s = line ++ [13, 10] ++ rest) :
    nextLine s = line ++ [13, 10] ∧ (whole s).drop (nextLine s).length = rest := by
  have hline : nextLine s = line ++ [13, 10] := by
    have hnot : (10 : UInt8) ∉ line ++ [13] := by
      intro hmem
      rcases List.mem_append.1 hmem with hmem | hmem
      · exact h.2 hmem
      · exact absurd hmem (by decide)
    have hsplit : line ++ [13, 10] ++ rest = (line ++ [13]) ++ 10 :: rest := by simp
    rw [nextLine, hs, hsplit, firstLine_append_of_notMem hnot, firstLine_sep, List.append_assoc]
    rfl
  rw [hline, hs, List.drop_left]
  exact ⟨rfl, rfl⟩

/-- The session in its own loop, with what the message has so far. -/
structure Conn.Collects (c : Conn) (buffer : Bytes) : Prop where
  state : c.smtp.state = .data
  phase : c.phase = .command
  buffer : c.smtp.dataBuffer = buffer

theorem Conn.Collects.inMessage {c : Conn} {buffer : Bytes} (h : c.Collects buffer) :
    c.InMessage :=
  ⟨h.state, .inl h.phase⟩

/-- `t` after the lines of a message that it has read. -/
def Traced.collected (t : Traced) (lines : List Bytes) : Traced :=
  ⟨{ t.conn with smtp := { t.conn.smtp with
      dataBuffer := t.conn.smtp.dataBuffer ++ messageText lines } },
    t.transcript ++ lines.map fun line => .received (stuffed line ++ [13, 10])⟩

theorem Traced.collected_nil (t : Traced) : t.collected [] = t := by
  rw [Traced.collected, messageText, List.flatMap_nil, List.append_nil, List.map_nil,
    List.append_nil]

theorem Traced.collected_cons (t : Traced) (line : Bytes) (lines : List Bytes) :
    (t.collected [line]).collected lines = t.collected (line :: lines) := by
  simp only [Traced.collected, messageText, List.flatMap_cons, List.flatMap_nil, List.append_nil,
    List.map_cons, List.map_nil, List.append_assoc, List.cons_append, List.nil_append]

theorem Conn.Collects.collected {t : Traced} {buffer : Bytes} (h : t.conn.Collects buffer)
    (lines : List Bytes) : (t.collected lines).conn.Collects (buffer ++ messageText lines) :=
  ⟨h.state, h.phase, by rw [← h.buffer]; rfl⟩

variable {x : Crates} {t : Traced} {s : Stream} {buffer rest : Bytes} {lines : List Bytes}
  {answers : List Answers} {a : Answers}

/-- A line of a message that fits is added to the message. -/
theorem Conn.Collects.receive_stuffed (h : t.conn.Collects buffer) (hline : Unbroken line)
    (hcap : (stuffed line ++ [13, 10]).length ≤ maxDataLineLength)
    (hfits : buffer.length + (line ++ [13, 10]).length ≤ maxDataSize)
    (hs : whole s = stuffed line ++ [13, 10] ++ rest) :
    (t.receive x s a).1 = t.collected [line] ∧ whole (t.receive x s a).2 = rest := by
  obtain ⟨hnext, hdrop⟩ := nextLine_of_crlf hline.stuffed hs
  have hne : whole s ≠ [] := by
    rw [hs]
    simp
  obtain ⟨hconn, hrest⟩ := h.inMessage.receive_line (x := x) (a := a) hne (hnext ▸ hcap)
  refine ⟨?_, hrest.trans hdrop⟩
  rw [hconn, hnext, Conn.handleLine, h.phase]
  dsimp only
  rw [if_pos h.state, Conn.inData, stripLineEnd_crlf hline.stuffed, if_neg (stuffed_ne_dot line),
    dataLine_stuffed hline, if_neg (by rw [h.buffer]; exact hfits.not_gt), Traced.collected,
    messageText, List.flatMap_cons, List.flatMap_nil, List.append_nil]
  rfl

/-- The lines of a message that fits are collected. -/
theorem Conn.Collects.receives_sent (h : t.conn.Collects buffer)
    (hlines : ∀ line ∈ lines, Unbroken line ∧ (stuffed line).length ≤ 999998)
    (hfits : buffer.length + (messageText lines).length ≤ maxDataSize)
    (hs : whole s = sentLines lines ++ rest) (hlen : answers.length = lines.length) :
    (t.receives x s answers).1 = t.collected lines ∧
      whole (t.receives x s answers).2 = rest := by
  induction lines generalizing t s answers buffer with
  | nil =>
      obtain rfl := List.length_eq_zero_iff.1 hlen
      exact ⟨t.collected_nil.symm, hs⟩
  | cons line lines ih =>
      obtain ⟨a, answers, rfl⟩ := List.exists_cons_of_length_eq_add_one hlen
      obtain ⟨hline, hlong⟩ := hlines line List.mem_cons_self
      have hcap : (stuffed line ++ [13, 10]).length ≤ maxDataLineLength := by
        rw [List.length_append]
        exact Nat.add_le_add_right hlong 2
      rw [messageText, List.flatMap_cons, List.length_append, ← messageText] at hfits
      rw [sentLines, List.flatMap_cons, ← sentLines, List.append_assoc] at hs
      obtain ⟨ht, hrest⟩ := h.receive_stuffed (x := x) (a := a) hline hcap (by omega) hs
      have hcollects := h.collected (t := t) [line]
      rw [← ht] at hcollects
      have hsum : (buffer ++ messageText [line]).length + (messageText lines).length ≤
          maxDataSize := by
        rw [messageText, List.flatMap_cons, List.flatMap_nil, List.append_nil, List.length_append]
        omega
      have hread := ih hcollects (fun l hl => hlines l (List.mem_cons_of_mem _ hl)) hsum hrest
        (Nat.succ.inj hlen)
      rw [Traced.receives_cons]
      rw [ht, Traced.collected_cons] at hread
      rwa [ht]

/-- The line that is a dot ends the message. -/
theorem Conn.Collects.receive_dot (h : t.conn.Collects buffer)
    (hs : whole s = [46, 13, 10] ++ rest) :
    (t.receive x s a).1 = ⟨(t.conn.endOfData x a).1, t.transcript ++
        .received [46, 13, 10] :: (t.conn.endOfData x a).2⟩ ∧
      whole (t.receive x s a).2 = rest := by
  have hdot : Unbroken [46] := by
    constructor <;> decide
  obtain ⟨hnext, hdrop⟩ := @nextLine_of_crlf [46] s rest hdot hs
  have hne : whole s ≠ [] := by
    rw [hs]
    simp
  have hcap : (nextLine s).length ≤ maxDataLineLength := by
    rw [hnext]
    decide
  obtain ⟨hconn, hrest⟩ := h.inMessage.receive_line (x := x) (a := a) hne hcap
  refine ⟨?_, hrest.trans hdrop⟩
  rw [hconn, hnext, Conn.handleLine, h.phase]
  dsimp only
  rw [if_pos h.state, Conn.inData, stripLineEnd_crlf hdot, if_pos rfl]
  rfl

end Message

/-! ## The two loops -/

/-- The session's own loop takes a line for the end of the message. -/
def EndsMessage (line : Bytes) : Prop := stripLineEnd line = [46]

/-- The loop that skips an oversize message takes a line for its end. -/
def EndsDrain (line : Bytes) : Prop := Conn.stripSuffix 13 (Conn.stripSuffix 10 line) = [46]

instance (line : Bytes) : Decidable (EndsMessage line) := inferInstanceAs (Decidable (_ = _))

instance (line : Bytes) : Decidable (EndsDrain line) := inferInstanceAs (Decidable (_ = _))

/-- A line that is a dot and two or more CRs before its end. -/
def DotReturns (line : Bytes) : Prop :=
  ∃ k, line = 46 :: 13 :: 13 :: List.replicate k 13 ∨
    line = 46 :: 13 :: 13 :: List.replicate k 13 ++ [10]

section EndLines

variable {line : Bytes}

/-- Taking off every CR and LF leaves a dot of a dot with CRs only. -/
theorem stripLineEnd_eq_dot_iff (h : 10 ∉ line) :
    stripLineEnd line = [46] ↔ ∃ k, line = 46 :: List.replicate k 13 := by
  constructor
  · intro hstrip
    let p : UInt8 → Bool := fun b => b == 13 || b == 10
    have hsplit := congrArg List.reverse
      (@List.takeWhile_append_dropWhile UInt8 p line.reverse)
    rw [List.reverse_append, List.reverse_reverse] at hsplit
    have hline : line = [46] ++ (line.reverse.takeWhile p).reverse := by
      rw [← hstrip]
      exact hsplit.symm
    refine ⟨(line.reverse.takeWhile p).reverse.length, ?_⟩
    have hall : ∀ b ∈ (line.reverse.takeWhile p).reverse, b = 13 := by
      intro b hb
      have hp := List.mem_takeWhile_imp (List.mem_reverse.1 hb)
      rcases Bool.or_eq_true_iff.1 hp with h13 | h10
      · exact beq_iff_eq.1 h13
      · rw [hline] at h
        exact absurd (List.mem_append_right _ (beq_iff_eq.1 h10 ▸ hb)) h
    rw [← List.eq_replicate_length.2 hall]
    exact hline
  · rintro ⟨k, rfl⟩
    induction k with
    | zero => rfl
    | succ k ih =>
        have hnot : 10 ∉ 46 :: List.replicate k (13 : UInt8) := by
          intro hmem
          rcases List.mem_cons.1 hmem with h10 | hmem
          · exact absurd h10 (by decide)
          · exact absurd (List.eq_of_mem_replicate hmem) (by decide)
        rw [List.replicate_succ', ← List.cons_append, stripLineEnd,
          List.rdropWhile_concat_pos _ _ _ (by decide)]
        exact ih hnot

/-- Taking off one LF and one CR leaves a dot of a dot with one CR at most. -/
theorem endsDrain_iff (h : 10 ∉ line) :
    Conn.stripSuffix 13 line = [46] ↔ line = [46] ∨ line = [46, 13] := by
  unfold Conn.stripSuffix
  split
  case isTrue hlast =>
    have hline := List.dropLast_append_getLast? 13 hlast
    constructor
    · intro hdot
      rw [hdot] at hline
      exact .inr hline.symm
    · rintro (rfl | rfl)
      · exact absurd hlast (by decide)
      · rfl
  case isFalse hlast =>
    constructor
    · exact .inl
    · rintro (rfl | rfl)
      · rfl
      · exact absurd rfl hlast

theorem stripSuffix_of_notMem (h : 10 ∉ line) : Conn.stripSuffix 10 line = line := by
  rw [Conn.stripSuffix, if_neg]
  exact fun hlast => h (List.mem_of_getLast? hlast)

theorem stripSuffix_concat (line : Bytes) : Conn.stripSuffix 10 (line ++ [10]) = line := by
  rw [Conn.stripSuffix, if_pos (List.getLast?_concat ..), List.dropLast_concat]

/-- A line that is not a dot with two CRs ends the message for both loops or for none. -/
theorem endsDrain_iff_endsMessage {s : Stream} (h : ¬DotReturns (nextLine s)) :
    EndsDrain (nextLine s) ↔ EndsMessage (nextLine s) := by
  obtain ⟨line, hmem, hline⟩ := shape_firstLine (10 : UInt8) (whole s)
  have hboth : (EndsMessage (nextLine s) ↔ ∃ k, line = 46 :: List.replicate k 13) ∧
      (EndsDrain (nextLine s) ↔ line = [46] ∨ line = [46, 13]) := by
    unfold nextLine EndsMessage EndsDrain
    rcases hline with hline | hline
    · rw [hline, stripSuffix_of_notMem hmem]
      exact ⟨stripLineEnd_eq_dot_iff hmem, endsDrain_iff hmem⟩
    · rw [hline, stripSuffix_concat, stripLineEnd, List.rdropWhile_concat_pos _ _ _ (by decide)]
      exact ⟨stripLineEnd_eq_dot_iff hmem, endsDrain_iff hmem⟩
  rw [hboth.1, hboth.2]
  constructor
  · rintro (rfl | rfl)
    · exact ⟨0, rfl⟩
    · exact ⟨1, rfl⟩
  · rintro ⟨k, rfl⟩
    match k with
    | 0 => exact .inl rfl
    | 1 => exact .inr rfl
    | k + 2 => exact absurd ⟨k, hline⟩ h

end EndLines

/-- The message that a session reads ends at the line with the number `n` of its stream. -/
def EndsAt (x : Crates) (answers : ℕ → Answers) : ℕ → Traced → Stream → Prop
  | 0, t, s => whole s ≠ [] ∧ (t.receive x s (answers 0)).1.conn.AfterMessage
  | n + 1, t, s => (t.receive x s (answers 0)).1.conn.InMessage ∧
      EndsAt x (fun k => answers (k + 1)) n (t.receive x s (answers 0)).1
        (t.receive x s (answers 0)).2

/-- The line with the number `n` is the first that is a dot, and no line up to it is over the
cap. -/
def EndLine (n : ℕ) (lines : List Bytes) : Prop :=
  ∃ line, lines[n]? = some line ∧ EndsMessage line ∧ line.length ≤ maxDataLineLength ∧
    ∀ l ∈ lines.take n, ¬EndsMessage l ∧ l.length ≤ maxDataLineLength

section Loops

variable {x : Crates} {t : Traced} {s : Stream} {a : Answers}

/-- A line in either loop: the message goes on exactly where the line is not its end. -/
theorem Conn.InMessage.receive_within (h : t.conn.InMessage) (hs : whole s ≠ [])
    (hcap : (nextLine s).length ≤ maxDataLineLength) (hdot : ¬DotReturns (nextLine s)) :
    (EndsMessage (nextLine s) → (t.receive x s a).1.conn.AfterMessage) ∧
      (¬EndsMessage (nextLine s) → (t.receive x s a).1.conn.InMessage) := by
  have hsame := endsDrain_iff_endsMessage hdot
  rw [(h.receive_line hs hcap).1]
  unfold EndsDrain EndsMessage at hsame
  unfold EndsMessage
  dsimp only
  rcases h.phase with hphase | hphase
  · rw [Conn.handleLine, hphase]
    dsimp only
    rw [if_pos h.state, Conn.inData]
    constructor
    · intro hends
      rw [if_pos hends, Conn.endOfData]
      split <;> exact ⟨rfl, hphase⟩
    · intro hgoes
      rw [if_neg hgoes]
      split
      · exact ⟨h.state, .inr rfl⟩
      · exact ⟨h.state, .inl hphase⟩
  · rw [Conn.handleLine, hphase]
    dsimp only
    rw [Conn.inDrain]
    constructor
    · intro hends
      rw [if_pos (.inr (hsame.2 hends))]
      exact ⟨rfl, rfl⟩
    · intro hgoes
      rw [if_neg (not_or.2 ⟨firstLine_ne_nil hs, mt hsame.1 hgoes⟩)]
      exact h

/-- A read that ends a message, or leaves the session in it, got a line within the cap. -/
theorem Conn.InMessage.within_of_receive (h : t.conn.InMessage)
    (hopen : (t.receive x s a).1.conn.phase ≠ .closed) :
    (nextLine s).length ≤ maxDataLineLength := by
  by_contra hcap
  exact hopen (h.receive_long (not_le.1 hcap))

/-- At the end of the stream no session stays in a message. -/
theorem Conn.InMessage.receive_over (h : t.conn.InMessage) (hs : whole s = []) :
    ¬(t.receive x s a).1.conn.InMessage := by
  have hline : nextLine s = [] := by rw [nextLine, hs, firstLine]
  have hread := @readLineBytes_of_le maxDataLineLength s [] (by rw [hline]; exact Nat.zero_le _)
  rw [hline, List.append_nil] at hread
  intro hin
  rw [Traced.receive, h.readCap] at hin
  dsimp only at hin
  rw [hread.1, Traced.step, Conn.step, if_neg h.not_closed, h.readCap, List.length_nil,
    if_neg (Nat.not_lt_zero _), if_pos rfl] at hin
  rcases h.phase with hphase | hphase
  · rw [if_neg (by rw [hphase]; decide)] at hin
    exact hin.not_closed rfl
  · rw [if_pos hphase, Conn.inDrain, if_pos (.inl rfl)] at hin
    exact hin.not_after ⟨rfl, rfl⟩

/-- **Both loops end a message at the same line**: the first that is a dot. -/
theorem Conn.InMessage.endsAt_iff {n : ℕ} {answers : ℕ → Answers} (h : t.conn.InMessage)
    (hdots : ∀ line ∈ linesOf 10 (whole s), ¬DotReturns line) :
    EndsAt x answers n t s ↔ EndLine n (linesOf 10 (whole s)) := by
  induction n generalizing t s answers with
  | zero =>
      by_cases hs : whole s = []
      · rw [EndsAt, hs]
        exact iff_of_false (fun hends => hends.1 rfl) fun ⟨_, hline, _⟩ => nomatch hline
      · rw [linesOf_eq hs] at hdots ⊢
        have hdot := hdots _ List.mem_cons_self
        constructor
        · rintro ⟨-, hafter⟩
          have hcap := h.within_of_receive (by rw [hafter.phase]; decide)
          refine ⟨_, rfl, ?_, hcap, fun l hl => absurd hl List.not_mem_nil⟩
          by_contra hgoes
          exact ((h.receive_within hs hcap hdot).2 hgoes).not_after hafter
        · rintro ⟨line, hline, hends, hcap, -⟩
          obtain rfl := Option.some.inj hline
          exact ⟨hs, (h.receive_within hs hcap hdot).1 hends⟩
  | succ n ih =>
      by_cases hs : whole s = []
      · rw [EndsAt, hs]
        exact iff_of_false (fun hends => h.receive_over hs hends.1)
          fun ⟨_, hline, _⟩ => nomatch hline
      · have hlines := @linesOf_eq UInt8 _ 10 _ hs
        have hdot := hdots (nextLine s) (hlines ▸ List.mem_cons_self)
        have hlater : (nextLine s).length ≤ maxDataLineLength →
            linesOf 10 (whole (t.receive x s (answers 0)).2) =
              linesOf 10 ((whole s).drop (nextLine s).length) :=
          fun hcap => congrArg _ (h.receive_line hs hcap).2
        constructor
        · rintro ⟨hin, hends⟩
          have hcap := h.within_of_receive hin.not_closed
          have hgoes : ¬EndsMessage (nextLine s) :=
            fun hends => hin.not_after ((h.receive_within hs hcap hdot).1 hends)
          rw [ih hin, hlater hcap] at hends
          · obtain ⟨line, hline, hline', hlen, hall⟩ := hends
            rw [hlines]
            refine ⟨line, hline, hline', hlen, ?_⟩
            rw [List.take_succ_cons]
            exact List.forall_mem_cons.2 ⟨⟨hgoes, hcap⟩, hall⟩
          · rw [hlater hcap]
            exact fun l hl => hdots l (hlines ▸ List.mem_cons_of_mem _ hl)
        · rw [hlines]
          rintro ⟨line, hline, hline', hlen, hall⟩
          rw [List.take_succ_cons] at hall
          obtain ⟨⟨hgoes, hcap⟩, hall⟩ := List.forall_mem_cons.1 hall
          have hin := (h.receive_within (x := x) (a := answers 0) hs hcap hdot).2 hgoes
          refine ⟨hin, (ih hin ?_).2 ?_⟩
          · rw [hlater hcap]
            exact fun l hl => hdots l (hlines ▸ List.mem_cons_of_mem _ hl)
          · rw [hlater hcap]
            exact ⟨line, hline, hline', hlen, hall⟩

end Loops

/-! ## Framing -/

/-- **DATA is framed**: a message that fits, with no line over 999998 bytes as it is sent, is
collected line by line and its bytes are the bytes read; and on a stream without a line that
is a dot and two CRs, both loops end the message at the same line. -/
theorem data_is_framed (x : Crates) :
    (∀ (t : Traced) (s : Stream) (lines : List Bytes) (rest : Bytes) (answers : List Answers)
        (a : Answers),
      t.conn.Collects [] → (∀ line ∈ lines, Unbroken line ∧ (stuffed line).length ≤ 999998) →
      (messageText lines).length ≤ maxDataSize →
      whole s = sentLines lines ++ [46, 13, 10] ++ rest → answers.length = lines.length →
      let read := t.receives x s answers
      let done := read.1.receive x read.2 a
      read.1.conn.Collects (messageText lines) ∧ whole read.2 = [46, 13, 10] ++ rest ∧
        done.1.conn = (read.1.conn.endOfData x a).1 ∧
        done.1.transcript = read.1.transcript ++
          .received [46, 13, 10] :: (read.1.conn.endOfData x a).2 ∧
        whole done.2 = rest) ∧
    (∀ (t t' : Traced) (s : Stream) (n : ℕ) (answers answers' : ℕ → Answers),
      t.conn.InMessage → t'.conn.InMessage →
      (∀ line ∈ linesOf 10 (whole s), ¬DotReturns line) →
      (EndsAt x answers n t s ↔ EndsAt x answers' n t' s)) := by
  constructor
  · intro t s lines rest answers a h hlines hfits hs hlen read done
    have hsum : ([] : Bytes).length + (messageText lines).length ≤ maxDataSize := by
      rwa [List.length_nil, Nat.zero_add]
    rw [List.append_assoc] at hs
    obtain ⟨hread, hrest⟩ := h.receives_sent (x := x) hlines hsum hs hlen
    have hcollects : read.1.conn.Collects (messageText lines) := by
      have hall := h.collected (t := t) lines
      rwa [← hread, List.nil_append] at hall
    obtain ⟨hdone, hleft⟩ := hcollects.receive_dot (x := x) (a := a) hrest
    refine ⟨hcollects, hrest, ?_, ?_, hleft⟩
    · exact congrArg Traced.conn hdone
    · exact congrArg Traced.transcript hdone
  · intro t t' s n answers answers' h h' hdots
    rw [h.endsAt_iff hdots, h'.endsAt_iff hdots]

/-- A session of `oneAccount` after 354, in one of the two loops. -/
def reading (phase : Phase) : Traced :=
  ⟨⟨false, ⟨.data, true, some "a@b.c", ["d@e.f"], []⟩, 0, false, phase⟩, []⟩

theorem reading_collects : (reading .command).conn.Collects [] := ⟨rfl, rfl, rfl⟩

/-- One line `.` in one fill, and a command after it. -/
def dotStream : Stream := [⟨[46, 13, 10, 81, 13, 10], List.cons_ne_nil _ _⟩]

/-- The message `a`, and the end of the message for both loops. -/
theorem one_line_is_framed :
    whole (((reading .command).receives plainCrates
        [⟨[97, 13, 10, 46, 13, 10, 81], List.cons_ne_nil _ _⟩] [oneAccount]).1.receive plainCrates
      ((reading .command).receives plainCrates
        [⟨[97, 13, 10, 46, 13, 10, 81], List.cons_ne_nil _ _⟩] [oneAccount]).2 oneAccount).2 =
      [81] ∧
    (EndsAt plainCrates (fun _ => oneAccount) 0 (reading .command) dotStream ↔
      EndsAt plainCrates (fun _ => oneAccount) 0 (reading .draining) dotStream) := by
  have hlines : ∀ line ∈ [[97]], Unbroken line ∧ (stuffed line).length ≤ 999998 := by
    intro line hline
    obtain rfl := List.mem_singleton.1 hline
    exact ⟨⟨by decide, by decide⟩, by decide⟩
  have hdots : ∀ line ∈ linesOf 10 (whole dotStream), ¬DotReturns line := by
    intro line hline
    rw [(by decide : linesOf 10 (whole dotStream) = [[46, 13, 10], [81, 13, 10]])] at hline
    rintro ⟨k, rfl | rfl⟩ <;> simp at hline
  exact ⟨((data_is_framed plainCrates).1 (reading .command) _ [[97]] [81] [oneAccount] oneAccount
      reading_collects hlines (by decide) rfl rfl).2.2.2.2,
    (data_is_framed plainCrates).2 (reading .command) (reading .draining) dotStream 0 _ _
      ⟨rfl, .inl rfl⟩ ⟨rfl, .inr rfl⟩ hdots⟩

/-- A line of 999998 bytes that begins with a dot. -/
def longDotLine : Bytes := 46 :: List.replicate 999997 97

/-- A dot with two CRs, and a command after it. -/
def dotReturnsStream : Stream := [⟨[46, 13, 13, 10, 81, 13, 10], List.cons_ne_nil _ _⟩]

theorem unbroken_longDotLine : Unbroken longDotLine := by
  constructor
  · exact fun hmem => (List.mem_cons.1 hmem).elim (by decide)
      fun hmem => absurd (List.eq_of_mem_replicate hmem) (by decide)
  · exact fun hmem => (List.mem_cons.1 hmem).elim (by decide)
      fun hmem => absurd (List.eq_of_mem_replicate hmem) (by decide)

theorem length_longDotLine : longDotLine.length = 999998 := by
  rw [longDotLine, List.length_cons, List.length_replicate]

/-- A line of 999998 bytes with a dot in front is too long as it is sent, and a dot with two
CRs ends a message only while it fits. -/
theorem stuffed_line_is_too_long :
    (Unbroken longDotLine ∧ longDotLine.length ≤ 999998 ∧
      (messageText [longDotLine]).length ≤ maxDataSize ∧
      ∀ s : Stream, whole s = sentLines [longDotLine] ++ [46, 13, 10] →
        ((reading .command).receives plainCrates s [oneAccount]).1.conn.phase = .closed) ∧
    EndsAt plainCrates (fun _ => oneAccount) 0 (reading .command) dotReturnsStream ∧
    ¬EndsAt plainCrates (fun _ => oneAccount) 0 (reading .draining) dotReturnsStream := by
  refine ⟨⟨unbroken_longDotLine, length_longDotLine.le, ?_, ?_⟩, ?_, ?_⟩
  · rw [messageText, List.flatMap_cons, List.flatMap_nil, List.append_nil, List.length_append,
      length_longDotLine]
    decide
  · intro s hs
    rw [sentLines, List.flatMap_cons, List.flatMap_nil, List.append_nil] at hs
    have hnext := (nextLine_of_crlf unbroken_longDotLine.stuffed hs).1
    have hhead : longDotLine.head? = some 46 := rfl
    refine reading_collects.inMessage.receive_long ?_
    rw [hnext, stuffed, if_pos hhead, List.length_append, List.length_cons, length_longDotLine]
    decide
  · exact ⟨List.cons_ne_nil _ _, rfl, rfl⟩
  · rintro ⟨-, hafter⟩
    exact absurd hafter.phase (by decide)

end AsterBridge.Smtp
