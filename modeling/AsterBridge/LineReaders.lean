import AsterBridge.Imap.SearchLiterals
import AsterBridge.Smtp.Framing

/-!
# The bounded line readers

The IMAP, SMTP and POP3 servers each have a loop that takes a line from the fills of the read
buffer: `read_line_bounded`, `read_line_bytes` and `read_pop3_line`. The loops are the same; what
differs is the type of the line and where the cap comes from.

The servers' models read with `Smtp.readLineBytes`, whose counters have no bound. Here the sum
`cap.saturating_sub(buf.len()) + 1` is one of `usize`, and `readLoop_eq` says that the two are the
same for every cap but the largest. `readLoop_bytes` says which bytes one call takes,
`calls_readLine` what the successive calls return.
-/

set_option autoImplicit false

namespace AsterBridge.LineReaders

open AsterBridge.Lib AsterBridge.Lib.Pieces AsterBridge.Smtp

/-! ## One call -/

/-- `cap.saturating_sub(len) + 1` in 64 bits. The sum wraps in a release build; a build that checks
it stops the task instead. -/
def room (cap len : ℕ) : ℕ := (cap - len + 1) % 2 ^ 64

/-- The loop of the readers after the bytes `buf`: the bytes that it ends with and what is still to
read, or nothing if it does not end. -/
def readLoop (cap : ℕ) : Stream → Bytes → Option (Bytes × Stream)
  | [], buf => some (buf, [])
  | avail :: later, buf =>
      let (sliceEnd, done) := match avail.val.findIdx? (· == 10) with
        | some i => (i + 1, true)
        | none => (avail.val.length, false)
      let takeN := min sliceEnd (room cap buf.length)
      -- nothing is consumed: the next fill is the same, and so is the next round
      if takeN = 0 then none
      else
        let buf := buf ++ avail.val.take takeN
        if cap < buf.length ∨ done = true then some (buf, unread (avail.val.drop takeN) later)
        else readLoop cap later buf

/-- What a call of a reader leaves: its result, the line, and what is still to read. -/
structure Call (β : Type) where
  result : Except String ℕ
  line : β
  rest : Stream

/-- A call of a reader. `text` makes the line of the bytes, `left` is the line after an error. -/
def readLine {β : Type} (text left : Bytes → β) (cap : ℕ) (s : Stream) : Option (Call β) :=
  (readLoop cap s []).map fun p =>
    if cap < p.1.length then ⟨.error "line too long", left p.1, p.2⟩
    else ⟨.ok p.1.length, text p.1, p.2⟩

/-- `read_line_bytes` -/
def readLineBytes (cap : ℕ) (s : Stream) : Option (Call Bytes) := readLine id id cap s

/-- `read_line_bounded` -/
def readLineBounded (cap : ℕ) (s : Stream) : Option (Call (List Char)) :=
  readLine Utf8.fromUtf8Lossy (fun _ => []) cap s

/-- `MAX_LINE_LENGTH` of the POP3 server. -/
def pop3MaxLineLength : ℕ := 512

/-- `read_pop3_line` -/
def readPop3Line (s : Stream) : Option (Call (List Char)) :=
  readLine Utf8.fromUtf8Lossy (fun _ => []) pop3MaxLineLength s

section OneCall

variable {cap : ℕ} {s : Stream} {out : Bytes}

theorem room_eq (hcap : cap + 1 < 2 ^ 64) (len : ℕ) : room cap len = cap - len + 1 :=
  Nat.mod_eq_of_lt (by omega)

/-- The loop is the one of the servers' models, for every cap but the largest. -/
theorem readLoop_eq (hcap : cap + 1 < 2 ^ 64) (s : Stream) (out : Bytes) :
    readLoop cap s out = some (Smtp.readLineBytes cap s out) := by
  induction s generalizing out with
  | nil => rfl
  | cons avail later ih =>
      have hlen : 0 < avail.val.length := List.length_pos_iff.2 avail.property
      rw [readLoop, Smtp.readLineBytes]
      dsimp only
      rw [room_eq hcap]
      cases avail.val.findIdx? (· == 10) with
      | some i =>
          dsimp only
          rw [if_neg (by omega), if_pos (.inr rfl), if_pos (.inr rfl)]
      | none =>
          dsimp only
          rw [if_neg (by omega), ih]
          exact (apply_ite some _ _ _).symm

/-- The bytes that the loop takes: those of the line, but at most one more than the cap. -/
theorem readLineBytes_spec (hout : out.length ≤ cap) :
    (Smtp.readLineBytes cap s out).1 ++ whole (Smtp.readLineBytes cap s out).2 = out ++ whole s ∧
      (Smtp.readLineBytes cap s out).1.length =
        min (cap + 1) (out.length + (nextLine s).length) := by
  induction s generalizing out with
  | nil =>
      refine ⟨rfl, ?_⟩
      have hline : nextLine [] = [] := rfl
      rw [hline, Smtp.readLineBytes, List.length_nil, Nat.add_zero]
      exact (Nat.min_eq_right (Nat.le_succ_of_le hout)).symm
  | cons avail later ih =>
      unfold nextLine
      rw [whole_cons, Smtp.readLineBytes]
      cases hfind : avail.val.findIdx? (· == 10) with
      | some i =>
          obtain ⟨hmem, hlen⟩ := take_of_findIdx? hfind
          have hle := length_firstLine_le 10 avail.val
          rw [firstLine_append_of_mem hmem]
          dsimp only
          rw [if_pos (.inr rfl)]
          refine ⟨?_, ?_⟩
          · rw [whole_unread, List.append_assoc, ← List.append_assoc (avail.val.take _),
              List.take_append_drop]
          · rw [List.length_append, List.length_take]
            omega
      | none =>
          have hnot := notMem_of_findIdx? hfind
          rw [firstLine_append_of_notMem hnot, List.length_append]
          dsimp only
          split
          case isTrue hlong =>
            have hlong := hlong.resolve_right Bool.false_ne_true
            rw [List.length_append, List.length_take] at hlong
            refine ⟨?_, ?_⟩
            · rw [whole_unread, List.append_assoc, ← List.append_assoc (avail.val.take _),
                List.take_append_drop]
            · rw [List.length_append, List.length_take]
              omega
          case isFalse hshort =>
            simp only [Bool.false_eq_true, or_false, not_lt, List.length_append,
              List.length_take] at hshort
            have hall : min avail.val.length (cap - out.length + 1) = avail.val.length := by omega
            rw [hall, List.take_length]
            have hout' : (out ++ avail.val).length ≤ cap := by
              rw [List.length_append]
              omega
            obtain ⟨hbytes, hlength⟩ := ih hout'
            refine ⟨by rw [hbytes, List.append_assoc], ?_⟩
            rw [hlength, List.length_append, Nat.add_assoc]

/-- One call takes the line, or one byte more than the cap of it. -/
theorem readLine_eq {β : Type} {text left : Bytes → β} (hcap : cap + 1 < 2 ^ 64) (s : Stream) :
    ∃ rest, readLine text left cap s = some
        (if (nextLine s).length ≤ cap then
          ⟨.ok (nextLine s).length, text (nextLine s), rest⟩
        else ⟨.error "line too long", left ((nextLine s).take (cap + 1)), rest⟩) ∧
      whole rest = (whole s).drop (min (cap + 1) (nextLine s).length) := by
  obtain ⟨hbytes, hlength⟩ := @readLineBytes_spec cap s [] (Nat.zero_le _)
  rw [List.length_nil, Nat.zero_add] at hlength
  rw [List.nil_append] at hbytes
  have htaken : (Smtp.readLineBytes cap s []).1 = (nextLine s).take (cap + 1) := by
    have hfront : (Smtp.readLineBytes cap s []).1 =
        (whole s).take (min (cap + 1) (nextLine s).length) := by
      rw [← hbytes, ← hlength, List.take_left]
    rw [hfront, ← List.take_take, take_firstLine]
  refine ⟨(Smtp.readLineBytes cap s []).2, ?_, ?_⟩
  · rw [readLine, readLoop_eq hcap, Option.map_some, hlength]
    split
    case isTrue hlong => rw [if_neg (by omega), htaken]
    case isFalse hshort =>
      have hle : (nextLine s).length ≤ cap := by omega
      rw [if_pos hle, htaken, List.take_of_length_le (Nat.le_succ_of_le hle),
        Nat.min_eq_right (Nat.le_succ_of_le hle)]
  · rw [← hbytes, ← hlength, List.drop_left]

end OneCall

/-! ## Successive calls -/

/-- The results of `n` calls one after the other, and what is still to read. There is no call after
an error. -/
def calls {β : Type} (read : Stream → Option (Call β)) :
    ℕ → Stream → Option (List (Except String ℕ × β) × Stream)
  | 0, s => some ([], s)
  | n + 1, s =>
      (read s).bind fun c =>
        match c.result with
        | .error e => some ([(.error e, c.line)], c.rest)
        | .ok len => (calls read n c.rest).map fun p => ((.ok len, c.line) :: p.1, p.2)

section Expected

variable {β : Type} (text left : Bytes → β) (cap n : ℕ) (bytes : Bytes)

/-- The lines before the first one that is longer than the cap. -/
def shortLines : List Bytes := (linesOf 10 bytes).takeWhile fun line => line.length ≤ cap

/-- The result for a line that is read. -/
def lineResult (line : Bytes) : Except String ℕ × β := (.ok line.length, text line)

/-- What `n` calls return on a stream, and the bytes that they leave: the lines of the stream as
long as they are short; then the end of the stream, or the error. -/
def expected : List (Except String ℕ × β) × Bytes :=
  let short := shortLines cap bytes
  if n ≤ short.length then
    ((short.take n).map (lineResult text), bytes.drop (short.take n).flatten.length)
  else
    match (linesOf 10 bytes).drop short.length with
    | [] =>
        (short.map (lineResult text) ++ List.replicate (n - short.length) (lineResult text []), [])
    | long :: _ =>
        (short.map (lineResult text) ++ [(.error "line too long", left (long.take (cap + 1)))],
          bytes.drop (short.flatten.length + (cap + 1)))

end Expected

section Runs

variable {β : Type} {text left : Bytes → β} {cap n : ℕ} {bytes : Bytes}

theorem expected_zero : expected text left cap 0 bytes = ([], bytes) := by
  simp [expected]

theorem expected_nil :
    expected text left cap n [] = (List.replicate n (lineResult text []), []) := by
  cases n with
  | zero => exact expected_zero
  | succ n => simp [expected, shortLines, linesOf]

/-- After a short line. -/
theorem expected_cons (hne : bytes ≠ []) (h : (firstLine 10 bytes).length ≤ cap) :
    expected text left cap (n + 1) bytes =
      (lineResult text (firstLine 10 bytes) ::
          (expected text left cap n (bytes.drop (firstLine 10 bytes).length)).1,
        (expected text left cap n (bytes.drop (firstLine 10 bytes).length)).2) := by
  have hlines := @linesOf_eq UInt8 _ 10 bytes hne
  have hshort : shortLines cap bytes =
      firstLine 10 bytes :: shortLines cap (bytes.drop (firstLine 10 bytes).length) := by
    rw [shortLines, hlines, List.takeWhile_cons_of_pos (by simpa using h)]
    rfl
  rw [expected, expected, hlines, hshort, List.length_cons, List.drop_succ_cons,
    List.take_succ_cons]
  by_cases hn : n ≤ (shortLines cap (bytes.drop (firstLine 10 bytes).length)).length
  · rw [if_pos (Nat.succ_le_succ hn), if_pos hn, List.map_cons, List.flatten_cons,
      List.length_append, List.drop_drop]
  · rw [if_neg fun hle => hn (Nat.le_of_succ_le_succ hle), if_neg hn]
    split
    case h_1 => rw [List.map_cons, List.cons_append, Nat.add_sub_add_right]
    case h_2 =>
      rw [List.map_cons, List.cons_append, List.flatten_cons, List.length_append, List.drop_drop,
        Nat.add_assoc]

/-- At a line that is too long. -/
theorem expected_long (h : cap < (firstLine 10 bytes).length) :
    expected text left cap (n + 1) bytes =
      ([(.error "line too long", left ((firstLine 10 bytes).take (cap + 1)))],
        bytes.drop (cap + 1)) := by
  have hne : bytes ≠ [] := by
    rintro rfl
    exact absurd h (Nat.not_lt_zero _)
  have hlines := @linesOf_eq UInt8 _ 10 bytes hne
  have hshort : shortLines cap bytes = [] := by
    rw [shortLines, hlines, List.takeWhile_cons_of_neg (by simpa using h)]
  rw [expected, hshort, hlines]
  simp

/-- **Successive calls of a reader return the lines of the stream**, however it arrives. -/
theorem calls_readLine (hcap : cap + 1 < 2 ^ 64) (n : ℕ) (s : Stream) :
    (calls (readLine text left cap) n s).map (fun p => (p.1, whole p.2)) =
      some (expected text left cap n (whole s)) := by
  induction n generalizing s with
  | zero => rw [expected_zero]; rfl
  | succ n ih =>
      obtain ⟨rest, hread, hrest⟩ := @readLine_eq cap β text left hcap s
      rw [calls, hread, Option.bind_some]
      by_cases hle : (nextLine s).length ≤ cap
      · rw [if_pos hle]
        rw [Nat.min_eq_right (Nat.le_succ_of_le hle)] at hrest
        have hcalls := ih rest
        dsimp only
        rw [Option.map_map]
        by_cases hne : whole s = []
        · -- the end of the stream is reported once more
          rw [hne, List.drop_nil] at hrest
          rw [hrest, expected_nil] at hcalls
          have hline : nextLine s = [] := by rw [nextLine, hne]; rfl
          rw [hne, expected_nil, List.replicate_succ, hline]
          obtain ⟨p, hp, hpair⟩ := Option.map_eq_some_iff.1 hcalls
          obtain ⟨hresults, hover⟩ := Prod.mk.inj hpair
          rw [hp, Option.map_some]
          simp only [Function.comp, hresults, hover, lineResult, List.length_nil]
        · rw [hrest] at hcalls
          rw [expected_cons hne hle]
          obtain ⟨p, hp, hpair⟩ := Option.map_eq_some_iff.1 hcalls
          rw [hp, Option.map_some, ← hpair]
          rfl
      · rw [if_neg hle]
        rw [Nat.min_eq_left (by omega)] at hrest
        rw [expected_long (Nat.not_le.1 hle), Option.map_some, hrest]

end Runs

/-- A result of `read_line_bytes` as the readers of text give it. -/
def decoded : Except String ℕ × Bytes → Except String ℕ × List Char
  | (.ok len, line) => (.ok len, Utf8.fromUtf8Lossy line)
  | (.error e, _) => (.error e, [])

theorem expected_decoded (cap n : ℕ) (bytes : Bytes) :
    ((expected id id cap n bytes).1.map decoded, (expected id id cap n bytes).2) =
      expected Utf8.fromUtf8Lossy (fun _ => []) cap n bytes := by
  have hline : decoded ∘ lineResult id = lineResult Utf8.fromUtf8Lossy := rfl
  rw [expected, expected]
  split
  case isTrue => rw [List.map_map, hline]
  case isFalse =>
    split
    case h_1 => rw [List.map_append, List.map_map, hline, List.map_replicate]; rfl
    case h_2 => rw [List.map_append, List.map_map, hline]; rfl

end AsterBridge.LineReaders
