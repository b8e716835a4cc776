import AsterBridge.Db.SearchIndex
import AsterBridge.Render.Layout

/-!
# Stored sizes

The column `size` of a message with a body is to be the length of the body on the wire, where every
line break is CRLF. The length is computed three times: byte by byte (`crlf_normalized_len`), by
rewriting the text (`to_crlf`) and by a formula of SQL in the size migration of `prepare_schema`.
`sizes_run` says which runs of the functions that write the column keep it right.

The statements, the stages of `prepare_schema` and the triggers are those of the model of the
full-text index; here the size migration has its formula.
-/

set_option autoImplicit false

namespace AsterBridge.Db.WireSizes

open AsterBridge.Lib AsterBridge.Lib.Lines AsterBridge.Lib.Runs AsterBridge.Render
open AsterBridge.Db.SearchIndex

/-! ## `to_crlf` -/

/-- `to_crlf`: a text of the right length is returned as it is. -/
def toCrlfCow (s : List Char) : List Char :=
  if crlfNormalizedLen (String.ofList s) = utf8Len s then s else toCrlf s

/-- Every CR and every LF is part of a CRLF. -/
inductive Paired : List Char → Prop where
  | nil : Paired []
  | crlf {s : List Char} (h : Paired s) : Paired ('\r' :: '\n' :: s)
  | plain {c : Char} {s : List Char} (hc : c ≠ '\r' ∧ c ≠ '\n') (h : Paired s) : Paired (c :: s)

/-- The lines of a text, which ends a line with CRLF, CR or LF. -/
def textLines : List Char → List (List Char)
  | '\r' :: '\n' :: rest => [] :: textLines rest
  | '\r' :: rest => [] :: textLines rest
  | '\n' :: rest => [] :: textLines rest
  | c :: rest =>
      match textLines rest with
      | [] => [[c]]
      | line :: lines => (c :: line) :: lines
  | [] => [[]]

section Texts

variable {s : List Char}

/-- A text that does not get longer does not change. -/
theorem toCrlf_of_length (h : utf8Len (toCrlf s) = utf8Len s) : toCrlf s = s := by
  fun_induction toCrlf s with
  | case1 rest ih =>
      simp only [utf8Len_cons, Nat.add_left_cancel_iff] at h
      rw [ih h]
  | case2 rest hrest ih =>
      have hle := utf8Len_le_toCrlf rest
      have hlf : '\n'.utf8Size = 1 := rfl
      simp only [utf8Len_cons] at h
      omega
  | case3 rest ih =>
      have hle := utf8Len_le_toCrlf rest
      have hcr : '\r'.utf8Size = 1 := rfl
      simp only [utf8Len_cons] at h
      omega
  | case4 c rest hcrlf hcr hlf ih =>
      simp only [utf8Len_cons, Nat.add_left_cancel_iff] at h
      rw [ih h]
  | case5 => rfl

/-- The shortcut of `to_crlf` does not matter. -/
theorem toCrlfCow_eq (s : List Char) : toCrlfCow s = toCrlf s := by
  unfold toCrlfCow
  split
  case isTrue hlen =>
    rw [crlfNormalizedLen_eq] at hlen
    exact (toCrlf_of_length hlen).symm
  case isFalse => rfl

theorem paired_toCrlf (s : List Char) : Paired (toCrlf s) := by
  fun_induction toCrlf s with
  | case1 rest ih => exact .crlf ih
  | case2 rest hrest ih => exact .crlf ih
  | case3 rest ih => exact .crlf ih
  | case4 c rest hcrlf hcr hlf ih => exact .plain ⟨hcr, hlf⟩ ih
  | case5 => exact .nil

theorem textLines_cons_of_plain {c : Char} (h : c ≠ '\r' ∧ c ≠ '\n') (rest : List Char) :
    textLines (c :: rest) =
      match textLines rest with
      | [] => [[c]]
      | line :: lines => (c :: line) :: lines := by
  rw [textLines]
  · exact fun _ hc => absurd hc h.1
  · exact h.1
  · exact h.2

/-- Only line ends change. -/
theorem textLines_toCrlf (s : List Char) : textLines (toCrlf s) = textLines s := by
  fun_induction toCrlf s with
  | case1 rest ih => rw [textLines, textLines, ih]
  | case2 rest hrest ih =>
      rw [textLines, ih, textLines]
      exact hrest
  | case3 rest ih => rw [textLines, textLines, ih]
  | case4 c rest hcrlf hcr hlf ih =>
      rw [textLines_cons_of_plain ⟨hcr, hlf⟩, textLines_cons_of_plain ⟨hcr, hlf⟩, ih]
  | case5 => rfl

end Texts

/-! ## The formula of the size migration -/

/-- `length` of SQL: the characters before the first NUL. -/
def sqlLength (s : List Char) : Int := (s.takeWhile (· ≠ '\x00')).length

/-- `replace(s, d ‖ ds, '')` of SQL. -/
def sqlRemove (d : Char) (ds : List Char) : List Char → List Char
  | [] => []
  | c :: rest =>
      if (d :: ds).isPrefixOf (c :: rest) then sqlRemove d ds (rest.drop ds.length)
      else c :: sqlRemove d ds rest
termination_by s => s.length
decreasing_by
  · rw [List.length_drop, List.length_cons]
    omega
  · exact Nat.lt_succ_self _

/-- The value that the size migration sets. -/
def wireSizeSql (body : String) : Int :=
  let s := body.toList
  (Utf8.encode body).length + (sqlLength s - sqlLength (sqlRemove '\n' [] s)) +
    (sqlLength s - sqlLength (sqlRemove '\r' [] s)) -
      (sqlLength s - sqlLength (sqlRemove '\r' ['\n'] s))

section Formula

variable {s : List Char} {c d : Char} {ds : List Char}

theorem sqlLength_eq (h : '\x00' ∉ s) : sqlLength s = s.length := by
  have hall : s.takeWhile (· ≠ '\x00') = s :=
    List.takeWhile_eq_self_iff.2 fun c hc => decide_eq_true fun heq => h (heq ▸ hc)
  rw [sqlLength, hall]

theorem sqlRemove_subset (h : c ∈ sqlRemove d ds s) : c ∈ s := by
  fun_induction sqlRemove d ds s with
  | case1 => exact h
  | case2 x rest _ ih => exact List.mem_cons_of_mem _ (List.drop_subset _ _ (ih h))
  | case3 x rest _ ih =>
      rcases List.mem_cons.1 h with rfl | hmem
      · exact List.mem_cons_self
      · exact List.mem_cons_of_mem _ (ih hmem)

theorem sqlRemove_cons_of_eq (rest : List Char) :
    sqlRemove d [] (d :: rest) = sqlRemove d [] rest := by
  rw [sqlRemove, if_pos (by simp)]
  rfl

theorem sqlRemove_cons_of_ne (h : c ≠ d) (rest : List Char) :
    sqlRemove d ds (c :: rest) = c :: sqlRemove d ds rest := by
  rw [sqlRemove, if_neg (by simp [List.isPrefixOf, Ne.symm h])]

theorem sqlRemove_crlf (rest : List Char) :
    sqlRemove '\r' ['\n'] ('\r' :: '\n' :: rest) = sqlRemove '\r' ['\n'] rest := by
  rw [sqlRemove, if_pos (by simp [List.isPrefixOf])]
  rfl

theorem sqlRemove_cr (h : ∀ rest', s = '\n' :: rest' → False) :
    sqlRemove '\r' ['\n'] ('\r' :: s) = '\r' :: sqlRemove '\r' ['\n'] s := by
  cases s with
  | nil => simp [sqlRemove, List.isPrefixOf]
  | cons c rest =>
      have hc : c ≠ '\n' := fun hc => h rest (by rw [hc])
      rw [sqlRemove, if_neg (by simp [List.isPrefixOf, Ne.symm hc])]

/-- The lengths in the formula, where each line break is counted once. -/
theorem utf8Len_toCrlf_add (s : List Char) :
    (utf8Len (toCrlf s) : Int) =
      utf8Len s + (s.length - (sqlRemove '\n' [] s).length) +
        (s.length - (sqlRemove '\r' [] s).length) -
          (s.length - (sqlRemove '\r' ['\n'] s).length) := by
  have hcr : '\r'.utf8Size = 1 := rfl
  have hlf : '\n'.utf8Size = 1 := rfl
  fun_induction toCrlf s with
  | case1 rest ih =>
      rw [sqlRemove_crlf, sqlRemove_cons_of_ne (by decide), sqlRemove_cons_of_eq,
        sqlRemove_cons_of_eq, sqlRemove_cons_of_ne (by decide)]
      simp only [utf8Len_cons, List.length_cons, hcr, hlf]
      omega
  | case2 rest hrest ih =>
      rw [sqlRemove_cr hrest, sqlRemove_cons_of_ne (by decide), sqlRemove_cons_of_eq]
      simp only [utf8Len_cons, List.length_cons, hcr, hlf]
      omega
  | case3 rest ih =>
      rw [sqlRemove_cons_of_eq, sqlRemove_cons_of_ne (by decide), sqlRemove_cons_of_ne (by decide)]
      simp only [utf8Len_cons, List.length_cons, hcr, hlf]
      omega
  | case4 c rest hcrlf hcr' hlf' ih =>
      rw [sqlRemove_cons_of_ne hlf', sqlRemove_cons_of_ne hcr', sqlRemove_cons_of_ne hcr']
      simp only [utf8Len_cons, List.length_cons]
      omega
  | case5 => simp [sqlRemove]

/-- The formula gives the length on the wire, if there is no NUL. -/
theorem wireSizeSql_eq {body : String} (h : '\x00' ∉ body.toList) :
    wireSizeSql body = crlfNormalizedLen body := by
  have hremoved : ∀ d ds, '\x00' ∉ sqlRemove d ds body.toList :=
    fun d ds hmem => h (sqlRemove_subset hmem)
  have hbytes := length_bytesOf body.toList
  rw [bytesOf, String.ofList_toList] at hbytes
  have hlen := utf8Len_toCrlf_add body.toList
  have hnormal := crlfNormalizedLen_eq body.toList
  rw [String.ofList_toList] at hnormal
  rw [wireSizeSql, sqlLength_eq h, sqlLength_eq (hremoved _ _), sqlLength_eq (hremoved _ _),
    sqlLength_eq (hremoved _ _), hbytes, hnormal, hlen]

end Formula

/-! ## Writers -/

/-- `SET size = ..` of the size migration. -/
def repairSizeSql : SearchIndex.Assignment where
  columns := false
  apply := fun r =>
    match r.bodyText with
    | some b => { r with size := wireSizeSql b }
    | none => r
  keeps := by
    intro _ r
    cases hbody : r.bodyText with
    | none => rfl
    | some b => simp only [texts, hbody]

/-- The columns that no writer of `size` and `body_text` sets. -/
structure OtherColumns where
  folder : MessageRow → String
  date : MessageRow → Option String
  flags : MessageRow → BitVec 64
  bodyCached : MessageRow → Bool
  rawHeaders : MessageRow → Option String
  threadId : MessageRow → Option String
  messageId : MessageRow → Option String

/-- `SET` of such columns. -/
def OtherColumns.set (g : OtherColumns) (r : MessageRow) : MessageRow :=
  { r with
    folder := g.folder r
    date := g.date r
    flags := g.flags r
    bodyCached := g.bodyCached r
    rawHeaders := g.rawHeaders r
    threadId := g.threadId r
    messageId := g.messageId r }

/-- The functions that write `message_cache`. -/
inductive Write where
  | upsertCachedMessage (now asterId folder : String) (v : MessageValues)
  | updateCachedBody (asterId body : String) (rawHeaders : Option String)
  | updateCachedSubject (asterId subject : String)
  | setOthers (p : String → MessageRow → Bool) (g : OtherColumns)
  | deleteMessages (p : String → MessageRow → Bool)
  | repairCache
  | clearUserData
  | clearAllUserData

/-- The function in the model of the two tables. -/
def Write.op : Write → Op
  | .upsertCachedMessage now asterId folder v => .upsertCachedMessage now asterId folder v
  | .updateCachedBody asterId body rawHeaders => .updateCachedBody asterId body rawHeaders
  | .updateCachedSubject asterId subject => .updateCachedSubject asterId subject
  | .setOthers p g => .updateOthers p g.set fun _ => rfl
  | .deleteMessages p => .deleteMessages p
  | .repairCache => .repairCache
  | .clearUserData => .clearUserData
  | .clearAllUserData => .clearAllUserData

/-- What happens: `write` runs a function, which dies if fewer than all of its statements are
done. -/
inductive Happens where
  | start
  | next (marked : String → MessageRow → Bool)
  | crash
  | write (w : Write) (done : Nat)
  | vacuum (f : Nat ↪ Nat)
  | copy (f : Nat ↪ Nat)

/-- The next statement of `prepare_schema`, with the formula of the size migration. -/
def prepareSchema (marked : String → MessageRow → Bool) (s : State) : State :=
  if s.stage = .sizing ∧ s.sized = false then
    { s with
      db := s.db.execAll [.update hasLineBreak repairSizeSql]
      sized := true
      stage := .ready }
  else prepare marked s

/-- One step. -/
def happen (s : State) : Happens → State
  | .start => step s .start
  | .next marked => prepareSchema marked s
  | .crash => step s .crash
  | .write w done => step s (.call w.op done)
  | .vacuum f => step s (.vacuum f)
  | .copy f => step s (.copy f)

/-! ## What keeps the sizes -/

/-- The size of a row with a body is that of the body on the wire. -/
def Sized (r : MessageRow) : Prop := ∀ b, r.bodyText = some b → r.size = crlfNormalizedLen b

/-- A function leaves the size of a stored body alone, or sets it together with the body: an upsert
without a body gives the size of the stored one, and an upsert with a body does not die between its
two updates, unless the sizes are equal. -/
def KeepsSize (s : State) : Happens → Prop
  | .write (.upsertCachedMessage _ asterId _ v) done =>
      ∀ r ∈ s.db.cache.rows, r.asterId = asterId → ∀ b, r.row.bodyText = some b →
        match v.bodyText with
        | none => v.size = crlfNormalizedLen b
        | some b' =>
            done = 2 → (crlfNormalizedLen (stripC0Controls b') : Int) = crlfNormalizedLen b
  | _ => True

/-- The rows of a database of an older version: sizes are lengths in bytes where there is no line
break, and bodies have no NUL. -/
def OlderRow (r : MessageRow) : Prop :=
  (hasLineBreak "" r = false → Sized r) ∧ ∀ b, r.bodyText = some b → '\x00' ∉ b.toList

section Rows

variable {P Q : String → MessageRow → Prop} {db : Store}

/-- Every row of `message_cache` has a property. -/
def AllRows (P : String → MessageRow → Prop) (db : Store) : Prop :=
  ∀ r ∈ db.cache.rows, P r.asterId r.row

theorem AllRows.mono (h : AllRows P db) (himp : ∀ k r, P k r → Q k r) : AllRows Q db :=
  fun r hr => himp _ _ (h r hr)

theorem AllRows.update (h : AllRows P db) {p : String → MessageRow → Bool}
    {a : SearchIndex.Assignment}
    (hset : ∀ k r, P k r → p k r = true → Q k (a.apply r))
    (hkeep : ∀ k r, P k r → p k r = false → Q k r) : AllRows Q (db.execAll [.update p a]) := by
  intro r hr
  have hmem : r ∈ db.cache.rows.filterMap fun r => some (updated p a r) := hr
  rw [List.filterMap_eq_map', List.mem_map] at hmem
  obtain ⟨r', hr', rfl⟩ := hmem
  unfold updated
  cases hp : p r'.asterId r'.row with
  | true => exact hset _ _ (h r' hr') hp
  | false => exact hkeep _ _ (h r' hr') hp

theorem AllRows.delete (h : AllRows P db) (p : String → MessageRow → Bool) :
    AllRows P (db.execAll [.delete p]) := by
  intro r hr
  have hmem : r ∈ db.cache.rows.filterMap (kept p) := hr
  obtain ⟨r', hr', hkept⟩ := List.mem_filterMap.1 hmem
  unfold kept at hkept
  split at hkept
  · exact nomatch hkept
  · rw [← Option.some.inj hkept]
    exact h r' hr'

theorem AllRows.insertIgnore (h : AllRows P db) {asterId : String} {row : MessageRow}
    (hrow : P asterId row) : AllRows P (db.execAll [.insertIgnore asterId row]) := by
  by_cases hmem : asterId ∈ db.cache.rows.map CacheRow.asterId
  · rw [Store.execAll, Store.exec, dif_pos hmem]
    exact h
  · rw [Store.execAll, Store.exec, dif_neg hmem]
    cases fireInsert db.ai (db.cache.newRow asterId row) db.fts with
    | none => exact h
    | some fts =>
        intro r hr
        have hor : r ∈ db.cache.rows ++ [db.cache.newRow asterId row] := hr
        rcases List.mem_append.1 hor with hold | hnew
        · exact h r hold
        · rw [List.mem_singleton.1 hnew]
          exact hrow

theorem execAll_cons_update (db : Store) (p : String → MessageRow → Bool)
    (a : SearchIndex.Assignment) (rest : List Statement) :
    db.execAll (.update p a :: rest) = (db.execAll [.update p a]).execAll rest := rfl

end Rows

section Functions

variable {s : State}

/-- An upsert with room for both of its updates. -/
theorem allRows_upsertUpdates {db : Store} {asterId folder : String} {v : MessageValues} {n : ℕ}
    (h : AllRows (fun _ => Sized) db)
    (hkeep : AllRows (fun k r => k = asterId → ∀ b, r.bodyText = some b →
      match v.bodyText with
      | none => v.size = crlfNormalizedLen b
      | some b' => n = 1 → (crlfNormalizedLen (stripC0Controls b') : Int) = crlfNormalizedLen b)
      db) :
    AllRows (fun _ => Sized) (db.execAll ((upsertUpdates asterId folder v).take n)) := by
  unfold upsertUpdates
  cases n with
  | zero => exact h
  | succ n =>
      have hboth : AllRows (fun k r => Sized r ∧ (k = asterId → ∀ b, r.bodyText = some b →
          match v.bodyText with
          | none => v.size = crlfNormalizedLen b
          | some b' => n + 1 = 1 →
              (crlfNormalizedLen (stripC0Controls b') : Int) = crlfNormalizedLen b)) db :=
        fun r hr => ⟨h r hr, hkeep r hr⟩
      rw [List.take_succ_cons, execAll_cons_update]
      cases hbody : v.bodyText with
      | none =>
          -- the size of the caller is that of the body that stays
          simp only [hbody] at hboth
          simp only [Option.map_none, Option.isSome_none, Bool.false_eq_true, if_false,
            List.take_nil]
          refine hboth.update (fun k r hr hp b hb => ?_) fun k r hr _ => hr.1
          exact hr.2 (of_decide_eq_true hp) b hb
      | some b' =>
          simp only [hbody] at hboth
          simp only [Option.map_some, Option.isSome_some, if_true, Option.getD_some]
          cases n with
          | zero =>
              -- it dies between the two
              refine hboth.update (fun k r hr hp b hb => ?_) fun k r hr _ => hr.1
              exact hr.2 (of_decide_eq_true hp) b hb rfl
          | succ n =>
              have hfirst : AllRows (fun k r => (k ≠ asterId → Sized r) ∧
                  (k = asterId → r.size = crlfNormalizedLen (stripC0Controls b'))) (db.execAll
                    [.update (only asterId) (setTexts fun r =>
                      { r with
                        folder := folder
                        subject := v.subject.map stripC0Controls
                        sender := v.sender.map stripC0Controls
                        recipients := v.recipients.map stripC0Controls
                        date := v.date
                        size := (crlfNormalizedLen (stripC0Controls b') : Int)
                        rawHeaders := v.rawHeaders })]) := by
                refine h.update (fun k r hr hp => ⟨fun hne => ?_, fun _ => rfl⟩)
                  fun k r hr hp => ⟨fun _ => hr, fun heq => ?_⟩
                · exact absurd (of_decide_eq_true hp) hne
                · exact absurd heq (of_decide_eq_false hp)
              rw [List.take_succ_cons, List.take_nil]
              refine hfirst.update (fun k r hr hp b hb => ?_) fun k r hr hp => ?_
              · rw [← Option.some.inj hb]
                exact hr.2 (of_decide_eq_true hp)
              · exact hr.1 (of_decide_eq_false hp)

theorem sized_upsertRow (now folder : String) (v : MessageValues) :
    Sized (upsertRow now folder v) := by
  intro b hb
  unfold upsertRow at hb ⊢
  dsimp only at hb ⊢
  rw [hb]
  rfl

/-- A function of one statement may die before it. -/
theorem allRows_one {db : Store} {st : Statement} (done : ℕ) (h : AllRows (fun _ => Sized) db)
    (hone : AllRows (fun _ => Sized) (db.execAll [st])) :
    AllRows (fun _ => Sized) (db.execAll ([st].take done)) := by
  cases done with
  | zero => exact h
  | succ done =>
      rw [List.take_succ_cons, List.take_nil]
      exact hone

/-- The functions that clear both tables. -/
theorem allRows_cleared {db : Store} (done : ℕ) (h : AllRows (fun _ => Sized) db) :
    AllRows (fun _ => Sized) (db.execAll ([.delete every, .deleteFts].take done)) := by
  cases done with
  | zero => exact h
  | succ done =>
      cases done with
      | zero => exact h.delete every
      | succ done =>
          rw [List.take_succ_cons, List.take_succ_cons, List.take_nil]
          exact h.delete every

/-- A function that keeps the sizes, in a run that it may not survive. -/
theorem allRows_write (w : Write) (done : ℕ) (h : AllRows (fun _ => Sized) s.db)
    (hkeep : KeepsSize s (.write w done)) :
    AllRows (fun _ => Sized) (runOp w.op done s).db := by
  cases w with
  | upsertCachedMessage now asterId folder v =>
      change AllRows (fun _ => Sized) (s.db.execAll ((_ :: _ : List Statement).take done))
      cases done with
      | zero => exact h
      | succ done =>
          rw [List.take_succ_cons]
          by_cases hmem : asterId ∈ s.db.cache.rows.map CacheRow.asterId
          · rw [if_pos hmem, Store.execAll, Store.exec, dif_pos hmem]
            refine allRows_upsertUpdates h fun r hr hid b hb => ?_
            have hrow := hkeep r hr hid b hb
            cases hbody : v.bodyText with
            | none =>
                rw [hbody] at hrow
                exact hrow
            | some b' =>
                rw [hbody] at hrow
                exact fun hone => hrow (by rw [hone])
          · rw [if_neg hmem, List.take_nil]
            exact h.insertIgnore (sized_upsertRow now folder v)
  | updateCachedBody asterId body rawHeaders =>
      refine allRows_one done h (h.update (fun k r hr hp b hb => ?_) fun k r hr _ => hr)
      rw [← Option.some.inj hb]
      rfl
  | updateCachedSubject asterId subject =>
      exact allRows_one done h (h.update (fun k r hr hp => hr) fun k r hr _ => hr)
  | setOthers p g => exact allRows_one done h (h.update (fun k r hr hp => hr) fun k r hr _ => hr)
  | deleteMessages p => exact allRows_one done h (h.delete p)
  | repairCache => exact allRows_cleared done h
  | clearUserData => exact allRows_cleared done h
  | clearAllUserData =>
      have hcleared := allRows_cleared done h
      unfold runOp
      dsimp only
      split
      · exact h
      · exact hcleared

end Functions

/-! ## Runs -/

/-- The sizes are right once the migration has run; until then the rows `older` are as they were. -/
structure Right (older : List MessageRow) (s : State) : Prop where
  sized : s.sized = true → AllRows (fun _ => Sized) s.db
  unsized : s.sized = false → s.db.cache.rows.map CacheRow.row = older
  ready : s.stage = .ready → s.sized = true

section Runs

variable {older : List MessageRow} {s : State}

/-- The statements of `prepare_schema` before the size migration leave the rows alone. -/
theorem prepare_spec (marked : String → MessageRow → Bool)
    (h : ¬(s.stage = .sizing ∧ s.sized = false)) :
    (prepare marked s).db.cache.rows = s.db.cache.rows ∧ (prepare marked s).sized = s.sized ∧
      ((prepare marked s).stage = .ready → s.stage = .ready ∨ s.sized = true) := by
  unfold prepare
  cases hstage : s.stage with
  | closed => exact ⟨rfl, rfl, fun hready => absurd (hstage.symm.trans hready) nofun⟩
  | ready => exact ⟨rfl, rfl, fun _ => .inl rfl⟩
  | marking =>
      refine ⟨?_, rfl, nofun⟩
      change s.db.cache.rows.filterMap (fun r => some (updated marked markAttachments r)) = _
      rw [List.filterMap_eq_map']
      refine (List.map_congr_left fun r _ => ?_).trans (List.map_id _)
      unfold updated
      split <;> rfl
  | migrating =>
      dsimp only
      split <;> exact ⟨rfl, rfl, nofun⟩
  | creatingAi => exact ⟨rfl, rfl, nofun⟩
  | creatingAd => exact ⟨rfl, rfl, nofun⟩
  | creatingAu => exact ⟨rfl, rfl, nofun⟩
  | backfilling =>
      dsimp only
      split <;> exact ⟨rfl, rfl, nofun⟩
  | sizing =>
      have hsized : s.sized = true := by
        cases hs : s.sized with
        | true => rfl
        | false => exact absurd ⟨hstage, hs⟩ h
      dsimp only
      rw [if_pos hsized]
      exact ⟨rfl, rfl, fun _ => .inr hsized⟩

/-- The size migration. -/
theorem sized_repaired {db : Store} (h : AllRows (fun _ => OlderRow) db) :
    AllRows (fun _ => Sized) (db.execAll [.update hasLineBreak repairSizeSql]) := by
  refine h.update (fun k r hr _ b hb => ?_) fun k r hr hp => hr.1 hp
  unfold repairSizeSql at hb ⊢
  cases hbody : r.bodyText with
  | none =>
      simp only [hbody] at hb
      exact absurd hb nofun
  | some b' =>
      simp only [hbody] at hb ⊢
      rw [← Option.some.inj hb]
      exact wireSizeSql_eq (hr.2 b' hbody)

theorem allRows_renumber {P : String → MessageRow → Prop} {db : Store} (h : AllRows P db)
    (f : Nat ↪ Nat) : AllRows P (db.renumber f) := by
  intro r hr
  have hmem : r ∈ db.cache.rows.map fun r => { r with rowid := f r.rowid } := hr
  obtain ⟨r', hr', rfl⟩ := List.mem_map.1 hmem
  exact h r' hr'

theorem Right.renumber (h : Right older s) (f : Nat ↪ Nat) :
    Right older { s with db := s.db.renumber f } where
  sized hsized := allRows_renumber (h.sized hsized) f
  unsized hsized := by
    rw [← h.unsized hsized]
    change (s.db.cache.rows.map fun r => { r with rowid := f r.rowid }).map CacheRow.row = _
    rw [List.map_map]
    rfl
  ready := h.ready

/-- One step keeps the sizes right. -/
theorem Right.happen (holder : ∀ r ∈ older, OlderRow r) (h : Right older s) (e : Happens)
    (hkeep : KeepsSize s e) : Right older (happen s e) := by
  cases e with
  | start =>
      change Right older (if s.stage = .closed then { s with stage := .marking } else s)
      split
      · exact ⟨h.sized, h.unsized, nofun⟩
      · exact h
  | crash => exact ⟨h.sized, h.unsized, nofun⟩
  | next marked =>
      unfold WireSizes.happen prepareSchema
      dsimp only
      split
      case isTrue hsizing =>
        refine ⟨fun _ => sized_repaired fun r hr => holder _ ?_, nofun, fun _ => rfl⟩
        rw [← h.unsized hsizing.2]
        exact List.mem_map_of_mem hr
      case isFalse hother =>
        obtain ⟨hrows, hsized, hready⟩ := prepare_spec marked hother
        refine ⟨fun hs r hr => ?_, fun hs => ?_, fun hs => ?_⟩
        · rw [hsized] at hs
          rw [hrows] at hr
          exact h.sized hs r hr
        · rw [hrows]
          exact h.unsized (hsized ▸ hs)
        · rw [hsized]
          exact (hready hs).elim h.ready id
  | write w done =>
      change Right older (if s.stage = .ready then runOp w.op done s else s)
      split
      case isTrue hready =>
        have hsized := h.ready hready
        have hsame : (runOp w.op done s).sized = s.sized := by
          unfold runOp
          dsimp only
          split <;> rfl
        refine ⟨fun _ => allRows_write w done (h.sized hsized) hkeep, fun hs => ?_, fun _ => ?_⟩
        · rw [hsame, hsized] at hs
          exact absurd hs Bool.noConfusion
        · rw [hsame, hsized]
      case isFalse => exact h
  | vacuum f =>
      change Right older (if s.stage = .ready then { s with db := s.db.renumber f } else s)
      split
      · exact h.renumber f
      · exact h
  | copy f =>
      change Right older (if s.stage = .closed then { s with db := s.db.renumber f } else s)
      split
      · exact h.renumber f
      · exact h

/-- A run whose steps leave the size of a stored body alone keeps every size right. -/
theorem sizes_run (cache : CacheTable) (fts : Option Fts)
    (holder : ∀ r ∈ cache.rows, OlderRow r.row) (events : List Happens)
    (hrun : Guarded WireSizes.happen KeepsSize (State.older cache fts) events) :
    Right (cache.rows.map CacheRow.row) (exec WireSizes.happen (State.older cache fts) events) := by
  have hrows : ∀ r ∈ cache.rows.map CacheRow.row, OlderRow r := by
    intro r hr
    obtain ⟨r', hr', rfl⟩ := List.mem_map.1 hr
    exact holder r' hr'
  refine exec_invariant (I := Right (cache.rows.map CacheRow.row)) (fun s e h hkeep => ?_)
    ⟨nofun, fun _ => rfl, nofun⟩ hrun
  exact h.happen hrows e hkeep

end Runs

/-- **The stored size is the wire size of the body.** `to_crlf` makes a text of the length that
`crlf_normalized_len` says, in which every CR and LF is part of a CRLF, changes only line ends, and
does nothing the second time. The formula of the size migration gives this length for every body
without NUL. And in every run whose writers leave the size of a stored body alone, on a new database
or one of an older version, every row with a body has the size of the body once the size migration
has run, and on a new database always. -/
theorem stored_size_is_wire_size (cache : CacheTable) (fts : Option Fts)
    (holder : ∀ r ∈ cache.rows, OlderRow r.row) :
    (∀ s : List Char, utf8Len (toCrlfCow s) = crlfNormalizedLen (String.ofList s) ∧
      Paired (toCrlfCow s) ∧ toCrlfCow (toCrlfCow s) = toCrlfCow s ∧
        textLines (toCrlfCow s) = textLines s) ∧
    (∀ body : String, '\x00' ∉ body.toList → wireSizeSql body = crlfNormalizedLen body) ∧
    ∀ events : List Happens,
      Guarded WireSizes.happen KeepsSize (State.older cache fts) events →
        let s := exec WireSizes.happen (State.older cache fts) events
        s.stage = .ready ∨ cache.rows = [] → ∀ r ∈ s.db.cache.rows, Sized r.row := by
  refine ⟨fun s => ?_, fun body => wireSizeSql_eq, fun events hrun => ?_⟩
  · rw [toCrlfCow_eq, toCrlfCow_eq, crlfNormalizedLen_eq]
    exact ⟨rfl, paired_toCrlf s, clean_toCrlf s, textLines_toCrlf s⟩
  · intro s hwhen r hr
    have hright := sizes_run cache fts holder events hrun
    cases hsized : s.sized with
    | true => exact hright.sized hsized r hr
    | false =>
        rcases hwhen with hready | hempty
        · exact absurd ((hright.ready hready).symm.trans hsized) Bool.noConfusion
        · -- nothing was there, and nothing is written before the migration
          have hrows := hright.unsized hsized
          rw [hempty, List.map_nil, List.map_eq_nil_iff] at hrows
          rw [hrows] at hr
          exact nomatch hr

/-! ## Concrete runs -/

/-- All of `prepare_schema` on a new database. -/
def opened : List Happens := .start :: List.replicate 8 (.next fun _ _ => false)

/-- An upsert of a message, to its end. -/
def upserts (size : Int) (bodyText : Option String) : Happens :=
  .write (.upsertCachedMessage "" "m" "inbox" ⟨none, none, none, none, size, bodyText, none⟩) 9

theorem stored_size_is_wire_size_afterUpsert :
    let s := exec happen (State.older CacheTable.empty none) (opened ++ [upserts 0 (some "hello")])
    s.db.cache.rows.map CacheRow.asterId = ["m"] ∧ ∀ r ∈ s.db.cache.rows, Sized r.row := by
  intro s
  have hids : s.db.cache.rows.map CacheRow.asterId = ["m"] := by decide +kernel
  have hnone : (exec happen (State.older CacheTable.empty none) opened).db.cache.rows = [] := by
    decide +kernel
  have hopened : Guarded happen KeepsSize (State.older CacheTable.empty none) opened := by
    repeat' apply And.intro
    all_goals trivial
  have hupsert : KeepsSize (exec happen (State.older CacheTable.empty none) opened)
      (upserts 0 (some "hello")) := by
    intro r hr
    rw [hnone] at hr
    exact nomatch hr
  have hrun : Guarded happen KeepsSize (State.older CacheTable.empty none)
      (opened ++ [upserts 0 (some "hello")]) :=
    (guarded_append happen KeepsSize _ opened _).2 ⟨hopened, hupsert, trivial⟩
  have hnew : s.stage = .ready ∨ CacheTable.empty.rows = [] := Or.inr rfl
  have hempty : ∀ r ∈ CacheTable.empty.rows, OlderRow r.row := fun r hr => nomatch hr
  have hruns := (stored_size_is_wire_size CacheTable.empty none hempty).2.2
  have hsizes := hruns (opened ++ [upserts 0 (some "hello")]) hrun
  have hsized := hsizes hnew
  exact ⟨hids, hsized⟩

/-- The second upsert has no body: its size replaces that of the body that stays. -/
theorem upsert_without_body_breaks_size :
    ¬∀ (events : List Happens),
      ∀ r ∈ (exec happen (State.older CacheTable.empty none) events).db.cache.rows,
        Sized r.row := by
  intro h
  have hrows : (exec happen (State.older CacheTable.empty none)
      (opened ++ [upserts 0 (some "hello"), upserts 99 none])).db.cache.rows.map
        (fun r => (r.row.bodyText, r.row.size)) = [(some "hello", 99)] := by
    decide +kernel
  have hmem : (some "hello", (99 : Int)) ∈ (exec happen (State.older CacheTable.empty none)
      (opened ++ [upserts 0 (some "hello"), upserts 99 none])).db.cache.rows.map
        fun r => (r.row.bodyText, r.row.size) := by
    rw [hrows]
    exact List.mem_singleton.2 rfl
  obtain ⟨r, hr, hpair⟩ := List.mem_map.1 hmem
  have hsize := h _ r hr "hello" (congrArg Prod.fst hpair)
  have hlen : crlfNormalizedLen "hello" = 5 := by decide +kernel
  have h99 : r.row.size = 99 := congrArg Prod.snd hpair
  rw [h99, hlen] at hsize
  exact absurd hsize (by decide)

end AsterBridge.Db.WireSizes
