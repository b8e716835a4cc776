import AsterBridge.Lib.Json
import AsterBridge.Lib.Unicode

/-!
# Address texts

`address.rs`: a mailbox as text, the splitting of a list of mailboxes, and their reading.
`splitAddressList_join` reads back what `format_mailbox` has written.
-/

set_option autoImplicit false

namespace AsterBridge.Address

open AsterBridge.Lib AsterBridge.Lib.Text

/-! ## Writing -/

/-- `NAME_SPECIALS` -/
def nameSpecials : List Char := ['(', ')', '<', '>', '[', ']', ':', ';', '@', '\\', ',', '.', '"']

/-- A character that neither `clean` nor `strip_header_chars` lets through. -/
def isHeaderBreak (c : Char) : Bool := c == '\r' || c == '\n' || c == '\x00'

/-- `clean` -/
def clean (s : List Char) : List Char := trim (s.filter fun c => !isHeaderBreak c)

/-- The replacements of `format_mailbox` in a quoted name. -/
def escapeName (name : List Char) : List Char :=
  name.flatMap fun c => if c = '\\' ∨ c = '"' then ['\\', c] else [c]

/-- `format_mailbox` -/
def formatMailbox (name email : List Char) : List Char :=
  let name := clean name
  let email := clean email
  if email = [] then []
  else if name = [] ∨ eqIgnoreAsciiCase name email then email
  else if name.any nameSpecials.contains then
    '"' :: escapeName name ++ '"' :: ' ' :: '<' :: email ++ ['>']
  else name ++ ' ' :: '<' :: email ++ ['>']

/-! ## Splitting -/

/-- The variables of `split_address_list`. -/
structure Splitter where
  out : List (List Char)
  current : List Char
  inQuotes : Bool
  escaped : Bool
  angleDepth : Nat

namespace Splitter

/-- The state before the first character. -/
def start : Splitter := ⟨[], [], false, false, 0⟩

/-- The end of a part. -/
def flush (s : Splitter) : Splitter :=
  let part := trim s.current
  { s with out := if part = [] then s.out else s.out ++ [part], current := [] }

/-- The body of the loop. -/
def read (s : Splitter) (c : Char) : Splitter :=
  let pushed := { s with current := s.current ++ [c] }
  if s.escaped then { pushed with escaped := false }
  else if c = '\\' ∧ s.inQuotes then { pushed with escaped := true }
  else if c = '"' then { pushed with inQuotes := !s.inQuotes }
  else if c = '<' ∧ !s.inQuotes then { pushed with angleDepth := s.angleDepth + 1 }
  else if c = '>' ∧ !s.inQuotes then { pushed with angleDepth := s.angleDepth - 1 }
  else if (c = ',' ∨ c = ';') ∧ !s.inQuotes ∧ s.angleDepth = 0 then s.flush
  else pushed

end Splitter

/-- `split_address_list` -/
def splitAddressList (s : List Char) : List (List Char) :=
  (s.foldl Splitter.read .start).flush.out

/-! ## Reading -/

/-- The loop of `unquote_name`. -/
def unescape : List Char → List Char
  | [] => []
  | ['\\'] => []
  | '\\' :: c :: rest => c :: unescape rest
  | c :: rest => c :: unescape rest

/-- `trim_matches` -/
def trimMatches (p : Char → Bool) (s : List Char) : List Char := (s.dropWhile p).rdropWhile p

/-- `unquote_name` -/
def unquoteName (raw : List Char) : List Char :=
  let trimmed := trim raw
  let inner :=
    if 2 ≤ trimmed.length ∧ trimmed.head? = some '"' ∧ trimmed.getLast? = some '"' then
      (trimmed.drop 1).dropLast
    else trimmed
  trim (trimMatches (· == '"') (trim (unescape inner)))

/-- `parse_mailbox`: the name and the e-mail address. -/
def parseMailbox (addr : List Char) : List Char × List Char :=
  let trimmed := trim addr
  let bare := trim (trimMatches (fun c => c == '<' || c == '>' || c == '"') trimmed)
  match rfind '<' trimmed, rfind '>' trimmed with
  | some opening, some closing =>
      if opening < closing then
        (unquoteName (trimmed.take opening), trim ((trimmed.take closing).drop (opening + 1)))
      else ([], bare)
  | _, _ => ([], bare)

mutual

/-- `value_entries` -/
def valueEntries : Json → List (List Char)
  | .string s =>
      ((splitAddressList s.toList).map fun a =>
        formatMailbox (parseMailbox a).1 (parseMailbox a).2).filter (· ≠ [])
  | .array items => itemEntries items
  | .object members =>
      let email := (((members.lookup "email").or (members.lookup "address")).bind Json.asStr).getD ""
      let name := ((members.lookup "name").bind Json.asStr).getD ""
      let formatted := formatMailbox name.toList email.toList
      if formatted = [] then [] else [formatted]
  | _ => []

/-- `value_entries` on the items of an array. -/
def itemEntries : List Json → List (List Char)
  | [] => []
  | item :: items => valueEntries item ++ itemEntries items

end

/-- `address_text` -/
def addressText (v : Option Json) : Option (List Char) :=
  (v.map valueEntries).bind fun entries =>
    if entries = [] then none else some ([',', ' '].intercalate entries)

/-- `meta_address_text` -/
def metaAddressText (metadata : Json) (key : String) : Option (List Char) :=
  addressText (metadata.get? key)

/-- `jmap_addresses` -/
def jmapAddresses (text : Option (List Char)) : Json :=
  match text with
  | none => .null
  | some text =>
      let list := (splitAddressList text).filterMap fun a =>
        let (name, email) := parseMailbox a
        if email = [] then none
        else some (Json.object [
          ("name", if name = [] then .null else .string (String.ofList name)),
          ("email", .string (String.ofList email))])
      if list.isEmpty then .null else .array list

/-! ## What is written is read back -/

/-- An address without white space, header breaks and separators of lists or mailboxes. -/
structure PlainAddress (email : List Char) : Prop where
  nonempty : email ≠ []
  noWhitespace : ∀ c ∈ email, isWhitespace c = false
  noBreak : ∀ c ∈ email, isHeaderBreak c = false
  noSeparator : ∀ c ∈ email, c ∉ [',', ';', '<', '>', '"']

/-- `format_mailbox` writes the address alone. -/
def Bare (name email : List Char) : Prop :=
  clean name = [] ∨ eqIgnoreAsciiCase (clean name) email = true

instance (name email : List Char) : Decidable (Bare name email) :=
  inferInstanceAs (Decidable (_ ∨ _))

/-- The mailboxes of a list, as text. -/
def joinMailboxes (mailboxes : List (List Char × List Char)) : List Char :=
  [',', ' '].intercalate (mailboxes.map fun m => formatMailbox m.1 m.2)

section Mailboxes

variable {name email : List Char}

theorem trimMatches_of_forall {p : Char → Bool} {cs : List Char} (h : ∀ c ∈ cs, p c = false) :
    trimMatches p cs = cs := by
  have hstart : cs.dropWhile p = cs := by
    rw [List.dropWhile_eq_self_iff]
    intro hpos
    simp [h _ (List.getElem_mem hpos)]
  rw [trimMatches, hstart, List.rdropWhile_eq_self_iff]
  intro hne
  simp [h _ (List.getLast_mem hne)]

theorem PlainAddress.trim_eq (h : PlainAddress email) : trim email = email :=
  trimMatches_of_forall h.noWhitespace

/-- `clean` leaves such an address alone. -/
theorem PlainAddress.clean_eq (h : PlainAddress email) : clean email = email := by
  have hfilter : (email.filter fun c => !isHeaderBreak c) = email := by
    rw [List.filter_eq_self]
    intro c hc
    rw [h.noBreak c hc]
    rfl
  rw [clean, hfilter, h.trim_eq]

/-- The name as `format_mailbox` writes it before an address. -/
def shownName (name : List Char) : List Char :=
  if (clean name).any nameSpecials.contains then '"' :: escapeName (clean name) ++ ['"']
  else clean name

theorem formatMailbox_bare (h : PlainAddress email) (hbare : Bare name email) :
    formatMailbox name email = email := by
  simp only [formatMailbox, h.clean_eq]
  rw [if_neg h.nonempty]
  exact if_pos hbare

theorem formatMailbox_named (h : PlainAddress email) (hnamed : ¬ Bare name email) :
    formatMailbox name email = shownName name ++ ' ' :: '<' :: email ++ ['>'] := by
  simp only [formatMailbox, h.clean_eq, shownName]
  rw [if_neg h.nonempty]
  refine (if_neg hnamed).trans ?_
  split
  · simp only [List.cons_append, List.append_assoc, List.nil_append]
  · rfl

/-- A shown name starts with a character that `trim` keeps. -/
theorem shownName_head (h : clean name ≠ []) :
    ∃ c, (shownName name).head? = some c ∧ isWhitespace c = false := by
  unfold shownName
  split
  · exact ⟨'"', rfl, by decide⟩
  · exact (trim_ends h).1

/-- Neither end of a mailbox is white space. -/
theorem trim_formatMailbox (h : PlainAddress email) :
    trim (formatMailbox name email) = formatMailbox name email ∧ formatMailbox name email ≠ [] := by
  by_cases hbare : Bare name email
  · rw [formatMailbox_bare h hbare]
    exact ⟨h.trim_eq, h.nonempty⟩
  · rw [formatMailbox_named h hbare]
    refine ⟨trim_of_ends ?_ ⟨'>', List.getLast?_concat, by decide⟩, by simp⟩
    obtain ⟨c, hc, hwhite⟩ := shownName_head fun hempty => hbare (Or.inl hempty)
    obtain ⟨rest, hrest⟩ := List.head?_eq_some_iff.1 hc
    exact ⟨c, by rw [hrest]; rfl, hwhite⟩

/-- The address of a mailbox is read back, whatever its name is. -/
theorem parseMailbox_formatMailbox (h : PlainAddress email) :
    (parseMailbox (formatMailbox name email)).2 = email := by
  have hno : ∀ {c}, c ∈ [',', ';', '<', '>', '"'] → c ∉ email := fun hc hmem =>
    h.noSeparator _ hmem hc
  rw [parseMailbox, (trim_formatMailbox h).1]
  by_cases hbare : Bare name email
  · rw [formatMailbox_bare h hbare]
    have hmatches : ∀ c ∈ email, (c == '<' || c == '>' || c == '"') = false := by
      intro c hc
      have hsep := h.noSeparator c hc
      simp only [List.mem_cons, List.not_mem_nil, or_false, not_or] at hsep
      simp [hsep]
    simp only [rfind_of_not_mem (hno (by decide : '<' ∈ _)), trimMatches_of_forall hmatches,
      h.trim_eq]
  · rw [formatMailbox_named h hbare]
    -- the last brackets are those around the address
    have hopen : rfind '<' (shownName name ++ ' ' :: '<' :: email ++ ['>']) =
        some ((shownName name).length + 1) := by
      have hlast : '<' ∉ email ++ ['>'] := by simp [hno (by decide : '<' ∈ _)]
      have hcut := @rfind_append_cons '<' (shownName name ++ [' ']) _ hlast
      simpa using hcut
    have hclose : rfind '>' (shownName name ++ ' ' :: '<' :: email ++ ['>']) =
        some ((shownName name).length + 2 + email.length) := by
      have hcut := @rfind_append_cons '>' (shownName name ++ ' ' :: '<' :: email) []
        List.not_mem_nil
      rw [hcut]
      simp only [List.length_append, List.length_cons]
      congr 1
      omega
    simp only [hopen, hclose]
    rw [if_pos (by omega)]
    have hbetween : ((shownName name ++ ' ' :: '<' :: email ++ ['>']).take
        ((shownName name).length + 2 + email.length)).drop ((shownName name).length + 1 + 1) =
          email := by
      rw [show shownName name ++ ' ' :: '<' :: email ++ ['>'] =
        (shownName name ++ [' ', '<']) ++ (email ++ ['>']) by simp]
      rw [List.take_append, List.drop_append]
      simp
    rw [hbetween, h.trim_eq]

/-! ### The characters of a mailbox -/

variable {c : Char}

theorem mem_clean (h : c ∈ clean name) : c ∈ name ∧ isHeaderBreak c = false := by
  obtain ⟨hmem, hbreak⟩ := List.mem_filter.1 (mem_trim h)
  exact ⟨hmem, by simpa using hbreak⟩

theorem mem_clean_of_mem (h : c ∈ name) (hwhite : isWhitespace c = false)
    (hbreak : isHeaderBreak c = false) : c ∈ clean name :=
  mem_trim_of_mem (List.mem_filter.2 ⟨h, by rw [hbreak]; rfl⟩) hwhite

theorem mem_shownName (h : c ∈ shownName name) : c ∈ clean name ∨ c = '\\' ∨ c = '"' := by
  unfold shownName at h
  split at h
  · simp only [List.cons_append, List.mem_cons, List.mem_append, List.not_mem_nil, or_false,
      escapeName, List.mem_flatMap] at h
    rcases h with hquote | ⟨d, hd, hc⟩ | hquote
    · exact Or.inr (Or.inr hquote)
    · split at hc
      · rcases List.mem_pair.1 hc with rfl | rfl
        · exact Or.inr (Or.inl rfl)
        · exact Or.inl hd
      · exact Or.inl (List.mem_singleton.1 hc ▸ hd)
    · exact Or.inr (Or.inr hquote)
  · exact Or.inl h

theorem comma_mem_escapeName (h : ',' ∈ name) : ',' ∈ escapeName name :=
  List.mem_flatMap.2 ⟨',', h, by decide⟩

/-- An address has no comma, so it is not the name in another case. -/
theorem not_bare_of_comma (h : PlainAddress email) (hcomma : ',' ∈ name) : ¬ Bare name email := by
  have hclean := mem_clean_of_mem hcomma (by decide) (by decide)
  rintro (hempty | hsame)
  · rw [hempty] at hclean
    exact absurd hclean List.not_mem_nil
  · have hlower : ','.toLower ∈ email.map Char.toLower := by
      rw [← beq_iff_eq.1 hsame]
      exact List.mem_map_of_mem hclean
    obtain ⟨c, hc, hcomma⟩ := List.mem_map.1 hlower
    rcases Unicode.eq_or_isAlpha_of_toLower_eq hcomma with rfl | ⟨-, -, -, halpha⟩
    · exact h.noSeparator ',' hc (by decide)
    · exact absurd halpha (by decide)

theorem isHeaderBreak_of_mem_formatMailbox (h : PlainAddress email)
    (hc : c ∈ formatMailbox name email) : isHeaderBreak c = false := by
  by_cases hbare : Bare name email
  · rw [formatMailbox_bare h hbare] at hc
    exact h.noBreak c hc
  · rw [formatMailbox_named h hbare] at hc
    simp only [List.mem_append, List.mem_cons, List.not_mem_nil, or_false] at hc
    rcases hc with (hname | rfl | rfl | hemail) | rfl
    · rcases mem_shownName hname with hclean | rfl | rfl
      · exact (mem_clean hclean).2
      · rfl
      · rfl
    · rfl
    · rfl
    · exact h.noBreak c hemail
    · rfl

/-- The commas of a mailbox are those of its name. -/
theorem comma_mem_formatMailbox (h : PlainAddress email) :
    ',' ∈ formatMailbox name email ↔ ',' ∈ name := by
  constructor
  · intro hmem
    by_cases hbare : Bare name email
    · rw [formatMailbox_bare h hbare] at hmem
      exact absurd (by decide) (h.noSeparator ',' hmem)
    · rw [formatMailbox_named h hbare] at hmem
      simp only [List.mem_append, List.mem_cons, List.not_mem_nil, or_false] at hmem
      rcases hmem with (hname | hblank | hopen | hemail) | hclose
      · rcases mem_shownName hname with hclean | hescape | hquote
        · exact (mem_clean hclean).1
        · exact absurd hescape (by decide)
        · exact absurd hquote (by decide)
      · exact absurd hblank (by decide)
      · exact absurd hopen (by decide)
      · exact absurd (by decide) (h.noSeparator ',' hemail)
      · exact absurd hclose (by decide)
  · intro hcomma
    rw [formatMailbox_named h (not_bare_of_comma h hcomma)]
    have hclean := mem_clean_of_mem hcomma (by decide) (by decide)
    have hshown : ',' ∈ shownName name := by
      unfold shownName
      split
      · exact List.mem_cons_of_mem _ (List.mem_append_left _ (comma_mem_escapeName hclean))
      · exact hclean
    exact List.mem_append_left _ (List.mem_append_left _ hshown)

end Mailboxes

/-! ## A list is split where it was joined -/

namespace Splitter

/-- Outside quotes and brackets. -/
def between (out : List (List Char)) (current : List Char) : Splitter := ⟨out, current, false, false, 0⟩

variable {out : List (List Char)} {current text : List Char}

/-- Text without quotes, brackets and separators is pushed, also between brackets. -/
theorem foldl_read_plain (depth : Nat) (h : ∀ c ∈ text, c ∉ ['"', '<', '>']
      ∧ (depth = 0 → c ∉ [',', ';'])) :
    text.foldl read ⟨out, current, false, false, depth⟩ =
      ⟨out, current ++ text, false, false, depth⟩ := by
  induction text generalizing current with
  | nil => rw [List.append_nil]; rfl
  | cons c text ih =>
      obtain ⟨hmark, hsep⟩ := h c List.mem_cons_self
      simp only [List.mem_cons, List.not_mem_nil, or_false, not_or] at hmark hsep
      have hread : read ⟨out, current, false, false, depth⟩ c =
          ⟨out, current ++ [c], false, false, depth⟩ := by
        simp only [read, hmark, Bool.false_eq_true, if_false, and_false, false_and]
        rw [if_neg]
        rintro ⟨hcomma | hsemi, -, hdepth⟩
        · exact (hsep hdepth).1 hcomma
        · exact (hsep hdepth).2 hsemi
      rw [List.foldl_cons, hread, ih fun d hd => h d (List.mem_cons_of_mem _ hd),
        List.append_assoc]
      rfl

/-- An escaped name is pushed as a whole inside quotes. -/
theorem foldl_read_escapeName (name : List Char) :
    (escapeName name).foldl read ⟨out, current, true, false, 0⟩ =
      ⟨out, current ++ escapeName name, true, false, 0⟩ := by
  induction name generalizing current with
  | nil => rw [escapeName, List.flatMap_nil, List.append_nil]; rfl
  | cons c name ih =>
      rw [escapeName, List.flatMap_cons, List.foldl_append, ← escapeName]
      have hread : (if c = '\\' ∨ c = '"' then ['\\', c] else [c]).foldl read
          ⟨out, current, true, false, 0⟩ =
            ⟨out, current ++ (if c = '\\' ∨ c = '"' then ['\\', c] else [c]), true, false, 0⟩ := by
        split
        · -- the escape lets the next character pass
          simp [read]
        · rename_i hplain
          rw [not_or] at hplain
          simp [read, hplain]
      rw [hread, ih, List.append_assoc]

/-- The address between its brackets is pushed as a whole. -/
theorem foldl_read_brackets {email : List Char} (h : PlainAddress email) :
    ('<' :: email ++ ['>']).foldl read (between out current) =
      between out (current ++ ('<' :: email ++ ['>'])) := by
  have hopen : read (between out current) '<' = ⟨out, current ++ ['<'], false, false, 1⟩ := rfl
  have hplain : ∀ c ∈ email, c ∉ ['"', '<', '>'] ∧ (1 = 0 → c ∉ [',', ';']) := by
    intro c hc
    have hsep := h.noSeparator c hc
    simp only [List.mem_cons, List.not_mem_nil, or_false, not_or] at hsep ⊢
    exact ⟨⟨hsep.2.2.2.2, hsep.2.2.1, hsep.2.2.2.1⟩, fun h => absurd h one_ne_zero⟩
  have hclose : ∀ current, read ⟨out, current, false, false, 1⟩ '>' =
      between out (current ++ ['>']) := fun _ => rfl
  rw [List.cons_append, List.foldl_cons, hopen, List.foldl_append, foldl_read_plain 1 hplain,
    List.foldl_cons, List.foldl_nil, hclose]
  simp only [List.append_assoc, List.cons_append, List.nil_append]

/-- A shown name leaves the splitter between mailboxes. -/
theorem foldl_read_shownName (name : List Char) :
    (shownName name).foldl read (between out current) = between out (current ++ shownName name) := by
  unfold shownName
  split
  · have hopen : read (between out current) '"' = ⟨out, current ++ ['"'], true, false, 0⟩ := rfl
    have hclose : ∀ current, read ⟨out, current, true, false, 0⟩ '"' =
        between out (current ++ ['"']) := fun _ => rfl
    rw [List.cons_append, List.foldl_cons, hopen, List.foldl_append, foldl_read_escapeName,
      List.foldl_cons, List.foldl_nil, hclose]
    simp only [List.append_assoc, List.cons_append, List.nil_append]
  · rename_i hplain
    refine foldl_read_plain 0 fun c hc => ?_
    have hspecial : nameSpecials.contains c = false := by
      rw [Bool.not_eq_true, List.any_eq_false] at hplain
      exact Bool.eq_false_iff.2 (hplain c hc)
    simp [nameSpecials] at hspecial
    simp [hspecial]

/-- So does a mailbox. -/
theorem foldl_read_formatMailbox {name email : List Char} (h : PlainAddress email) :
    (formatMailbox name email).foldl read (between out current) =
      between out (current ++ formatMailbox name email) := by
  by_cases hbare : Bare name email
  · rw [formatMailbox_bare h hbare]
    refine foldl_read_plain 0 fun c hc => ?_
    have hsep := h.noSeparator c hc
    simp only [List.mem_cons, List.not_mem_nil, or_false, not_or] at hsep ⊢
    exact ⟨⟨hsep.2.2.2.2, hsep.2.2.1, hsep.2.2.2.1⟩, fun _ => ⟨hsep.1, hsep.2.1⟩⟩
  · have hspace : ∀ current, read (between out current) ' ' = between out (current ++ [' ']) :=
      fun _ => rfl
    rw [formatMailbox_named h hbare, List.append_assoc, List.foldl_append, foldl_read_shownName,
      List.cons_append, List.foldl_cons, hspace, foldl_read_brackets h]
    simp only [List.append_assoc, List.cons_append, List.nil_append]

end Splitter

/-- **A list of mailboxes is split where it was joined**, whatever the names are. -/
theorem splitAddressList_join {mailboxes : List (List Char × List Char)}
    (h : ∀ m ∈ mailboxes, PlainAddress m.2) :
    splitAddressList (joinMailboxes mailboxes) = mailboxes.map fun m => formatMailbox m.1 m.2 := by
  -- what a mailbox follows is nothing, or the blank after a comma
  have hflush : ∀ (out : List (List Char)) (current : List Char) (m : List Char × List Char),
      PlainAddress m.2 → current = [] ∨ current = [' '] →
      (Splitter.between out (current ++ formatMailbox m.1 m.2)).flush =
        Splitter.between (out ++ [formatMailbox m.1 m.2]) [] := by
    intro out current m hm hcurrent
    have hpart : trim (current ++ formatMailbox m.1 m.2) = formatMailbox m.1 m.2 := by
      rcases hcurrent with rfl | rfl
      · exact (trim_formatMailbox hm).1
      · rw [List.singleton_append, trim_cons_of_whitespace (by decide), (trim_formatMailbox hm).1]
    simp only [Splitter.flush, Splitter.between, hpart, if_neg (trim_formatMailbox hm).2]
  have hsplit : ∀ (out : List (List Char)) (current : List Char),
      current = [] ∨ current = [' '] →
      ((joinMailboxes mailboxes).foldl Splitter.read (Splitter.between out current)).flush.out =
        out ++ mailboxes.map fun m => formatMailbox m.1 m.2 := by
    induction mailboxes with
    | nil =>
        intro out current hcurrent
        rw [List.map_nil, List.append_nil]
        rcases hcurrent with rfl | rfl <;> rfl
    | cons m rest ih =>
        intro out current hcurrent
        have hm := h m List.mem_cons_self
        cases rest with
        | nil =>
            rw [joinMailboxes, List.map_singleton, List.intercalate_singleton,
              Splitter.foldl_read_formatMailbox hm, hflush out current m hm hcurrent]
            rfl
        | cons next rest =>
            have hcomma : ∀ out current, (Splitter.between out current).read ',' =
                (Splitter.between out current).flush := fun _ _ => rfl
            have hblank : ∀ out, (Splitter.between out []).read ' ' =
                Splitter.between out [' '] := fun _ => rfl
            have hrest := ih (fun m' hm' => h m' (List.mem_cons_of_mem _ hm'))
              (out ++ [formatMailbox m.1 m.2]) [' '] (Or.inr rfl)
            rw [joinMailboxes, List.map_cons] at hrest
            rw [joinMailboxes, List.map_cons, List.map_cons, List.intercalate_cons_cons,
              List.append_assoc, List.foldl_append, Splitter.foldl_read_formatMailbox hm,
              List.foldl_append, List.foldl_cons, List.foldl_cons, List.foldl_nil, hcomma,
              hflush out current m hm hcurrent, hblank, hrest, List.append_assoc]
            rfl
  exact hsplit [] [] (Or.inl rfl)

/-- The addresses of a JMAP list. -/
def reportedEmails (list : Json) : List String :=
  ((list.asArray).getD []).filterMap fun m => (m.get? "email").bind Json.asStr

/-- `jmap_addresses` reports the mailboxes of a list in order. -/
theorem jmapAddresses_join {mailboxes : List (List Char × List Char)}
    (h : ∀ m ∈ mailboxes, PlainAddress m.2) :
    reportedEmails (jmapAddresses (some (joinMailboxes mailboxes))) =
      mailboxes.map fun m => String.ofList m.2 := by
  have hlist : ∀ list : List Json, reportedEmails (if list.isEmpty then .null else .array list) =
      list.filterMap fun m => (m.get? "email").bind Json.asStr := by
    intro list
    cases list <;> rfl
  simp only [jmapAddresses, splitAddressList_join h, hlist]
  rw [List.filterMap_map, List.filterMap_filterMap]
  induction mailboxes with
  | nil => rfl
  | cons m rest ih =>
      have hm := h m List.mem_cons_self
      rw [List.filterMap_cons, List.map_cons, ih fun m' hm' => h m' (List.mem_cons_of_mem _ hm')]
      simp only [Function.comp, parseMailbox_formatMailbox hm, if_neg hm.nonempty]
      rfl

end AsterBridge.Address
