import AsterBridge.Address

/-!
# Address lists

What `format_mailbox` has written, `parse_mailbox` reads back: the escapes of a quoted name
are undone, and the name is the one that was written, as long as it has no quote at an end.
A text that `address_text` has returned for such mailboxes is therefore one that it keeps.
-/

set_option autoImplicit false

namespace AsterBridge.Address

open AsterBridge.Lib AsterBridge.Lib.Text

/-! ## Names -/

/-- The name that a reader finds in a mailbox: the clean name, and none where it is the
address. -/
def readName (name email : List Char) : List Char := if Bare name email then [] else clean name

/-- A quote at an end. -/
def QuoteEnded (name : List Char) : Prop := name.head? = some '"' ∨ name.getLast? = some '"'

section Names

variable {name email cs : List Char}

/-- Reading takes off the escapes that writing has put on. -/
theorem unescape_escapeName (name : List Char) : unescape (escapeName name) = name := by
  induction name with
  | nil => rfl
  | cons c name ih =>
      rw [escapeName, List.flatMap_cons, ← escapeName]
      split
      case isTrue hescaped => rw [List.cons_append, List.cons_append, unescape, List.nil_append, ih]
      case isFalse hplain =>
        have hc : c ≠ '\\' := fun heq => hplain (.inl heq)
        rw [List.singleton_append, unescape, ih]
        · exact fun heq _ => absurd heq hc
        · exact fun _ _ heq => absurd heq hc

theorem unescape_of_notMem (h : '\\' ∉ cs) : unescape cs = cs := by
  induction cs with
  | nil => rfl
  | cons c cs ih =>
      have hc : c ≠ '\\' := fun heq => h (heq ▸ List.mem_cons_self)
      rw [unescape, ih fun hmem => h (List.mem_cons_of_mem _ hmem)]
      · exact fun heq _ => absurd heq hc
      · exact fun _ _ heq => absurd heq hc

/-- Without a quote at an end there is none to take off. -/
theorem trimMatches_quotes (h : ¬QuoteEnded name) : trimMatches (· == '"') name = name := by
  obtain ⟨hhead, hlast⟩ := not_or.1 h
  have hstart : name.dropWhile (· == '"') = name := by
    rw [List.dropWhile_eq_self_iff]
    intro hpos hquote
    exact hhead (List.head?_eq_getElem?.trans
      ((List.getElem?_eq_getElem hpos).trans (congrArg some (beq_iff_eq.1 hquote))))
  rw [trimMatches, hstart, List.rdropWhile_eq_self_iff]
  intro hne hquote
  exact hlast ((List.getLast?_eq_some_getLast hne).trans (congrArg some (beq_iff_eq.1 hquote)))

theorem clean_clean (name : List Char) : clean (clean name) = clean name := by
  have hfilter : ((clean name).filter fun c => !isHeaderBreak c) = clean name := by
    rw [List.filter_eq_self]
    intro c hc
    rw [(mem_clean hc).2]
    rfl
  conv_lhs => rw [clean, hfilter]
  rw [clean, trim_trim]

theorem trim_clean (name : List Char) : trim (clean name) = clean name := trim_trim _

/-- The shown name, with the blank that follows it, is read as the clean name. -/
theorem unquoteName_shownName (hne : clean name ≠ []) (h : ¬QuoteEnded (clean name)) :
    unquoteName (shownName name ++ [' ']) = clean name := by
  have hblank : ∀ cs : List Char, cs ≠ [] → trim cs = cs → trim (cs ++ [' ']) = cs := by
    intro cs hcs htrim
    rw [← htrim] at hcs
    obtain ⟨⟨c, hc, hwhite⟩, d, hd, hdwhite⟩ := trim_ends hcs
    rw [htrim] at hc hd
    obtain ⟨rest, rfl⟩ := List.head?_eq_some_iff.1 hc
    rw [trim, trimStart, List.cons_append, List.dropWhile_cons_of_neg (by rw [hwhite]; decide),
      ← List.cons_append, trimEnd, List.rdropWhile_concat_pos _ _ _ (by decide), ← trimEnd,
      trimEnd, rdropWhile_of_last hd hdwhite]
  have hinner : ∀ inner, unescape inner = clean name →
      trim (trimMatches (· == '"') (trim (unescape inner))) = clean name := by
    intro inner hunescape
    rw [hunescape, trim_clean, trimMatches_quotes h, trim_clean]
  unfold shownName
  split
  case isTrue hspecial =>
    have htrim : trim ('"' :: escapeName (clean name) ++ ['"']) =
        '"' :: escapeName (clean name) ++ ['"'] :=
      trim_of_ends ⟨'"', rfl, by decide⟩ ⟨'"', List.getLast?_concat, by decide⟩
    have hquoted : ('"' :: escapeName (clean name) ++ ['"']).head? = some '"' := rfl
    rw [unquoteName, hblank _ (by simp) htrim]
    rw [if_pos ⟨by simp, hquoted, List.getLast?_concat⟩, List.cons_append, List.drop_succ_cons,
      List.drop_zero, List.dropLast_concat]
    exact hinner _ (unescape_escapeName _)
  case isFalse hplain =>
    have hbackslash : '\\' ∉ clean name := by
      intro hmem
      exact hplain (List.any_eq_true.2 ⟨_, hmem, by decide⟩)
    rw [unquoteName, hblank _ hne (trim_clean name)]
    rw [if_neg fun hquoted => h (.inl hquoted.2.1)]
    exact hinner _ (unescape_of_notMem hbackslash)

end Names

/-! ## Mailboxes -/

section Mailboxes

variable {name email : List Char}

/-- **A mailbox is read back**, if its name has no quote at an end. -/
theorem parseMailbox_eq (h : PlainAddress email) (hname : ¬QuoteEnded (clean name)) :
    parseMailbox (formatMailbox name email) = (readName name email, email) := by
  refine Prod.ext ?_ (parseMailbox_formatMailbox h)
  have hno : ∀ {c}, c ∈ [',', ';', '<', '>', '"'] → c ∉ email := fun hc hmem =>
    h.noSeparator _ hmem hc
  rw [parseMailbox, (trim_formatMailbox h).1, readName]
  by_cases hbare : Bare name email
  · rw [formatMailbox_bare h hbare, if_pos hbare, rfind_of_not_mem (hno (by decide : '<' ∈ _))]
  · rw [formatMailbox_named h hbare, if_neg hbare]
    have hopen : rfind '<' (shownName name ++ ' ' :: '<' :: email ++ ['>']) =
        some ((shownName name).length + 1) := by
      have hlast : '<' ∉ email ++ ['>'] := by simp [hno (by decide : '<' ∈ _)]
      have hcut := @rfind_append_cons '<' (shownName name ++ [' ']) _ hlast
      simpa using hcut
    have hclose : rfind '>' (shownName name ++ ' ' :: '<' :: email ++ ['>']) =
        some ((shownName name).length + 2 + email.length) := by
      have hcut := @rfind_append_cons '>' (shownName name ++ ' ' :: '<' :: email) []
        List.not_mem_nil
      rw [hcut, List.length_append, List.length_cons, List.length_cons]
      exact congrArg some (by omega)
    have hbefore : (shownName name ++ ' ' :: '<' :: email ++ ['>']).take
        ((shownName name).length + 1) = shownName name ++ [' '] := by
      rw [List.append_assoc, List.cons_append, List.append_cons,
        List.take_left' (by rw [List.length_append, List.length_singleton])]
    have hlt : (shownName name).length + 1 < (shownName name).length + 2 + email.length := by
      omega
    simp only [hopen, hclose, if_pos hlt, hbefore]
    exact unquoteName_shownName (fun hempty => hbare (.inl hempty)) hname

theorem formatMailbox_clean (name email : List Char) :
    formatMailbox name (clean email) = formatMailbox name email := by
  unfold formatMailbox
  rw [clean_clean]

/-- A name as it was read is written as it was. -/
theorem formatMailbox_readName (h : PlainAddress email) :
    formatMailbox (readName name email) email = formatMailbox name email := by
  unfold readName
  split
  case isTrue hbare =>
    rw [formatMailbox_bare h hbare, formatMailbox_bare h (.inl rfl)]
  case isFalse =>
    unfold formatMailbox
    rw [clean_clean]

end Mailboxes

/-! ## Lists -/

/-- A mailbox as `jmap_addresses` lists it. -/
def jmapMailbox (name email : List Char) : Json :=
  .object [
    ("name", if name = [] then .null else .string (String.ofList name)),
    ("email", .string (String.ofList email))]

/-- A list of mailboxes as `jmap_addresses` gives it. -/
def jmapList (mailboxes : List (List Char × List Char)) : Json :=
  if mailboxes = [] then .null
  else .array (mailboxes.map fun m => jmapMailbox (readName m.1 m.2) m.2)

theorem jmapAddresses_eq {mailboxes : List (List Char × List Char)}
    (h : ∀ m ∈ mailboxes, PlainAddress m.2 ∧ ¬QuoteEnded (clean m.1)) :
    jmapAddresses (some (joinMailboxes mailboxes)) = jmapList mailboxes := by
  unfold jmapAddresses jmapList
  dsimp only
  rw [splitAddressList_join fun m hm => (h m hm).1, List.filterMap_map,
    List.filterMap_congr (g := some ∘ fun m => jmapMailbox (readName m.1 m.2) m.2),
    List.filterMap_eq_map]
  · cases mailboxes <;> rfl
  · intro m hm
    obtain ⟨hplain, hname⟩ := h m hm
    simp only [Function.comp, parseMailbox_eq hplain hname, if_neg hplain.nonempty]
    rfl

mutual

/-- The mailboxes of a value, as `value_entries` finds them. -/
def mailboxesOf : Json → List (List Char × List Char)
  | .string s => (splitAddressList s.toList).map parseMailbox
  | .array items => itemMailboxes items
  | .object members =>
      let email := (((members.lookup "email").or (members.lookup "address")).bind Json.asStr).getD ""
      let name := ((members.lookup "name").bind Json.asStr).getD ""
      [(name.toList, email.toList)]
  | _ => []

/-- The mailboxes of the items of an array. -/
def itemMailboxes : List Json → List (List Char × List Char)
  | [] => []
  | item :: items => mailboxesOf item ++ itemMailboxes items

end

/-- The mailboxes as text, without those that have no address. -/
def writtenMailboxes (mailboxes : List (List Char × List Char)) : List (List Char) :=
  (mailboxes.map fun m => formatMailbox m.1 m.2).filter (· ≠ [])

theorem writtenMailboxes_append (ms ms' : List (List Char × List Char)) :
    writtenMailboxes (ms ++ ms') = writtenMailboxes ms ++ writtenMailboxes ms' := by
  rw [writtenMailboxes, List.map_append, List.filter_append]
  rfl

mutual

/-- The entries of a value are its mailboxes as text. -/
theorem valueEntries_eq (v : Json) : valueEntries v = writtenMailboxes (mailboxesOf v) := by
  cases v with
  | string s =>
      rw [valueEntries, mailboxesOf, writtenMailboxes, List.map_map]
      rfl
  | array items =>
      rw [valueEntries, mailboxesOf]
      exact itemEntries_eq items
  | object members =>
      rw [valueEntries, mailboxesOf, writtenMailboxes]
      split
      case isTrue hempty => simp [hempty]
      case isFalse hne => simp [hne]
  | null => rfl
  | bool b => rfl
  | number n => rfl

theorem itemEntries_eq (items : List Json) :
    itemEntries items = writtenMailboxes (itemMailboxes items) := by
  cases items with
  | nil => rfl
  | cons item items =>
      rw [itemEntries, itemMailboxes, writtenMailboxes_append, valueEntries_eq item,
        itemEntries_eq items]

end

/-- A mailbox that is read as it was written: none at all, or one with a plain address and no
quote at an end of its name. -/
def ReadsBack (m : List Char × List Char) : Prop :=
  clean m.2 = [] ∨ PlainAddress (clean m.2) ∧ ¬QuoteEnded (clean m.1)

section Texts

variable {mailboxes : List (List Char × List Char)} {s : List Char}

/-- The text of mailboxes that are read back: those with an address, joined. -/
theorem writtenMailboxes_eq (h : ∀ m ∈ mailboxes, ReadsBack m) :
    ∃ plain : List (List Char × List Char),
      (∀ m ∈ plain, PlainAddress m.2 ∧ ¬QuoteEnded (clean m.1)) ∧
        writtenMailboxes mailboxes = plain.map fun m => formatMailbox m.1 m.2 := by
  induction mailboxes with
  | nil => exact ⟨[], fun m hm => absurd hm List.not_mem_nil, rfl⟩
  | cons m mailboxes ih =>
      obtain ⟨plain, hall, heq⟩ := ih fun m' hm' => h m' (List.mem_cons_of_mem _ hm')
      have hcons : writtenMailboxes (m :: mailboxes) =
          writtenMailboxes [m] ++ writtenMailboxes mailboxes := writtenMailboxes_append [m] _
      rw [hcons, heq]
      rcases h m List.mem_cons_self with hempty | ⟨hplain, hname⟩
      · have hnone : formatMailbox m.1 m.2 = [] := by
          rw [formatMailbox, hempty]
          rfl
        refine ⟨plain, hall, ?_⟩
        rw [writtenMailboxes, List.map_singleton, hnone]
        rfl
      · refine ⟨(m.1, clean m.2) :: plain, List.forall_mem_cons.2 ⟨⟨hplain, hname⟩, hall⟩, ?_⟩
        have hne := (@trim_formatMailbox m.1 _ hplain).2
        rw [formatMailbox_clean] at hne
        rw [writtenMailboxes, List.map_singleton, List.map_cons, formatMailbox_clean]
        simp [hne]

/-- A text of plain mailboxes has the same entries again. -/
theorem valueEntries_join (h : ∀ m ∈ mailboxes, PlainAddress m.2 ∧ ¬QuoteEnded (clean m.1)) :
    valueEntries (.string (String.ofList (joinMailboxes mailboxes))) =
      mailboxes.map fun m => formatMailbox m.1 m.2 := by
  have hagain : (mailboxes.map fun m => formatMailbox m.1 m.2).map
      (fun a => formatMailbox (parseMailbox a).1 (parseMailbox a).2) =
        mailboxes.map fun m => formatMailbox m.1 m.2 := by
    rw [List.map_map]
    apply List.map_congr_left
    intro m hm
    obtain ⟨hplain, hname⟩ := h m hm
    rw [Function.comp, parseMailbox_eq hplain hname, formatMailbox_readName hplain]
  rw [valueEntries, String.toList_ofList, splitAddressList_join fun m hm => (h m hm).1,
    hagain, List.filter_eq_self]
  intro entry hentry
  obtain ⟨m, hm, rfl⟩ := List.mem_map.1 hentry
  exact decide_eq_true (trim_formatMailbox (h m hm).1).2

/-- A text that was returned for mailboxes that are read back is returned again. -/
theorem addressText_again {v : Json} (h : ∀ m ∈ mailboxesOf v, ReadsBack m)
    (hs : addressText (some v) = some s) :
    addressText (some (.string (String.ofList s))) = some s := by
  obtain ⟨plain, hplain, hwritten⟩ := writtenMailboxes_eq h
  rw [addressText, Option.map_some, Option.bind_some, valueEntries_eq, hwritten] at hs
  split at hs
  case isTrue => exact nomatch hs
  case isFalse hne =>
    obtain rfl := Option.some.inj hs
    rw [addressText, Option.map_some, Option.bind_some, ← joinMailboxes,
      valueEntries_join hplain, if_neg hne]
    rfl

end Texts

/-- **Address lists round-trip**: a list of mailboxes with plain addresses is split where it
was joined, its mailboxes are read back and listed if no name has a quote at an end, and the
text of such mailboxes is one that `address_text` keeps. -/
theorem address_lists_round_trip :
    (∀ mailboxes : List (List Char × List Char), (∀ m ∈ mailboxes, PlainAddress m.2) →
      splitAddressList (joinMailboxes mailboxes) =
        mailboxes.map fun m => formatMailbox m.1 m.2) ∧
    (∀ name email : List Char, PlainAddress email → ¬QuoteEnded (clean name) →
      parseMailbox (formatMailbox name email) = (readName name email, email)) ∧
    (∀ mailboxes : List (List Char × List Char),
      (∀ m ∈ mailboxes, PlainAddress m.2 ∧ ¬QuoteEnded (clean m.1)) →
      jmapAddresses (some (joinMailboxes mailboxes)) = jmapList mailboxes) ∧
    (∀ (v : Json) (s : List Char), (∀ m ∈ mailboxesOf v, ReadsBack m) →
      addressText (some v) = some s → addressText (some (.string (String.ofList s))) = some s) :=
  ⟨fun _ => splitAddressList_join, fun _ _ => parseMailbox_eq, fun _ => jmapAddresses_eq,
    fun _ _ => addressText_again⟩

/-- `h@x` -/
def hostX : List Char := ['h', '@', 'x']

theorem plainAddress_hostX : PlainAddress hostX := by
  refine ⟨List.cons_ne_nil _ _, ?_, ?_, ?_⟩
  all_goals
    intro c hc
    simp only [hostX, List.mem_cons, List.not_mem_nil, or_false] at hc
    rcases hc with rfl | rfl | rfl <;> decide

/-- The name `\` and the name of a list member with a comma are read back, and the text of
both is kept. -/
theorem backslash_is_read_back :
    parseMailbox (formatMailbox ['\\'] hostX) = (readName ['\\'] hostX, hostX) ∧
    splitAddressList (joinMailboxes [(['a', ',', 'b'], hostX)]) =
      [formatMailbox ['a', ',', 'b'] hostX] ∧
    jmapAddresses (some (joinMailboxes [(['a', ',', 'b'], hostX)])) =
      jmapList [(['a', ',', 'b'], hostX)] ∧
    addressText (some (.string (String.ofList hostX))) = some hostX := by
  have hplain : ∀ m ∈ [(['a', ',', 'b'], hostX)], PlainAddress m.2 ∧ ¬QuoteEnded (clean m.1) := by
    intro m hm
    obtain rfl := List.mem_singleton.1 hm
    exact ⟨plainAddress_hostX, by unfold QuoteEnded; decide⟩
  have hback : ∀ m ∈ mailboxesOf (.string "h@x"), ReadsBack m := by
    have hone : mailboxesOf (.string "h@x") = [([], hostX)] := by decide
    intro m hm
    rw [hone] at hm
    obtain rfl := List.mem_singleton.1 hm
    exact .inr ⟨plainAddress_hostX, by unfold QuoteEnded; decide⟩
  exact ⟨address_lists_round_trip.2.1 _ _ plainAddress_hostX (by unfold QuoteEnded; decide),
    address_lists_round_trip.1 _ fun m hm => (hplain m hm).1,
    address_lists_round_trip.2.2.1 _ hplain,
    address_lists_round_trip.2.2.2 _ _ hback (by decide)⟩

/-- The name `Say "hi"` loses its last quote, and the text `a,b` of the address in `<a,b>` is
not one that `address_text` keeps. -/
theorem last_quote_is_lost :
    PlainAddress hostX ∧
    readName "Say \"hi\"".toList hostX = "Say \"hi\"".toList ∧
    parseMailbox (formatMailbox "Say \"hi\"".toList hostX) = ("Say \"hi".toList, hostX) ∧
    addressText (some (.string "<a,b>")) = some "a,b".toList ∧
    addressText (some (.string "a,b")) = some "a, b".toList :=
  ⟨plainAddress_hostX, by decide, by decide, by decide, by decide⟩

end AsterBridge.Address
