import AsterBridge.Dav.ReadCard

/-!
# Contacts survive the card

What `vcard_to_contact` reads, `contact_to_vcard` writes so that it reads the same again
(`vcard_round_trip`), for every card in which a CR is always followed by LF. A contact that was
read is canonical; the properties of a canonical contact are read one section of the card after
the other, each into its own fields (`readContact_contactToVcard`).
-/

set_option autoImplicit false

namespace AsterBridge.Dav

open AsterBridge.Lib AsterBridge.Lib.Text AsterBridge.Lib.Lines AsterBridge.Lib.Unicode

/-! ## The map of a contact -/

section Map

variable {c : Contact} {key : String} {s : List Char}

theorem lookup_optional {α β : Type} (g : α → Option β) (l : List (String × α))
    (hnodup : (l.map Prod.fst).Nodup) (key : String) :
    (l.filterMap fun e => (g e.2).map (e.1, ·)).lookup key = (l.lookup key).bind g := by
  induction l with
  | nil => rfl
  | cons e l ih =>
      obtain ⟨name, a⟩ := e
      rw [List.map_cons, List.nodup_cons] at hnodup
      have hrest := ih hnodup.2
      rw [List.filterMap_cons, List.lookup_cons]
      dsimp only
      cases hkey : key == name with
      | true =>
          obtain rfl := eq_of_beq hkey
          cases hg : g a with
          | none =>
              -- the other names differ
              have hnone : l.lookup key = none := by
                rw [List.lookup_eq_none_iff]
                intro p hp
                rw [bne_iff_ne]
                rintro rfl
                exact hnodup.1 (List.mem_map.2 ⟨p, hp, rfl⟩)
              rw [Option.map_none, hrest, hnone, Option.bind_some, hg]
              rfl
          | some b => simp [hg]
      | false =>
          cases hg : g a with
          | none => simpa using hrest
          | some b =>
              rw [Option.map_some, List.lookup_cons, hkey]
              exact hrest

/-- A member of the map is a fixed one, the first address, a text or a list. -/
theorem get?_toJson (c : Contact) (key : String) :
    c.toJson.get? key = (c.fixed.lookup key).or
      (((c.addressEntries.head?.map fun e => ("address", e.toJson)).toList.lookup key).or
        (((c.texts.lookup key).bind optionalText).or
          ((c.lists.lookup key).bind optionalList))) := by
  have htexts : (c.texts.map Prod.fst).Nodup :=
    show (Contact.empty.texts.map Prod.fst).Nodup by decide
  have hlists : (c.lists.map Prod.fst).Nodup :=
    show (Contact.empty.lists.map Prod.fst).Nodup by decide
  unfold Contact.toJson Json.get?
  dsimp only
  rw [List.lookup_append, List.lookup_append, List.lookup_append, lookup_optional _ _ htexts,
    lookup_optional _ _ hlists, Option.or_assoc, Option.or_assoc]

theorem lookup_address (c : Contact) (hne : key ≠ "address") :
    (c.addressEntries.head?.map fun e => ("address", e.toJson)).toList.lookup key = none := by
  cases c.addressEntries.head? with
  | none => rfl
  | some e =>
      rw [Option.map_some, Option.toList_some, List.lookup_cons, beq_eq_false_iff_ne.2 hne]
      rfl

/-- A text of the contact is read from its map, also where it is empty and left out. -/
theorem stringField_text (hne : key ≠ "address") (hfixed : c.fixed.lookup key = none)
    (htext : c.texts.lookup key = some s) (hlist : c.lists.lookup key = none) :
    stringField c.toJson key = s := by
  unfold stringField
  rw [get?_toJson, hfixed, lookup_address c hne, htext, hlist, Option.bind_some]
  unfold optionalText
  split
  · rename_i hnil
    rw [hnil]
    rfl
  · show (String.ofList s).toList = s
    exact String.toList_ofList

theorem stringField_fixed (hfixed : c.fixed.lookup key = some (textJson s)) :
    stringField c.toJson key = s := by
  unfold stringField
  rw [get?_toJson, hfixed]
  show (String.ofList s).toList = s
  exact String.toList_ofList

theorem entries_list {list : List Json} (hne : key ≠ "address")
    (hfixed : c.fixed.lookup key = none) (htext : c.texts.lookup key = none)
    (hlist : c.lists.lookup key = some list) : entries c.toJson key = list := by
  unfold entries
  rw [get?_toJson, hfixed, lookup_address c hne, htext, hlist]
  cases list with
  | nil => rfl
  | cons e list => rfl

theorem stringField_value (e : TypedValue) : stringField e.toJson "value" = e.value :=
  String.toList_ofList

theorem stringField_type (e : TypedValue) : stringField e.toJson "type" = e.type.toList := rfl

theorem addressParts_toJson (e : AddressEntry) : addressParts e.toJson =
    [[], [], e.street, e.city, e.state, e.postalCode, e.country] := by
  have hstreet : stringField e.toJson "street" = e.street := String.toList_ofList
  have hcity : stringField e.toJson "city" = e.city := String.toList_ofList
  have hstate : stringField e.toJson "state" = e.state := String.toList_ofList
  have hcode : stringField e.toJson "postal_code" = e.postalCode := String.toList_ofList
  have hcountry : stringField e.toJson "country" = e.country := String.toList_ofList
  rw [addressParts, hstreet, hcity, hstate, hcode, hcountry]

end Map

/-! ## Types -/

/-- A type as the bridge writes it: small ASCII letters. -/
def IsWord (w : List Char) : Prop := w ≠ [] ∧ w.all (fun c => c.toNat < 0x80 && c.isLower) = true

instance decidableIsWord (w : List Char) : Decidable (IsWord w) := instDecidableAnd

section Words

variable {T : CaseMaps} {w : List Char} {ws : List (List Char)} {c : Char}

/-- A type in capitals. -/
def capitals (w : List Char) : List Char := w.map Char.toUpper

theorem capital_plain (hascii : c.toNat < 0x80) (h : c.isLower = true) :
    c.toUpper ∉ (['"', ',', ';', ':'] : List Char) ∧ isControl c.toUpper = false ∧
      isWhitespace c.toUpper = false ∧ c.toUpper.toLower = c ∧ c.toUpper.toNat < 0x80 :=
  ascii_forall (P := fun c => c.isLower = true →
    c.toUpper ∉ (['"', ',', ';', ':'] : List Char) ∧ isControl c.toUpper = false ∧
      isWhitespace c.toUpper = false ∧ c.toUpper.toLower = c ∧ c.toUpper.toNat < 0x80)
    (by decide +kernel) hascii h

theorem IsWord.char (h : IsWord w) (hc : c ∈ w) : c.toNat < 0x80 ∧ c.isLower = true := by
  simpa using List.all_eq_true.1 h.2 c hc

theorem IsWord.toUppercase (h : IsWord w) (T : CaseMaps) : T.toUppercase w = capitals w :=
  T.toUppercase_ascii fun _ hc => (h.char hc).1

/-- What a character of a capital word is. -/
theorem IsWord.capital (h : IsWord w) (hc : c ∈ capitals w) :
    c ∉ (['"', ',', ';', ':'] : List Char) ∧ isControl c = false ∧ isWhitespace c = false ∧
      c.toNat < 0x80 := by
  obtain ⟨d, hd, rfl⟩ := List.mem_map.1 hc
  obtain ⟨hascii, hlower⟩ := h.char hd
  obtain ⟨hplain, hcontrol, hwhite, -, hsmall⟩ := capital_plain hascii hlower
  exact ⟨hplain, hcontrol, hwhite, hsmall⟩

theorem IsWord.capitals_ne_nil (h : IsWord w) : capitals w ≠ [] := by
  simpa [capitals] using h.1

theorem IsWord.ends (h : IsWord w) : Ends (capitals w) := by
  have hne := h.capitals_ne_nil
  constructor
  · exact ⟨_, List.head?_eq_some_head hne, (h.capital (List.head_mem hne)).2.2.1⟩
  · exact ⟨_, List.getLast?_eq_some_getLast hne, (h.capital (List.getLast_mem hne)).2.2.1⟩

theorem IsWord.not_mem (h : IsWord w) (hc : c ∈ (['"', ',', ';', ':'] : List Char)) :
    c ∉ capitals w :=
  fun hmem => (h.capital hmem).1 hc

theorem IsWord.toLowercase (h : IsWord w) (T : CaseMaps) : T.toLowercase (capitals w) = w := by
  rw [T.toLowercase_ascii fun _ hc => (h.capital hc).2.2.2, capitals, List.map_map]
  have hall : ∀ c ∈ w, (Char.toLower ∘ Char.toUpper) c = c := by
    intro c hc
    obtain ⟨hascii, hlower⟩ := h.char hc
    exact (capital_plain hascii hlower).2.2.2.1
  exact (List.map_congr_left hall).trans (List.map_id' w)

theorem IsWord.paramItem (h : IsWord w) : paramItem (capitals w) = some (capitals w) := by
  have hfilter : (capitals w).filter (fun c => !isControl c && c != '"') = capitals w := by
    rw [List.filter_eq_self]
    intro c hc
    obtain ⟨hplain, hcontrol, -⟩ := h.capital hc
    have hquote : c ≠ '"' := by
      rintro rfl
      exact hplain (by decide)
    simp [hcontrol, hquote]
  have hseparator : ¬(';' ∈ capitals w ∨ ':' ∈ capitals w) := by
    rintro (hmem | hmem)
    · exact h.not_mem (by decide) hmem
    · exact h.not_mem (by decide) hmem
  unfold Dav.paramItem
  rw [hfilter, h.ends.trim]
  dsimp only
  rw [if_neg h.capitals_ne_nil, if_neg hseparator]

theorem trimQuotes_of_not_mem {s : List Char} (h : '"' ∉ s) : trimQuotes s = s := by
  have hall : ∀ c ∈ s, (c == '"') = false := by
    intro c hc
    rw [beq_eq_false_iff_ne]
    rintro rfl
    exact h hc
  have hstart : s.dropWhile (· == '"') = s := by
    cases s with
    | nil => rfl
    | cons c s => rw [List.dropWhile_cons, hall c List.mem_cons_self, if_neg (by simp)]
  unfold trimQuotes
  rw [hstart]
  rcases List.eq_nil_or_concat s with rfl | ⟨before, c, rfl⟩
  · rfl
  · rw [List.concat_eq_append, List.rdropWhile_concat_neg]
    simp [hall c (by simp)]

/-- A list of types as the value of a parameter. -/
def typeList (ws : List (List Char)) : List Char := [','].intercalate (ws.map capitals)

theorem splitOn_typeList (hne : ws ≠ []) (h : ∀ w ∈ ws, IsWord w) :
    (typeList ws).splitOn ',' = ws.map capitals := by
  apply List.splitOn_intercalate
  · intro piece hpiece
    obtain ⟨w, hw, rfl⟩ := List.mem_map.1 hpiece
    exact (h w hw).not_mem (by decide)
  · simpa using hne

theorem paramListValue_typeList (hne : ws ≠ []) (h : ∀ w ∈ ws, IsWord w) :
    paramListValue (typeList ws) = typeList ws := by
  have hitems : (ws.map capitals).filterMap paramItem = ws.map capitals := by
    rw [List.filterMap_map]
    have hsome : ∀ w ∈ ws, (paramItem ∘ capitals) w = some (capitals w) :=
      fun w hw => (h w hw).paramItem
    rw [List.filterMap_congr hsome, List.filterMap_eq_map']
  rw [paramListValue, splitOn_typeList hne h, hitems, typeList]

theorem typeList_ne_nil (hne : ws ≠ []) (h : ∀ w ∈ ws, IsWord w) : typeList ws ≠ [] := by
  intro hnil
  have hsplit := splitOn_typeList hne h
  rw [hnil] at hsplit
  cases ws with
  | nil => exact hne rfl
  | cons w ws =>
      have hw := h w List.mem_cons_self
      cases ws with
      | nil => exact hw.capitals_ne_nil (List.cons.inj hsplit).1.symm
      | cons v ws => exact absurd (congrArg List.length hsplit) (by simp)

/-- **The types of a written property are the words that were written.** -/
theorem types_typeList (T : CaseMaps) (hne : ws ≠ []) (h : ∀ w ∈ ws, IsWord w)
    {p : VCardProperty} (hp : p.params = [("TYPE".toList, typeList ws)].filterMap readParam) :
    p.types T = ws := by
  have hquote : '"' ∉ typeList ws := by
    intro hmem
    rcases mem_of_mem_intercalate hmem with hcomma | ⟨piece, hpiece, hmem⟩
    · exact absurd (List.mem_singleton.1 hcomma) (by decide)
    · obtain ⟨w, hw, rfl⟩ := List.mem_map.1 hpiece
      exact (h w hw).not_mem (by decide) hmem
  have hparams : p.params = [("TYPE".toList, typeList ws)] := by
    rw [hp, List.filterMap_cons, readParam, paramListValue_typeList hne h,
      if_neg (typeList_ne_nil hne h), trimQuotes_of_not_mem hquote]
    rfl
  have hword : ∀ w ∈ ws, ((fun v => T.toLowercase (trimQuotes (trim v))) ∘ capitals) w = w := by
    intro w hw
    have hcapitals := h w hw
    show T.toLowercase (trimQuotes (trim (capitals w))) = w
    rw [hcapitals.ends.trim, trimQuotes_of_not_mem (hcapitals.not_mem (by decide)),
      hcapitals.toLowercase]
  have hkept : ∀ w ∈ ws, decide (w ≠ []) = true := fun w hw => decide_eq_true (h w hw).1
  unfold VCardProperty.types
  rw [hparams]
  show ((((typeList ws).splitOn ',' ++ []).map fun v =>
    T.toLowercase (trimQuotes (trim v))).filter (· ≠ [])) = ws
  rw [List.append_nil, splitOn_typeList hne h, List.map_map, List.map_congr_left hword,
    List.map_id', List.filter_eq_self.2 hkept]

end Words

/-! ## Sections -/

section Sections

variable {T : CaseMaps} {r : Reading} {c : Contact} {name : String} {s : List Char}

/-- The contact of a reading changes. -/
def Reading.update (r : Reading) (f : Contact → Contact) : Reading :=
  { r with contact := f r.contact }

/-- What is read of some properties that are written. -/
def readPushes (T : CaseMaps) (r : Reading) (pushes : List Push) : Reading :=
  ((pushes.filter Push.written).map Push.asRead).foldl (readProperty T) r

theorem readPushes_nil : readPushes T r [] = r := rfl

theorem readPushes_append (r : Reading) (ps qs : List Push) :
    readPushes T r (ps ++ qs) = readPushes T (readPushes T r ps) qs := by
  simp only [readPushes, List.filter_append, List.map_append, List.foldl_append]

theorem readPushes_cons (r : Reading) (p : Push) (ps : List Push) :
    readPushes T r (p :: ps) = readPushes T (readPushes T r [p]) ps :=
  readPushes_append r [p] ps

theorem readPushes_singleton {p : Push} (h : p.content.encode ≠ []) :
    readPushes T r [p] = readProperty T r p.asRead := by
  have hwritten : p.written = true := decide_eq_true h
  rw [readPushes, List.filter_cons_of_pos hwritten]
  rfl

theorem readPushes_unwritten {p : Push} (h : p.content.encode = []) : readPushes T r [p] = r := by
  have hwritten : ¬p.written = true := by simp [Push.written, h]
  rw [readPushes, List.filter_cons_of_neg hwritten]
  rfl

theorem withoutCr_of_not_mem (h : '\r' ∉ s) : withoutCr s = s := by
  rw [withoutCr, List.filter_eq_self]
  intro c hc
  rw [decide_eq_true_eq]
  rintro rfl
  exact h hc

theorem unescape_escape (h : '\r' ∉ s) : unescapeValue (escapeValue s) = s := by
  rw [unescapeValue_escapeValue, withoutCr_of_not_mem h]

theorem escapeValue_eq_nil (h : '\r' ∉ s) : escapeValue s = [] ↔ s = [] := by
  constructor
  · intro hnil
    rw [← unescape_escape h, hnil]
    rfl
  · rintro rfl
    rfl

theorem Clean.read (h : Clean s) : Text.trim (unescapeValue (escapeValue s)) = s := by
  rw [unescape_escape h.noCr, h.trim]

/-- A text property is read into its field, and is not there where the field is empty. -/
theorem read_plain (hs : '\r' ∉ s) (f : List Char → Reading)
    (hread : ∀ value, readProperty T r ⟨name.toList, [], value⟩ = f (unescapeValue value))
    (hnil : f [] = r) : readPushes T r [plain name s] = f s := by
  by_cases hempty : escapeValue s = []
  · rw [readPushes_unwritten (p := plain name s) hempty, (escapeValue_eq_nil hs).1 hempty, hnil]
  · rw [readPushes_singleton (p := plain name s) hempty]
    show readProperty T r ⟨name.toList, [], escapeValue s⟩ = f s
    rw [hread, unescape_escape hs]

/-- A list is read entry by entry. -/
theorem read_each {α : Type} (update : List α → Reading) (pushesOf : α → List Push)
    {list : List α} (hstep : ∀ current, ∀ e ∈ list,
      readPushes T (update current) (pushesOf e) = update (current ++ [e])) (current : List α) :
    readPushes T (update current) (list.flatMap pushesOf) = update (current ++ list) := by
  induction list generalizing current with
  | nil => rw [List.flatMap_nil, readPushes_nil, List.append_nil]
  | cons e list ih =>
      rw [List.flatMap_cons, readPushes_append, hstep current e List.mem_cons_self,
        ih fun current e he => hstep current e (List.mem_cons_of_mem _ he), List.append_assoc]
      rfl

/-- A clean entry is read by the arm of its property as it was. -/
theorem addTyped_typed (name : String) {allowed : List String} {e : TypedValue}
    {ws : List (List Char)} (he : Clean e.value) (hne : e.value ≠ []) (hws : ws ≠ []) (hwords : ∀ w ∈ ws, IsWord w)
    (htype : (((ws.map fun raw => mappedType (String.ofList raw)).find?
      fun mapped => allowed.contains mapped).getD "other") = e.type) (current : List TypedValue) :
    addTyped T (typed name (typeList ws) e.value).asRead allowed current = current ++ [e] := by
  have htypes := types_typeList T hws hwords (p := (typed name (typeList ws) e.value).asRead) rfl
  have hvalue : trim (unescapeValue (typed name (typeList ws) e.value).asRead.value) = e.value :=
    he.read
  unfold addTyped normalizedType
  rw [htypes, htype, hvalue]
  dsimp only
  rw [if_neg hne]

theorem read_typed (update : List TypedValue → Reading) {allowed : List String} {e : TypedValue}
    {ws : List (List Char)} (he : Clean e.value) (hne : e.value ≠ []) (hws : ws ≠ [])
    (hwords : ∀ w ∈ ws, IsWord w)
    (htype : (((ws.map fun raw => mappedType (String.ofList raw)).find?
      fun mapped => allowed.contains mapped).getD "other") = e.type)
    (hread : ∀ current params value, readProperty T (update current) ⟨name.toList, params, value⟩ =
      update (addTyped T ⟨name.toList, params, value⟩ allowed current))
    (current : List TypedValue) :
    readPushes T (update current) [typed name (typeList ws) e.value] = update (current ++ [e]) := by
  have hwritten : (typed name (typeList ws) e.value).content.encode ≠ [] := by
    intro hnil
    exact hne ((escapeValue_eq_nil he.noCr).1 hnil)
  rw [readPushes_singleton hwritten, ← addTyped_typed name he hne hws hwords htype current]
  exact hread current _ _

/-- A trimmed text is read as it is. -/
theorem read_text (hs : Clean s) (f : List Char → Reading)
    (hread : ∀ value,
      readProperty T r ⟨name.toList, [], value⟩ = f (Text.trim (unescapeValue value)))
    (hnil : f [] = r) : readPushes T r [plain name s] = f s := by
  have hplain := read_plain (T := T) (r := r) hs.noCr (fun t => f (Text.trim t)) hread hnil
  rwa [hs.trim] at hplain

theorem setString_nil (s : List Char) : setString [] s = s := by
  unfold setString
  split
  · rename_i h
    exact h.symm
  · rfl

/-- The parts of a structured value are read back in their places. -/
theorem part_fields {parts : List (List Char)} (hne : parts ≠ [])
    (hclean : ∀ s ∈ parts, Clean s) (index : Nat) :
    part (Content.fields ';' parts).encode index = (parts[index]?).getD [] := by
  have hsplit : splitUnescaped (Content.fields ';' parts).encode ';' = parts.map escapeValue :=
    splitUnescaped_join (Or.inr rfl) hne
  rw [part, hsplit, List.getElem?_map]
  cases hget : parts[index]? with
  | none => rfl
  | some s => exact (hclean s (List.mem_of_getElem? hget)).read

theorem fields_ne_nil {separator : Char} (a b : List Char) (parts : List (List Char)) :
    (Content.fields separator (a :: b :: parts)).encode ≠ [] := by
  rw [Content.encode, List.map_cons, List.map_cons, List.intercalate_cons_cons]
  simp

/-- A type that the bridge knows is written as one word. -/
theorem typeOrOther_word {j : Json} {t : String} (htype : stringField j "type" = t.toList)
    (hword : IsWord t.toList) : typeOrOther T j = typeList [t.toList] := by
  have hupper : upperType T j = capitals t.toList := by
    rw [upperType, htype, hword.toUppercase]
  rw [typeOrOther, hupper, if_neg hword.capitals_ne_nil, typeList, List.map_singleton,
    List.intercalate_singleton]

/-- The types of a list, each written as itself. -/
def KnownTypes (allowed : List String) : Prop :=
  ∀ t ∈ allowed, IsWord t.toList ∧ mappedType t = t ∧ allowed.contains t = true

instance decidableKnownTypes (allowed : List String) : Decidable (KnownTypes allowed) :=
  inferInstanceAs (Decidable (∀ t ∈ allowed,
    IsWord t.toList ∧ mappedType t = t ∧ allowed.contains t = true))

theorem KnownTypes.find {allowed : List String} (h : KnownTypes allowed) {t : String}
    (ht : t ∈ allowed) : ((([t.toList].map fun raw => mappedType (String.ofList raw)).find?
      fun mapped => allowed.contains mapped).getD "other") = t := by
  obtain ⟨-, hmapped, hcontains⟩ := h t ht
  rw [List.map_singleton, String.ofList_toList, hmapped, List.find?_cons, hcontains]
  rfl

/-- The loops over entries with a type. -/
theorem read_typedPushes (update : List TypedValue → Reading) {allowed : List String}
    {list : List TypedValue} (hknown : KnownTypes allowed)
    (hlist : CleanList allowed list)
    (hread : ∀ current params value, readProperty T (update current) ⟨name.toList, params, value⟩ =
      update (addTyped T ⟨name.toList, params, value⟩ allowed current))
    (current : List TypedValue) :
    readPushes T (update current) (typedPushes T name (list.map TypedValue.toJson)) =
      update (current ++ list) := by
  have hpushes : typedPushes T name (list.map TypedValue.toJson) =
      list.flatMap fun e =>
        [typed name (typeOrOther T e.toJson) (stringField e.toJson "value")] := by
    rw [typedPushes, List.map_map, List.map_eq_flatMap]
    rfl
  rw [hpushes]
  apply read_each
  intro current e he
  obtain ⟨hclean, hne, htype⟩ := hlist e he
  have hword : IsWord e.type.toList := (hknown e.type htype).1
  rw [typeOrOther_word (stringField_type e) hword, stringField_value]
  apply read_typed update hclean hne (by simp) _ (hknown.find htype) hread
  intro w hw
  rw [List.mem_singleton.1 hw]
  exact hword

end Sections

/-! ## The sections of a card -/

section Contacts

variable {T : CaseMaps} {r : Reading} {c : Contact}

theorem read_email (h : CleanList emailTypes c.emailEntries) :
    readPushes T r (emailPushes T c.toJson) =
      r.update fun d => { d with emailEntries := d.emailEntries ++ c.emailEntries } := by
  have hentries : entries c.toJson "email_entries" = c.emailEntries.map TypedValue.toJson :=
    entries_list (by decide) rfl rfl rfl
  have hknown : ∀ t ∈ emailTypes, IsWord t.toList ∧
      ((((["internet".toList, t.toList]).map fun raw => mappedType (String.ofList raw)).find?
        fun mapped => emailTypes.contains mapped).getD "other") = t := by decide
  have hinternet : IsWord "internet".toList := by decide
  unfold emailPushes
  rw [hentries]
  dsimp only
  cases hlist : c.emailEntries with
  | nil =>
      have hfixed : c.fixed.lookup "emails" = some (.array []) := by
        show some (Json.array (c.emailEntries.map fun e => textJson e.value)) = _
        rw [hlist]
        rfl
      have hemails : entries c.toJson "emails" = [] := by
        unfold entries
        rw [get?_toJson, hfixed]
        rfl
      rw [hemails]
      simp only [List.append_nil]
      rfl
  | cons first rest =>
      rw [← hlist]
      have hcons : (c.emailEntries.map TypedValue.toJson).isEmpty = false := by
        rw [hlist]
        rfl
      rw [hcons, if_neg (by simp), List.map_map, List.map_eq_flatMap]
      refine read_each (fun l => r.update fun d => { d with emailEntries := l }) _ ?_
        r.contact.emailEntries
      intro current e he
      obtain ⟨hclean, hne, htype⟩ := h e he
      obtain ⟨hword, hfind⟩ := hknown e.type htype
      have htypes : emailType T e.toJson = typeList ["internet".toList, e.type.toList] := by
        have hupper : upperType T e.toJson = capitals e.type.toList := by
          rw [upperType, stringField_type, hword.toUppercase]
        rw [emailType, hupper, if_neg hword.capitals_ne_nil, typeList, List.map_cons,
          List.map_singleton, List.intercalate_cons_cons, List.intercalate_singleton]
        rfl
      show readPushes T _ [typed "EMAIL" (emailType T e.toJson) (stringField e.toJson "value")] = _
      rw [htypes, stringField_value]
      refine read_typed (fun l => r.update fun d => { d with emailEntries := l }) hclean hne
        (by simp) ?_ hfind (fun _ _ _ => rfl) current
      intro w hw
      rcases List.mem_cons.1 hw with rfl | hw
      · exact hinternet
      · rw [List.mem_singleton.1 hw]
        exact hword

/-- The word that is written for the type of a number. -/
def phoneWord (type : String) : List Char :=
  if type = "mobile" then "cell".toList else type.toList

theorem read_phone (h : CleanList phoneTypes c.phoneEntries) :
    readPushes T r (phonePushes c.toJson) =
      r.update fun d => { d with phoneEntries := d.phoneEntries ++ c.phoneEntries } := by
  have hentries : entries c.toJson "phone_entries" = c.phoneEntries.map TypedValue.toJson :=
    entries_list (by decide) rfl rfl rfl
  have hknown : ∀ t ∈ phoneTypes, IsWord (phoneWord t) ∧
      ((([phoneWord t].map fun raw => mappedType (String.ofList raw)).find?
        fun mapped => phoneTypes.contains mapped).getD "other") = t := by decide
  unfold phonePushes
  rw [hentries]
  dsimp only
  cases hlist : c.phoneEntries with
  | nil =>
      have hphone : stringField c.toJson "phone" = [] := by
        refine stringField_text (by decide) rfl ?_ rfl
        show some ((c.phoneEntries.head?.map TypedValue.value).getD []) = some []
        rw [hlist]
        rfl
      rw [hphone]
      simp only [List.append_nil]
      rfl
  | cons first rest =>
      rw [← hlist]
      have hcons : (c.phoneEntries.map TypedValue.toJson).isEmpty = false := by
        rw [hlist]
        rfl
      rw [hcons, if_neg (by simp), List.map_map, List.map_eq_flatMap]
      refine read_each (fun l => r.update fun d => { d with phoneEntries := l }) _ ?_
        r.contact.phoneEntries
      intro current e he
      obtain ⟨hclean, hne, htype⟩ := h e he
      obtain ⟨hword, hfind⟩ := hknown e.type htype
      have htypes : phoneType e.toJson = typeList [phoneWord e.type] := by
        have hall : ∀ t ∈ phoneTypes, (if t = "mobile" then "CELL".toList
            else if t = "home" then "HOME".toList else if t = "work" then "WORK".toList
            else if t = "fax" then "FAX".toList else if t = "pager" then "PAGER".toList
            else "OTHER".toList) = typeList [phoneWord t] := by decide
        rw [phoneType, stringField_type, String.ofList_toList]
        exact hall e.type htype
      show readPushes T _ [typed "TEL" (phoneType e.toJson) (stringField e.toJson "value")] = _
      rw [htypes, stringField_value]
      refine read_typed (fun l => r.update fun d => { d with phoneEntries := l }) hclean hne
        (by simp) ?_ hfind (fun _ _ _ => rfl) current
      intro w hw
      rw [List.mem_singleton.1 hw]
      exact hword

/-- One round of the loop over the addresses. -/
theorem read_address (update : List AddressEntry → Reading) {e : AddressEntry}
    (hknown : KnownTypes addressTypes) (h : CleanAddress e)
    (hread : ∀ current params value, readProperty T (update current) ⟨"ADR".toList, params, value⟩ =
      update (addAddress T ⟨"ADR".toList, params, value⟩ current)) (current : List AddressEntry) :
    readPushes T (update current) [addressPush (typeOrOther T e.toJson) e.toJson] =
      update (current ++ [e]) := by
  have hword : IsWord e.type.toList := (hknown e.type h.type).1
  have hclean : ∀ s ∈ addressParts e.toJson, Clean s := by
    rw [addressParts_toJson]
    simp only [List.mem_cons, List.not_mem_nil, or_false]
    rintro s (rfl | rfl | rfl | rfl | rfl | rfl | rfl)
    · exact clean_nil
    · exact clean_nil
    · exact h.street
    · exact h.city
    · exact h.state
    · exact h.postalCode
    · exact h.country
  have hcontent : addressContent e.toJson = .fields ';' (addressParts e.toJson) := by
    unfold addressContent
    rw [if_neg]
    intro hall
    have hempty : ∀ s ∈ addressParts e.toJson, s = [] := by
      intro s hs
      have hescape := of_decide_eq_true (List.all_eq_true.1 hall s hs)
      exact (escapeValue_eq_nil (hclean s hs).noCr).1 hescape
    rw [addressParts_toJson] at hempty
    exact h.some ⟨hempty _ (by simp), hempty _ (by simp), hempty _ (by simp), hempty _ (by simp),
      hempty _ (by simp)⟩
  have htype : stringField e.toJson "type" = e.type.toList := rfl
  rw [typeOrOther_word htype hword]
  have hparts : ∀ index, part (Content.fields ';' (addressParts e.toJson)).encode index =
      ((addressParts e.toJson)[index]?).getD [] :=
    part_fields (by simp [addressParts]) hclean
  have hwords : ∀ w ∈ [e.type.toList], IsWord w := by
    intro w hw
    rw [List.mem_singleton.1 hw]
    exact hword
  have hadd : addAddress T (addressPush (typeList [e.type.toList]) e.toJson).asRead current =
      current ++ [e] := by
    have htypes := types_typeList T (by simp) hwords
      (p := (addressPush (typeList [e.type.toList]) e.toJson).asRead) rfl
    have hvalue : (addressPush (typeList [e.type.toList]) e.toJson).asRead.value =
        (Content.fields ';' (addressParts e.toJson)).encode := by
      show (addressContent e.toJson).encode = _
      rw [hcontent]
    unfold addAddress normalizedType
    simp only [hvalue, hparts, htypes, hknown.find h.type]
    rw [addressParts_toJson]
    exact if_neg h.some
  have hwritten : (addressPush (typeList [e.type.toList]) e.toJson).content.encode ≠ [] := by
    show (addressContent e.toJson).encode ≠ []
    rw [hcontent]
    exact fields_ne_nil _ _ _
  rw [readPushes_singleton hwritten, ← hadd]
  exact hread current _ _

theorem read_org (hcompany : Clean c.company) (hdepartment : Clean c.department) :
    readPushes T r (orgPushes c.toJson) = r.update fun d =>
      { d with
        company := setString d.company c.company
        department := setString d.department c.department } := by
  have hfirst : stringField c.toJson "company" = c.company :=
    stringField_text (by decide) rfl rfl rfl
  have hsecond : stringField c.toJson "department" = c.department :=
    stringField_text (by decide) rfl rfl rfl
  unfold orgPushes
  rw [hfirst, hsecond]
  dsimp only
  split
  · have hclean : ∀ s ∈ [c.company, c.department], Clean s := by
      intro s hs
      rcases List.mem_cons.1 hs with rfl | hs
      · exact hcompany
      · rw [List.mem_singleton.1 hs]
        exact hdepartment
    have hparts := part_fields (by simp) hclean
    rw [readPushes_singleton (fields_ne_nil _ _ _)]
    show (r.update fun d =>
      { d with
        company := setString d.company
          (part (Content.fields ';' [c.company, c.department]).encode 0)
        department := setString d.department
          (part (Content.fields ';' [c.company, c.department]).encode 1) }) = _
    simp only [hparts]
    rfl
  · rename_i hnone
    obtain ⟨hc, hd⟩ := not_or.1 hnone
    rw [not_not.1 hc, not_not.1 hd]
    rfl

theorem read_addresses (h : ∀ e ∈ c.addressEntries, CleanAddress e) :
    readPushes T r (addressPushes T c.toJson) =
      r.update fun d => { d with addressEntries := d.addressEntries ++ c.addressEntries } := by
  have hentries : entries c.toJson "address_entries" = c.addressEntries.map AddressEntry.toJson :=
    entries_list (by decide) rfl rfl rfl
  have hknown : KnownTypes addressTypes := by decide
  unfold addressPushes
  rw [hentries]
  dsimp only
  cases hlist : c.addressEntries with
  | nil =>
      have haddress : c.toJson.get? "address" = none := by
        rw [get?_toJson, hlist]
        rfl
      rw [haddress]
      simp only [List.append_nil]
      rfl
  | cons first rest =>
      rw [← hlist]
      have hcons : (c.addressEntries.map AddressEntry.toJson).isEmpty = false := by
        rw [hlist]
        rfl
      rw [hcons, if_neg (by simp), List.map_map, List.map_eq_flatMap]
      refine read_each (fun l => r.update fun d => { d with addressEntries := l }) _ ?_
        r.contact.addressEntries
      intro current e he
      exact read_address (fun l => r.update fun d => { d with addressEntries := l }) hknown (h e he)
        (fun _ _ _ => rfl) current

/-- One round of the loop over the dates. -/
theorem read_date {e : TypedValue} (hclean : Clean e.value) (hne : e.value ≠ [])
    (htype : e.type ∈ dateTypes) (current : List TypedValue) :
    readPushes T (r.update fun d => { d with dateEntries := current })
        (datePush T e.toJson).toList =
      r.update fun d => { d with dateEntries := current ++ [e] } := by
  have hknown : KnownTypes dateTypes := by decide
  have hword : IsWord e.type.toList := (hknown e.type htype).1
  have hupper : upperType T e.toJson = capitals e.type.toList := by
    rw [upperType, stringField_type, hword.toUppercase]
  have hwritten : escapeValue e.value ≠ [] := fun hnil =>
    hne ((escapeValue_eq_nil hclean.noCr).1 hnil)
  unfold datePush
  dsimp only
  rw [stringField_value, if_neg hwritten, hupper]
  by_cases hanniversary : capitals e.type.toList = "ANNIVERSARY".toList
  · have hall : ∀ t ∈ dateTypes, capitals t.toList = "ANNIVERSARY".toList → t = "anniversary" := by
      decide
    have htype' := hall e.type htype hanniversary
    have hadd : addAnniversary (plain "ANNIVERSARY" e.value).asRead current = current ++ [e] := by
      have hvalue : trim (unescapeValue (plain "ANNIVERSARY" e.value).asRead.value) = e.value :=
        hclean.read
      unfold addAnniversary
      rw [hvalue, if_neg hne, ← htype']
    rw [if_pos hanniversary, Option.toList_some,
      readPushes_singleton (p := plain "ANNIVERSARY" e.value) hwritten, ← hadd]
    rfl
  · have hlist : capitals e.type.toList = typeList [e.type.toList] := by
      rw [typeList, List.map_singleton, List.intercalate_singleton]
    rw [if_neg hanniversary, Option.toList_some, hlist]
    refine read_typed (fun l => r.update fun d => { d with dateEntries := l }) hclean hne
      (by simp) ?_ (hknown.find htype) (fun _ _ _ => rfl) current
    intro w hw
    rw [List.mem_singleton.1 hw]
    exact hword

theorem read_dates (h : CleanList dateTypes c.dateEntries) :
    readPushes T r ((entries c.toJson "date_entries").filterMap (datePush T)) =
      r.update fun d => { d with dateEntries := d.dateEntries ++ c.dateEntries } := by
  have hentries : entries c.toJson "date_entries" = c.dateEntries.map TypedValue.toJson :=
    entries_list (by decide) rfl rfl rfl
  have hpushes : (c.dateEntries.map TypedValue.toJson).filterMap (datePush T) =
      c.dateEntries.flatMap fun e => (datePush T e.toJson).toList := by
    rw [List.filterMap_map, List.filterMap_eq_flatMap_toList]
    rfl
  rw [hentries, hpushes]
  refine read_each (fun l => r.update fun d => { d with dateEntries := l }) _ ?_
    r.contact.dateEntries
  intro current e he
  obtain ⟨hclean, hne, htype⟩ := h e he
  exact read_date hclean hne htype current

theorem read_sites (h : CleanList siteTypes c.websites) :
    readPushes T r (sitePushes T c.toJson) =
      r.update fun d => { d with websites := d.websites ++ c.websites } := by
  have hentries : entries c.toJson "websites" = c.websites.map TypedValue.toJson :=
    entries_list (by decide) rfl rfl rfl
  unfold sitePushes
  rw [hentries]
  dsimp only
  cases hlist : c.websites with
  | nil =>
      have hlinks : c.toJson.get? "social_links" = none := by
        rw [get?_toJson, lookup_address c (by decide)]
        rfl
      rw [hlinks]
      simp only [List.append_nil]
      rfl
  | cons first rest =>
      rw [← hlist]
      have hcons : (c.websites.map TypedValue.toJson).isEmpty = false := by
        rw [hlist]
        rfl
      rw [hcons, if_neg (by simp)]
      exact read_typedPushes (fun l => r.update fun d => { d with websites := l }) (by decide) h
        (fun _ _ _ => rfl) r.contact.websites

theorem read_groups (h : ∀ g ∈ c.groups, Clean g ∧ g ≠ []) :
    readPushes T r (groupPushes c.toJson) =
      r.update fun d => { d with groups := d.groups ++ c.groups } := by
  have hentries : entries c.toJson "groups" = c.groups.map textJson :=
    entries_list (by decide) rfl rfl rfl
  have hstrings : (c.groups.map textJson).filterMap Json.asStr = c.groups.map String.ofList := by
    rw [List.filterMap_map]
    exact congrFun List.filterMap_eq_map' c.groups
  unfold groupPushes
  rw [hentries, hstrings]
  dsimp only
  cases hlist : c.groups with
  | nil =>
      simp only [List.append_nil]
      rfl
  | cons first rest =>
      have hcons : ((first :: rest).map String.ofList).isEmpty = false := rfl
      have htexts : ((first :: rest).map String.ofList).map String.toList = first :: rest := by
        rw [List.map_map]
        exact (List.map_congr_left fun _ _ => String.toList_ofList).trans (List.map_id' _)
      rw [hcons, if_neg (by simp), htexts]
      rw [← hlist]
      have hne : c.groups ≠ [] := by
        rw [hlist]
        exact List.cons_ne_nil _ _
      have hsplit : splitUnescaped (Content.fields ',' c.groups).encode ',' =
          c.groups.map escapeValue := splitUnescaped_join (Or.inl rfl) hne
      have hread : groupsOf (Content.fields ',' c.groups).encode = c.groups := by
        have hclean : ∀ g ∈ c.groups, ((fun g => trim (unescapeValue g)) ∘ escapeValue) g = g :=
          fun g hg => (h g hg).1.read
        rw [groupsOf, hsplit, List.map_map, List.map_congr_left hclean, List.map_id',
          List.filter_eq_self]
        intro g hg
        exact decide_eq_true (h g hg).2
      have hwritten : (Content.fields ',' c.groups).encode ≠ [] := by
        intro hnil
        rw [hnil] at hread
        exact hne hread.symm
      rw [readPushes_singleton hwritten]
      show (r.update fun d =>
        { d with groups := d.groups ++ groupsOf (Content.fields ',' c.groups).encode }) = _
      rw [hread]

theorem read_favorite : readPushes T r (favoritePushes c.toJson) =
    r.update fun d => { d with isFavorite := d.isFavorite || c.isFavorite } := by
  have hfavorite : ((c.toJson.get? "is_favorite").bind Json.asBool).getD false = c.isFavorite := by
    rw [get?_toJson]
    rfl
  unfold favoritePushes
  rw [hfavorite]
  cases c.isFavorite with
  | false =>
      simp only [Bool.or_false]
      rfl
  | true =>
      simp only [Bool.or_true]
      rfl

/-- A property that no arm reads. -/
theorem read_ignored {p : Push}
    (h : ∀ params value, readProperty T r ⟨p.name, params, value⟩ = r) :
    readPushes T r [p] = r := by
  by_cases hempty : p.content.encode = []
  · exact readPushes_unwritten hempty
  · rw [readPushes_singleton hempty]
    exact h _ _

/-- What is read of `FN`. -/
def formattedFrom (old s : List Char) : List Char :=
  if escapeValue s = [] then old else trim (withoutCr s)

theorem read_formatted (s : List Char) : readPushes T r [plain "FN" s] =
    { r with formattedName := formattedFrom r.formattedName s } := by
  unfold formattedFrom
  by_cases hempty : escapeValue s = []
  · rw [readPushes_unwritten (p := plain "FN" s) hempty, if_pos hempty]
  · rw [readPushes_singleton (p := plain "FN" s) hempty, if_neg hempty,
      ← unescapeValue_escapeValue]
    rfl

theorem read_names (h : c.Canonical) :
    readPushes T r [⟨"N".toList, [], .fields ';' (nameParts c.toJson)⟩] = r.update fun d =>
      { d with
        lastName := setString d.lastName c.lastName
        firstName := setString d.firstName c.firstName
        middleName := setString d.middleName c.middleName
        title := setString d.title c.title
        nameSuffix := setString d.nameSuffix c.nameSuffix } := by
  have hparts : nameParts c.toJson =
      [c.lastName, c.firstName, c.middleName, c.title, c.nameSuffix] := by
    rw [nameParts, stringField_fixed (s := c.lastName) rfl,
      stringField_fixed (s := c.firstName) rfl,
      stringField_text (s := c.middleName) (by decide) rfl rfl rfl,
      stringField_text (s := c.title) (by decide) rfl rfl rfl,
      stringField_text (s := c.nameSuffix) (by decide) rfl rfl rfl]
  have hclean : ∀ s ∈ [c.lastName, c.firstName, c.middleName, c.title, c.nameSuffix], Clean s := by
    simp only [List.mem_cons, List.not_mem_nil, or_false]
    rintro s (rfl | rfl | rfl | rfl | rfl)
    · exact h.lastName
    · exact h.firstName
    · exact h.middleName
    · exact h.title
    · exact h.nameSuffix
  have hread := part_fields (by simp) hclean
  rw [hparts, readPushes_singleton (fields_ne_nil _ _ _)]
  show (r.update fun d =>
    { d with
      lastName := setString d.lastName (part (Content.fields ';' _).encode 0)
      firstName := setString d.firstName (part (Content.fields ';' _).encode 1)
      middleName := setString d.middleName (part (Content.fields ';' _).encode 2)
      title := setString d.title (part (Content.fields ';' _).encode 3)
      nameSuffix := setString d.nameSuffix (part (Content.fields ';' _).encode 4) }) = _
  simp only [hread]
  rfl

theorem read_nickname {s : List Char} (h : Clean s) : readPushes T r [plain "NICKNAME" s] =
    r.update fun d => { d with nickname := setString d.nickname s } :=
  read_text h (fun s => r.update fun d => { d with nickname := setString d.nickname s })
    (fun _ => rfl) rfl

theorem read_jobTitle {s : List Char} (h : Clean s) : readPushes T r [plain "TITLE" s] =
    r.update fun d => { d with jobTitle := setString d.jobTitle s } :=
  read_text h (fun s => r.update fun d => { d with jobTitle := setString d.jobTitle s })
    (fun _ => rfl) rfl

theorem read_role {s : List Char} (h : Clean s) : readPushes T r [plain "ROLE" s] =
    r.update fun d => { d with role := setString d.role s } :=
  read_text h (fun s => r.update fun d => { d with role := setString d.role s })
    (fun _ => rfl) rfl

theorem read_birthday {s : List Char} (h : Clean s) : readPushes T r [plain "BDAY" s] =
    r.update fun d => { d with birthday := setString d.birthday s } :=
  read_text h (fun s => r.update fun d => { d with birthday := setString d.birthday s })
    (fun _ => rfl) rfl

theorem read_note {s : List Char} (h : '\r' ∉ s) : readPushes T r [plain "NOTE" s] =
    r.update fun d => { d with notes := setString d.notes s } :=
  read_plain h (fun s => r.update fun d => { d with notes := setString d.notes s })
    (fun _ => rfl) rfl

theorem read_phoneticFirst {s : List Char} (h : Clean s) :
    readPushes T r [plain "X-PHONETIC-FIRST-NAME" s] =
      r.update fun d => { d with phoneticFirstName := setString d.phoneticFirstName s } :=
  read_text h (fun s => r.update fun d =>
    { d with phoneticFirstName := setString d.phoneticFirstName s }) (fun _ => rfl) rfl

theorem read_phoneticLast {s : List Char} (h : Clean s) :
    readPushes T r [plain "X-PHONETIC-LAST-NAME" s] =
      r.update fun d => { d with phoneticLastName := setString d.phoneticLastName s } :=
  read_text h (fun s => r.update fun d =>
    { d with phoneticLastName := setString d.phoneticLastName s }) (fun _ => rfl) rfl

theorem read_pronouns {s : List Char} (h : Clean s) :
    readPushes T r [plain "X-ASTER-PRONOUNS" s] =
      r.update fun d => { d with pronouns := setString d.pronouns s } :=
  read_text h (fun s => r.update fun d => { d with pronouns := setString d.pronouns s })
    (fun _ => rfl) rfl

theorem read_prodid (s : List Char) :
    readPushes T r [⟨"PRODID".toList, [], .literal s⟩] = r :=
  read_ignored fun _ _ => rfl

theorem read_uid (s : List Char) : readPushes T r [plain "UID" s] = r :=
  read_ignored fun _ _ => rfl

theorem read_revision (s : List Char) : readPushes T r [plain "REV" s] = r :=
  read_ignored fun _ _ => rfl

/-- The part of the card before the lists. -/
theorem read_identity (h : c.Canonical) (uid : List Char) :
    readPushes T r (identityPushes c.toJson uid) =
      (Reading.update
        { r with formattedName := formattedFrom r.formattedName (displayName c.toJson) } fun d =>
          { d with
            lastName := setString d.lastName c.lastName
            firstName := setString d.firstName c.firstName
            middleName := setString d.middleName c.middleName
            title := setString d.title c.title
            nameSuffix := setString d.nameSuffix c.nameSuffix }).update fun d =>
              { d with nickname := setString d.nickname c.nickname } := by
  have hnickname : stringField c.toJson "nickname" = c.nickname :=
    stringField_text (by decide) rfl rfl rfl
  unfold identityPushes fieldPush
  rw [hnickname, readPushes_cons, read_prodid, readPushes_cons, read_uid, readPushes_cons,
    read_formatted, readPushes_cons, read_names h, read_nickname h.nickname]

/-- The part of the card behind the lists. -/
theorem read_notes (h : c.Canonical) : readPushes T r (notePushes c.toJson) =
    (((r.update fun d => { d with notes := setString d.notes c.notes }).update fun d =>
      { d with phoneticFirstName := setString d.phoneticFirstName c.phoneticFirstName }).update
        fun d => { d with
          phoneticLastName := setString d.phoneticLastName c.phoneticLastName }).update fun d =>
            { d with pronouns := setString d.pronouns c.pronouns } := by
  unfold notePushes fieldPush
  rw [stringField_text (s := c.notes) (by decide) rfl rfl rfl,
    stringField_text (s := c.phoneticFirstName) (by decide) rfl rfl rfl,
    stringField_text (s := c.phoneticLastName) (by decide) rfl rfl rfl,
    stringField_text (s := c.pronouns) (by decide) rfl rfl rfl, readPushes_cons,
    read_note h.notes, readPushes_cons, read_phoneticFirst h.phoneticFirstName, readPushes_cons,
    read_phoneticLast h.phoneticLastName, read_pronouns h.pronouns]

theorem read_jobs (h : c.Canonical) :
    readPushes T r [plain "TITLE" c.jobTitle, plain "ROLE" c.role] =
      (r.update fun d => { d with jobTitle := setString d.jobTitle c.jobTitle }).update fun d =>
        { d with role := setString d.role c.role } := by
  rw [readPushes_cons, read_jobTitle h.jobTitle, read_role h.role]

theorem read_networks (h : c.Canonical) : readPushes T r
    (typedPushes T "X-SOCIALPROFILE" (c.socialNetworks.map TypedValue.toJson)) =
      r.update fun d => { d with socialNetworks := d.socialNetworks ++ c.socialNetworks } :=
  read_typedPushes (fun l => r.update fun d => { d with socialNetworks := l })
    (by decide) h.socialNetworks (fun _ _ _ => rfl) r.contact.socialNetworks

theorem read_messengers (h : c.Canonical) : readPushes T r
    (typedPushes T "IMPP" (c.instantMessengers.map TypedValue.toJson)) =
      r.update fun d =>
        { d with instantMessengers := d.instantMessengers ++ c.instantMessengers } :=
  read_typedPushes (fun l => r.update fun d => { d with instantMessengers := l })
    (by decide) h.instantMessengers (fun _ _ _ => rfl) r.contact.instantMessengers

theorem read_relations (h : c.Canonical) : readPushes T r
    (typedPushes T "X-ASTER-RELATED" (c.relatedPeople.map TypedValue.toJson)) =
      r.update fun d => { d with relatedPeople := d.relatedPeople ++ c.relatedPeople } :=
  read_typedPushes (fun l => r.update fun d => { d with relatedPeople := l })
    (by decide) h.relatedPeople (fun _ _ _ => rfl) r.contact.relatedPeople

/-- **All sections of a card together read as its contact.** -/
theorem read_cardPushes (h : c.Canonical) (uid revision : List Char) :
    readPushes T ⟨Contact.empty, []⟩ (cardPushes T c.toJson uid revision) =
      ⟨c, formattedFrom [] (displayName c.toJson)⟩ := by
  have hnetworks : entries c.toJson "social_networks" = c.socialNetworks.map TypedValue.toJson :=
    entries_list (by decide) rfl rfl rfl
  have hmessengers : entries c.toJson "instant_messengers" =
      c.instantMessengers.map TypedValue.toJson := entries_list (by decide) rfl rfl rfl
  have hrelations : entries c.toJson "related_people" = c.relatedPeople.map TypedValue.toJson :=
    entries_list (by decide) rfl rfl rfl
  unfold cardPushes fieldPush
  rw [hnetworks, hmessengers, hrelations,
    stringField_text (s := c.jobTitle) (by decide) rfl rfl rfl,
    stringField_text (s := c.role) (by decide) rfl rfl rfl,
    stringField_text (s := c.birthday) (by decide) rfl rfl rfl]
  simp only [readPushes_append]
  rw [read_identity h, read_email h.emailEntries, read_phone h.phoneEntries,
    read_org h.company h.department, read_jobs h, read_addresses h.addressEntries,
    read_birthday h.birthday, read_dates h.dateEntries, read_sites h.websites, read_networks h,
    read_messengers h, read_relations h, read_groups h.groups, read_notes h, read_favorite,
    read_revision]
  simp only [Reading.update, Contact.empty, setString_nil, List.nil_append, Bool.false_or]

end Contacts

/-! ## Names -/

section Names

variable {T : CaseMaps} {c : Contact}

theorem fallbackDisplayName_congr {a b : Json}
    (hnickname : stringField a "nickname" = stringField b "nickname")
    (hcompany : stringField a "company" = stringField b "company")
    (hemails : entries a "emails" = entries b "emails") :
    fallbackDisplayName a = fallbackDisplayName b := by
  unfold fallbackDisplayName
  rw [hnickname, hcompany, hemails]

theorem stringField_optional {members : List (String × Json)} {key : String} {s : List Char}
    (h : members.lookup key = some ((optionalText s).getD .null)) :
    stringField (.object members) key = s := by
  unfold stringField Json.get?
  dsimp only
  rw [h]
  unfold optionalText
  split
  · rename_i hnil
    rw [hnil]
    rfl
  · show (String.ofList s).toList = s
    exact String.toList_ofList

theorem entries_emails (c : Contact) :
    entries c.toJson "emails" = c.emailEntries.map fun e => textJson e.value := by
  unfold entries
  rw [get?_toJson]
  rfl

/-- The reader falls back to the name that the writer falls back to. -/
theorem fallbackOf_eq (c : Contact) : fallbackOf c = fallbackDisplayName c.toJson := by
  have hnickname : stringField c.toJson "nickname" = c.nickname :=
    stringField_text (by decide) rfl rfl rfl
  have hcompany : stringField c.toJson "company" = c.company :=
    stringField_text (by decide) rfl rfl rfl
  apply fallbackDisplayName_congr
  · rw [hnickname]
    exact stringField_optional rfl
  · rw [hcompany]
    exact stringField_optional rfl
  · rw [entries_emails]
    rfl

theorem clean_fallback (h : c.Canonical) :
    Clean (fallbackDisplayName c.toJson) ∧ fallbackDisplayName c.toJson ≠ [] := by
  have hnickname : stringField c.toJson "nickname" = c.nickname :=
    stringField_text (by decide) rfl rfl rfl
  have hcompany : stringField c.toJson "company" = c.company :=
    stringField_text (by decide) rfl rfl rfl
  unfold fallbackDisplayName
  rw [hnickname, hcompany, entries_emails, h.nickname.trim, h.company.trim]
  split
  · rename_i hne
    exact ⟨h.nickname, hne⟩
  · split
    · rename_i hne
      exact ⟨h.company, hne⟩
    · cases hlist : c.emailEntries with
      | nil => exact ⟨⟨by decide, by decide⟩, by decide⟩
      | cons e rest =>
          have hmem : e ∈ c.emailEntries := by
            rw [hlist]
            exact List.mem_cons_self
          obtain ⟨hclean, hne, -⟩ := h.emailEntries e hmem
          show Clean (String.ofList e.value).toList ∧ (String.ofList e.value).toList ≠ []
          rw [String.toList_ofList]
          exact ⟨hclean, hne⟩

/-- A name that is only a fallback is not taken for the name of the contact. -/
theorem namesFromFormatted_read (h : c.Canonical) :
    namesFromFormatted ⟨c, formattedFrom [] (displayName c.toJson)⟩ = c := by
  unfold namesFromFormatted
  dsimp only
  rw [if_neg]
  rintro ⟨hfirst, hlast, hformatted⟩
  apply hformatted
  obtain ⟨hclean, hne⟩ := clean_fallback h
  have hdisplay : displayName c.toJson = fallbackDisplayName c.toJson := by
    unfold displayName
    rw [stringField_fixed (s := c.firstName) rfl, stringField_fixed (s := c.lastName) rfl, hfirst,
      hlast]
    exact if_neg (by decide)
  have hwritten : escapeValue (fallbackDisplayName c.toJson) ≠ [] := fun hnil =>
    hne ((escapeValue_eq_nil hclean.noCr).1 hnil)
  rw [hdisplay, formattedFrom, if_neg hwritten, withoutCr_of_not_mem hclean.noCr, hclean.trim,
    fallbackOf_eq]

/-- **A canonical contact survives its card.** -/
theorem readContact_contactToVcard (h : c.Canonical) (uid revision : List Char) :
    readContact T (contactToVcard T c.toJson uid revision) = c := by
  have hbegin : ∀ r : Reading, readProperty T r (frameProperty "BEGIN" "VCARD") = r := fun _ => rfl
  have hversion : ∀ r : Reading, readProperty T r (frameProperty "VERSION" "3.0") = r :=
    fun _ => rfl
  have hend : ∀ r : Reading, readProperty T r (frameProperty "END" "VCARD") = r := fun _ => rfl
  have hread := read_cardPushes (T := T) h uid revision
  unfold readPushes at hread
  unfold readContact
  rw [parseProperties_cardPushes, List.foldl_append, List.foldl_append, List.foldl_cons,
    List.foldl_cons, List.foldl_nil, List.foldl_cons, List.foldl_nil, hbegin, hversion, hread, hend]
  exact namesFromFormatted_read h

/-- The uid of a card is the one it was written with. -/
theorem extractUid_contactToVcard (contact : Json) {uid : List Char} (h : Clean uid)
    (hne : uid ≠ []) (revision : List Char) :
    extractUid T (contactToVcard T contact uid revision) = some uid := by
  have hwritten : (plain "UID" uid).written = true := by
    apply decide_eq_true
    intro hnil
    exact hne ((escapeValue_eq_nil h.noCr).1 hnil)
  have hread : (trim (unescapeValue (plain "UID" uid).asRead.value)) = uid := h.read
  have hcard : ∃ rest, parseProperties T (contactToVcard T contact uid revision) =
      frameProperty "BEGIN" "VCARD" :: frameProperty "VERSION" "3.0" ::
        ⟨"PRODID".toList, [], "-//Aster//Aster Bridge//EN".toList⟩ ::
          (plain "UID" uid).asRead :: rest := by
    rw [parseProperties_cardPushes]
    unfold cardPushes identityPushes
    simp only [List.append_assoc, List.cons_append]
    rw [List.filter_cons_of_pos (by decide), List.filter_cons_of_pos hwritten]
    exact ⟨_, rfl⟩
  obtain ⟨rest, hrest⟩ := hcard
  have hname : decide ((plain "UID" uid).asRead.name = "UID".toList) = true :=
    decide_eq_true (p := (plain "UID" uid).asRead.name = "UID".toList) rfl
  unfold extractUid
  rw [hrest, List.find?_cons_of_neg (by decide), List.find?_cons_of_neg (by decide),
    List.find?_cons_of_neg (by decide),
    List.find?_cons_of_pos (p := fun q : VCardProperty => decide (q.name = "UID".toList)) hname,
    Option.map_some, hread]
  exact Option.filter_eq_some_iff.2 ⟨rfl, decide_eq_true hne⟩

end Names

/-- **What was read from a card survives every card it is written to**, and the card names the uid
it was written with. -/
theorem vcard_round_trip (T : CaseMaps) {text : List Char} (htext : CrBeforeLf text)
    {uid : List Char} (huid : Clean uid) (hne : uid ≠ []) (revision : List Char) :
    vcardToContact T (contactToVcard T (vcardToContact T text) uid revision) =
        vcardToContact T text ∧
      extractUid T (contactToVcard T (vcardToContact T text) uid revision) = some uid := by
  have hcanonical : (readContact T text).Canonical := canonical_readContact htext
  constructor
  · unfold vcardToContact
    rw [readContact_contactToVcard hcanonical]
  · exact extractUid_contactToVcard _ huid hne revision

/-- A card with a name and a folded note. -/
def adaCard : List Char := "FN:Ada L\r\nNOTE:x\r\n y\r\n".toList

theorem vcard_round_trip_ada :
    vcardToContact .ascii (contactToVcard .ascii (vcardToContact .ascii adaCard) "ada".toList []) =
        vcardToContact .ascii adaCard ∧
      extractUid .ascii (contactToVcard .ascii (vcardToContact .ascii adaCard) "ada".toList []) =
        some "ada".toList :=
  vcard_round_trip CaseMaps.ascii (by decide) ⟨by decide, by decide⟩ (by decide) []

end AsterBridge.Dav
