import AsterBridge.Dav.VCard

/-!
# Contacts written as vCards

`contact_to_vcard` of `dav/vcard.rs`, as the properties that it passes to `push_property` in
order. Whatever texts the contact holds, the card reads as exactly these properties, each with a
value that reads as the text or the fields it was written from (`parseProperties_contactToVcard`):
no text of a contact adds, hides or merges a property.
-/

set_option autoImplicit false

namespace AsterBridge.Dav

open AsterBridge.Lib AsterBridge.Lib.Text AsterBridge.Lib.Lines AsterBridge.Lib.Unicode

/-! ## Properties to write -/

/-- How the value of a property is written: as it is, escaped, or escaped field by field. -/
inductive Content where
  | literal (s : List Char)
  | text (s : List Char)
  | fields (separator : Char) (parts : List (List Char))

/-- The value that is passed to `push_property`. -/
def Content.encode : Content → List Char
  | .literal s => s
  | .text s => escapeValue s
  | .fields separator parts => [separator].intercalate (parts.map escapeValue)

/-- What a reader finds in the value of a property. -/
def Content.Reads (value : List Char) : Content → Prop
  | .literal s => value = s
  | .text s => unescapeValue value = withoutCr s
  | .fields separator parts =>
      (splitUnescaped value separator).map unescapeValue = parts.map withoutCr

/-- The arguments of `push_property`. -/
structure Push where
  name : List Char
  params : List (List Char × List Char)
  content : Content

/-- A property without parameters. -/
def plain (name : String) (text : List Char) : Push := ⟨name.toList, [], .text text⟩

/-- A property with a type. -/
def typed (name : String) (type text : List Char) : Push :=
  ⟨name.toList, [("TYPE".toList, type)], .text text⟩

/-- `string_field` -/
def stringField (contact : Json) (key : String) : List Char :=
  (((contact.get? key).bind Json.asStr).getD "").toList

/-- `entries` -/
def entries (contact : Json) (key : String) : List Json :=
  ((contact.get? key).bind Json.asArray).getD []

/-- The parts that `address_value` joins. -/
def addressParts (address : Json) : List (List Char) :=
  [[], [], stringField address "street", stringField address "city", stringField address "state",
    stringField address "postal_code", stringField address "country"]

/-- `address_value` -/
def addressContent (address : Json) : Content :=
  if (addressParts address).all fun part => escapeValue part = [] then .literal []
  else .fields ';' (addressParts address)

/-- `fallback_display_name` -/
def fallbackDisplayName (contact : Json) : List Char :=
  if trim (stringField contact "nickname") ≠ [] then trim (stringField contact "nickname")
  else if trim (stringField contact "company") ≠ [] then trim (stringField contact "company")
  else
    match (entries contact "emails").head?.bind Json.asStr with
    | some email => email.toList
    | none => "Unnamed".toList

/-- `display_name` -/
def displayName (contact : Json) : List Char :=
  let full := trim (trim (stringField contact "first_name") ++
    ' ' :: trim (stringField contact "last_name"))
  if full ≠ [] then full else fallbackDisplayName contact

section Sections

variable (T : CaseMaps) (contact : Json)

/-- The type of an entry in capitals, where it has one. -/
def upperType (entry : Json) : List Char := T.toUppercase (stringField entry "type")

/-- The type with `OTHER` in the place of none. -/
def typeOrOther (entry : Json) : List Char :=
  if upperType T entry = [] then "OTHER".toList else upperType T entry

/-- A loop over entries with a type and a value. -/
def typedPushes (name : String) (list : List Json) : List Push :=
  list.map fun entry => typed name (typeOrOther T entry) (stringField entry "value")

def emailType (entry : Json) : List Char :=
  if upperType T entry = [] then "INTERNET".toList
  else "INTERNET,".toList ++ upperType T entry

def emailPushes : List Push :=
  let emailEntries := entries contact "email_entries"
  if emailEntries.isEmpty then
    (entries contact "emails").filterMap fun email =>
      email.asStr.map fun address => typed "EMAIL" "INTERNET".toList address.toList
  else
    emailEntries.map fun entry => typed "EMAIL" (emailType T entry) (stringField entry "value")

def phoneType (entry : Json) : List Char :=
  let type := String.ofList (stringField entry "type")
  if type = "mobile" then "CELL".toList
  else if type = "home" then "HOME".toList
  else if type = "work" then "WORK".toList
  else if type = "fax" then "FAX".toList
  else if type = "pager" then "PAGER".toList
  else "OTHER".toList

def phonePushes : List Push :=
  let phoneEntries := entries contact "phone_entries"
  if phoneEntries.isEmpty then [typed "TEL" "CELL".toList (stringField contact "phone")]
  else phoneEntries.map fun entry => typed "TEL" (phoneType entry) (stringField entry "value")

def orgPushes : List Push :=
  let company := stringField contact "company"
  let department := stringField contact "department"
  if company ≠ [] ∨ department ≠ [] then
    [⟨"ORG".toList, [], .fields ';' [company, department]⟩]
  else []

def addressPush (type : List Char) (address : Json) : Push :=
  ⟨"ADR".toList, [("TYPE".toList, type)], addressContent address⟩

def addressPushes : List Push :=
  let addressEntries := entries contact "address_entries"
  if addressEntries.isEmpty then
    match contact.get? "address" with
    | some address => [addressPush "HOME".toList address]
    | none => []
  else addressEntries.map fun entry => addressPush (typeOrOther T entry) entry

/-- One round of the loop over `date_entries`. -/
def datePush (entry : Json) : Option Push :=
  let value := stringField entry "value"
  if escapeValue value = [] then none
  else if upperType T entry = "ANNIVERSARY".toList then some (plain "ANNIVERSARY" value)
  else some (typed "X-ASTER-DATE" (upperType T entry) value)

def sitePushes : List Push :=
  let websites := entries contact "websites"
  if websites.isEmpty then
    match ((contact.get? "social_links").bind (Json.get? · "website")).bind Json.asStr with
    | some link => [plain "URL" link.toList]
    | none => []
  else typedPushes T "URL" websites

def groupPushes : List Push :=
  let groups := (entries contact "groups").filterMap Json.asStr
  if groups.isEmpty then []
  else [⟨"CATEGORIES".toList, [], .fields ',' (groups.map String.toList)⟩]

def favoritePushes : List Push :=
  if ((contact.get? "is_favorite").bind Json.asBool).getD false then
    [⟨"X-ASTER-FAVORITE".toList, [], .literal ['1']⟩]
  else []

/-- A text of the contact as a property of its own. -/
def fieldPush (name key : String) : Push := plain name (stringField contact key)

/-- The parts of `N`. -/
def nameParts : List (List Char) :=
  [stringField contact "last_name", stringField contact "first_name",
    stringField contact "middle_name", stringField contact "title",
    stringField contact "name_suffix"]

def identityPushes (uid : List Char) : List Push :=
  [⟨"PRODID".toList, [], .literal "-//Aster//Aster Bridge//EN".toList⟩, plain "UID" uid,
    plain "FN" (displayName contact), ⟨"N".toList, [], .fields ';' (nameParts contact)⟩,
    fieldPush contact "NICKNAME" "nickname"]

def notePushes : List Push :=
  [fieldPush contact "NOTE" "notes",
    fieldPush contact "X-PHONETIC-FIRST-NAME" "phonetic_first_name",
    fieldPush contact "X-PHONETIC-LAST-NAME" "phonetic_last_name",
    fieldPush contact "X-ASTER-PRONOUNS" "pronouns"]

/-- The calls of `push_property` in `contact_to_vcard`, in order. -/
def cardPushes (uid : List Char) (revision : List Char) : List Push :=
  identityPushes contact uid ++ emailPushes T contact ++ phonePushes contact ++
    orgPushes contact ++ [fieldPush contact "TITLE" "job_title", fieldPush contact "ROLE" "role"] ++
    addressPushes T contact ++ [fieldPush contact "BDAY" "birthday"] ++
    (entries contact "date_entries").filterMap (datePush T) ++ sitePushes T contact ++
    typedPushes T "X-SOCIALPROFILE" (entries contact "social_networks") ++
    typedPushes T "IMPP" (entries contact "instant_messengers") ++
    typedPushes T "X-ASTER-RELATED" (entries contact "related_people") ++ groupPushes contact ++
    notePushes contact ++ favoritePushes contact ++ [plain "REV" revision]

/-- `contact_to_vcard` -/
def contactToVcard (uid : List Char) (revision : List Char) : List Char :=
  (cardPushes T contact uid revision).foldl
      (fun out p => pushProperty out p.name p.params p.content.encode)
      ("BEGIN:VCARD".toList ++ crlf ++ "VERSION:3.0".toList ++ crlf) ++
    "END:VCARD".toList ++ crlf

end Sections

/-! ## Every property is proper -/

/-- The names are names, and the value has no line break and can be read back. -/
structure Push.Proper (p : Push) : Prop where
  name : IsName p.name
  keys : ∀ param ∈ p.params, IsName param.1
  value : NoBreak p.content.encode
  reads : p.content.Reads p.content.encode

section Proper

variable {name : String} {type text : List Char}

theorem isName_type : IsName "TYPE".toList := by decide

theorem proper_plain (h : IsName name.toList) : (plain name text).Proper where
  name := h
  keys _ hparam := absurd hparam List.not_mem_nil
  value := noBreak_escapeValue text
  reads := unescapeValue_escapeValue text

theorem proper_typed (h : IsName name.toList) : (typed name type text).Proper where
  name := h
  keys param hparam := by
    rw [List.mem_singleton.1 hparam]
    exact isName_type
  value := noBreak_escapeValue text
  reads := unescapeValue_escapeValue text

theorem noBreak_fields {separator : Char} (h : separator = ',' ∨ separator = ';')
    (parts : List (List Char)) : NoBreak (Content.fields separator parts).encode := by
  intro c hc
  rcases mem_of_mem_intercalate hc with hsep | ⟨part, hpart, hmem⟩
  · rw [List.mem_singleton.1 hsep]
    rcases h with rfl | rfl
    · decide
    · decide
  · obtain ⟨s, -, rfl⟩ := List.mem_map.1 hpart
    exact noBreak_escapeValue s c hmem

theorem reads_fields {separator : Char} (h : separator = ',' ∨ separator = ';')
    {parts : List (List Char)} (hne : parts ≠ []) :
    (Content.fields separator parts).Reads (Content.fields separator parts).encode := by
  show (splitUnescaped _ separator).map unescapeValue = _
  rw [Content.encode, splitUnescaped_join h hne, List.map_map]
  apply List.map_congr_left
  intro s _
  exact unescapeValue_escapeValue s

theorem proper_fields {params : List (List Char × List Char)} {separator : Char}
    (hname : IsName name.toList) (hkeys : ∀ param ∈ params, IsName param.1)
    (h : separator = ',' ∨ separator = ';') {parts : List (List Char)} (hne : parts ≠ []) :
    Push.Proper ⟨name.toList, params, .fields separator parts⟩ where
  name := hname
  keys := hkeys
  value := noBreak_fields h parts
  reads := reads_fields h hne

theorem proper_literal {params : List (List Char × List Char)} (hname : IsName name.toList)
    (hkeys : ∀ param ∈ params, IsName param.1) (h : NoBreak text) :
    Push.Proper ⟨name.toList, params, .literal text⟩ where
  name := hname
  keys := hkeys
  value := h
  reads := rfl

end Proper

section Pushes

variable (T : CaseMaps) (contact : Json) {p : Push}

theorem proper_field {name key : String} (h : IsName name.toList) :
    (fieldPush contact name key).Proper :=
  proper_plain h

theorem proper_identity (uid : List Char) (h : p ∈ identityPushes contact uid) : p.Proper := by
  simp only [identityPushes, List.mem_cons, List.not_mem_nil, or_false] at h
  rcases h with rfl | rfl | rfl | rfl | rfl
  · exact proper_literal (by decide) (by simp) (by decide)
  · exact proper_plain (by decide)
  · exact proper_plain (by decide)
  · exact proper_fields (by decide) (by simp) (Or.inr rfl) (by simp [nameParts])
  · exact proper_field contact (by decide)

theorem proper_email (h : p ∈ emailPushes T contact) : p.Proper := by
  unfold emailPushes at h
  dsimp only at h
  split at h
  · obtain ⟨email, -, hsome⟩ := List.mem_filterMap.1 h
    obtain ⟨address, -, rfl⟩ := Option.map_eq_some_iff.1 hsome
    exact proper_typed (by decide)
  · obtain ⟨entry, -, rfl⟩ := List.mem_map.1 h
    exact proper_typed (by decide)

theorem proper_phone (h : p ∈ phonePushes contact) : p.Proper := by
  unfold phonePushes at h
  dsimp only at h
  split at h
  · rw [List.mem_singleton.1 h]
    exact proper_typed (by decide)
  · obtain ⟨entry, -, rfl⟩ := List.mem_map.1 h
    exact proper_typed (by decide)

theorem proper_org (h : p ∈ orgPushes contact) : p.Proper := by
  unfold orgPushes at h
  dsimp only at h
  split at h
  · rw [List.mem_singleton.1 h]
    exact proper_fields (by decide) (by simp) (Or.inr rfl) (by simp)
  · cases h

theorem proper_addressPush (type : List Char) (address : Json) :
    (addressPush type address).Proper := by
  have hkeys : ∀ param ∈ [("TYPE".toList, type)], IsName param.1 := by
    intro param hparam
    rw [List.mem_singleton.1 hparam]
    exact isName_type
  unfold addressPush addressContent
  split
  · exact proper_literal (by decide) hkeys noBreak_nil
  · exact proper_fields (by decide) hkeys (Or.inr rfl) (by simp [addressParts])

theorem proper_address (h : p ∈ addressPushes T contact) : p.Proper := by
  unfold addressPushes at h
  dsimp only at h
  split at h
  · split at h
    · rw [List.mem_singleton.1 h]
      exact proper_addressPush _ _
    · cases h
  · obtain ⟨entry, -, rfl⟩ := List.mem_map.1 h
    exact proper_addressPush _ _

theorem proper_date {entry : Json} (h : datePush T entry = some p) : p.Proper := by
  unfold datePush at h
  dsimp only at h
  split at h
  · cases h
  · split at h
    · obtain rfl := Option.some.inj h
      exact proper_plain (by decide)
    · obtain rfl := Option.some.inj h
      exact proper_typed (by decide)

theorem proper_typedPushes {name : String} {list : List Json} (hname : IsName name.toList)
    (h : p ∈ typedPushes T name list) : p.Proper := by
  obtain ⟨entry, -, rfl⟩ := List.mem_map.1 h
  exact proper_typed hname

theorem proper_site (h : p ∈ sitePushes T contact) : p.Proper := by
  unfold sitePushes at h
  dsimp only at h
  split at h
  · split at h
    · rw [List.mem_singleton.1 h]
      exact proper_plain (by decide)
    · cases h
  · exact proper_typedPushes T (by decide) h

theorem proper_group (h : p ∈ groupPushes contact) : p.Proper := by
  unfold groupPushes at h
  dsimp only at h
  split at h
  · cases h
  · rename_i hne
    rw [List.mem_singleton.1 h]
    apply proper_fields (by decide) (by simp) (Or.inl rfl)
    simpa using hne

theorem proper_note (h : p ∈ notePushes contact) : p.Proper := by
  simp only [notePushes, List.mem_cons, List.not_mem_nil, or_false] at h
  rcases h with rfl | rfl | rfl | rfl
  · exact proper_field contact (by decide)
  · exact proper_field contact (by decide)
  · exact proper_field contact (by decide)
  · exact proper_field contact (by decide)

theorem proper_favorite (h : p ∈ favoritePushes contact) : p.Proper := by
  unfold favoritePushes at h
  split at h
  · rw [List.mem_singleton.1 h]
    exact proper_literal (by decide) (by simp) (by decide)
  · cases h

theorem proper_cardPushes (uid revision : List Char)
    (h : p ∈ cardPushes T contact uid revision) : p.Proper := by
  simp only [cardPushes, List.mem_append, List.mem_cons, List.not_mem_nil, or_false, or_assoc] at h
  rcases h with h | h | h | h | rfl | rfl | h | rfl | h | h | h | h | h | h | h | h | rfl
  · exact proper_identity contact uid h
  · exact proper_email T contact h
  · exact proper_phone contact h
  · exact proper_org contact h
  · exact proper_field contact (by decide)
  · exact proper_field contact (by decide)
  · exact proper_address T contact h
  · exact proper_field contact (by decide)
  · obtain ⟨entry, -, hsome⟩ := List.mem_filterMap.1 h
    exact proper_date T hsome
  · exact proper_site T contact h
  · exact proper_typedPushes T (by decide) h
  · exact proper_typedPushes T (by decide) h
  · exact proper_typedPushes T (by decide) h
  · exact proper_group contact h
  · exact proper_note contact h
  · exact proper_favorite contact h
  · exact proper_plain (by decide)

end Pushes

/-! ## The card read back -/

/-- Whether `push_property` writes anything. -/
def Push.written (p : Push) : Bool := p.content.encode ≠ []

/-- A property as it is read. -/
def Push.asRead (p : Push) : VCardProperty :=
  ⟨p.name, p.params.filterMap readParam, p.content.encode⟩

/-- The line of a property. -/
def Push.line (p : Push) : List Char := propertyLine p.name p.params p.content.encode

section Reading

variable {pushes : List Push} {lines : List (List Char)}

theorem pushProperty_append (out name : List Char) (params : List (List Char × List Char))
    (value : List Char) :
    pushProperty out name params value = out ++ pushProperty [] name params value := by
  unfold pushProperty foldLine
  split
  · rw [List.append_nil]
  · rfl

/-- The text that a list of properties adds. -/
def pushText (pushes : List Push) : List Char :=
  pushes.flatMap fun p => pushProperty [] p.name p.params p.content.encode

theorem foldl_pushProperty (pushes : List Push) (out : List Char) :
    pushes.foldl (fun out p => pushProperty out p.name p.params p.content.encode) out =
      out ++ pushText pushes := by
  induction pushes generalizing out with
  | nil => simp [pushText]
  | cons p pushes ih =>
      rw [List.foldl_cons, ih, pushProperty_append]
      simp [pushText]

/-- The lines of the written text are the lines of its properties. -/
theorem unfoldFrom_pushText (h : ∀ p ∈ pushes, p.Proper) (rest : List Char) :
    unfoldFrom lines (pushText pushes ++ rest) =
      unfoldFrom (lines ++ (pushes.filter Push.written).map Push.line) rest := by
  induction pushes generalizing lines with
  | nil => simp [pushText]
  | cons p pushes ih =>
      have hp := h p List.mem_cons_self
      have hrest : ∀ lines, unfoldFrom lines (pushText pushes ++ rest) =
          unfoldFrom (lines ++ (pushes.filter Push.written).map Push.line) rest := fun _ =>
        ih fun q hq => h q (List.mem_cons_of_mem _ hq)
      unfold pushText at hrest ⊢
      rw [List.flatMap_cons, List.append_assoc]
      by_cases hwritten : p.content.encode = []
      · have hnot : p.written = false := by simp [Push.written, hwritten]
        rw [pushProperty, if_pos hwritten, List.nil_append, hrest,
          List.filter_cons_of_neg (by simp [hnot])]
      · have hyes : p.written = true := by simp [Push.written, hwritten]
        rw [unfoldFrom_push hp.name hp.keys hp.value hwritten, hrest,
          List.filter_cons_of_pos hyes, List.map_cons, List.append_assoc]
        rfl

theorem filterMap_line (T : CaseMaps) (h : ∀ p ∈ pushes, p.Proper) :
    (pushes.map Push.line).filterMap (parseLine T) = pushes.map Push.asRead := by
  induction pushes with
  | nil => rfl
  | cons p pushes ih =>
      have hp := h p List.mem_cons_self
      have hline : parseLine T p.line = some p.asRead :=
        parseLine_propertyLine T hp.name hp.keys _
      rw [List.map_cons, List.filterMap_cons, hline, List.map_cons,
        ih fun q hq => h q (List.mem_cons_of_mem _ hq)]

end Reading

/-- The properties around those of the contact. -/
def frameProperty (name value : String) : VCardProperty := ⟨name.toList, [], value.toList⟩

theorem parseLine_frame (T : CaseMaps) {name : String} (h : IsName name.toList) (value : String) :
    parseLine T (name.toList ++ ':' :: value.toList) = some (frameProperty name value) := by
  have hline : parseLine T (propertyLine name.toList [] value.toList) =
      some (frameProperty name value) := parseLine_propertyLine T h (by simp) value.toList
  rwa [propertyLine, List.flatMap_nil, List.append_nil] at hline

theorem unfold_contactToVcard (T : CaseMaps) (contact : Json) (uid revision : List Char) :
    unfold (contactToVcard T contact uid revision) =
      ["BEGIN:VCARD".toList, "VERSION:3.0".toList] ++
        ((cardPushes T contact uid revision).filter Push.written).map Push.line ++
          ["END:VCARD".toList, []] := by
  have hproper : ∀ p ∈ cardPushes T contact uid revision, p.Proper :=
    fun p hp => proper_cardPushes T contact uid revision hp
  have hbegin : ∀ rest, unfoldFrom [] ("BEGIN:VCARD".toList ++ crlf ++ rest) =
      unfoldFrom ["BEGIN:VCARD".toList] rest := unfoldFrom_line (by decide)
  have hversion : ∀ rest, unfoldFrom ["BEGIN:VCARD".toList] ("VERSION:3.0".toList ++ crlf ++ rest) =
      unfoldFrom ["BEGIN:VCARD".toList, "VERSION:3.0".toList] rest := unfoldFrom_line (by decide)
  have hend : ∀ lines : List (List Char), unfoldFrom lines ("END:VCARD".toList ++ crlf) =
      lines ++ ["END:VCARD".toList, []] := by
    intro lines
    have hbreak : NoBreak "END:VCARD".toList := by decide
    have hline : unfoldFrom lines ("END:VCARD".toList ++ crlf ++ []) =
        unfoldFrom (unfoldStep lines "END:VCARD".toList) [] := unfoldFrom_line hbreak []
    rw [List.append_nil] at hline
    rw [hline]
    have hstep : unfoldStep lines "END:VCARD".toList = lines ++ ["END:VCARD".toList] := by
      rcases unfoldStep_cases lines hbreak with
        ⟨_, _, _, hhead, _⟩ | ⟨_, hstep⟩
      · exact absurd hhead (by decide)
      · exact hstep
    have hlast : unfoldStep (lines ++ ["END:VCARD".toList]) [] =
        lines ++ ["END:VCARD".toList] ++ [[]] := by
      rcases unfoldStep_cases (lines ++ ["END:VCARD".toList]) noBreak_nil with
        ⟨_, _, _, hhead, _⟩ | ⟨_, hstep⟩
      · exact absurd hhead (by decide)
      · exact hstep
    rw [hstep]
    show unfoldStep (lines ++ ["END:VCARD".toList]) [] = _
    rw [hlast, List.append_assoc]
    rfl
  show unfoldFrom [] (contactToVcard T contact uid revision) = _
  rw [contactToVcard, foldl_pushProperty]
  simp only [List.append_assoc]
  rw [← List.append_assoc, hbegin, ← List.append_assoc, hversion, unfoldFrom_pushText hproper, hend]
  simp only [List.append_assoc]

/-- What is read between `BEGIN` and `END`. -/
theorem parseProperties_cardPushes (T : CaseMaps) (contact : Json) (uid revision : List Char) :
    parseProperties T (contactToVcard T contact uid revision) =
      [frameProperty "BEGIN" "VCARD", frameProperty "VERSION" "3.0"] ++
        ((cardPushes T contact uid revision).filter Push.written).map Push.asRead ++
          [frameProperty "END" "VCARD"] := by
  have hproper : ∀ p ∈ cardPushes T contact uid revision, p.Proper :=
    fun p hp => proper_cardPushes T contact uid revision hp
  have hlines : (((cardPushes T contact uid revision).filter Push.written).map
      Push.line).filterMap (parseLine T) =
        ((cardPushes T contact uid revision).filter Push.written).map Push.asRead :=
    filterMap_line T fun p hp => hproper p (List.mem_filter.1 hp).1
  have hbegin : parseLine T "BEGIN:VCARD".toList = some (frameProperty "BEGIN" "VCARD") :=
    parseLine_frame T (show IsName "BEGIN".toList by decide) "VCARD"
  have hversion : parseLine T "VERSION:3.0".toList = some (frameProperty "VERSION" "3.0") :=
    parseLine_frame T (show IsName "VERSION".toList by decide) "3.0"
  have hend : parseLine T "END:VCARD".toList = some (frameProperty "END" "VCARD") :=
    parseLine_frame T (show IsName "END".toList by decide) "VCARD"
  have hempty : parseLine T [] = none := rfl
  rw [parseProperties, unfold_contactToVcard, List.filterMap_append, List.filterMap_append,
    hlines]
  simp only [List.filterMap_cons, List.filterMap_nil, hbegin, hversion, hend, hempty]

/-- **A card reads as the properties of its contact**, in order, each with a value that reads as
what it was written from. -/
theorem parseProperties_contactToVcard (T : CaseMaps) (contact : Json) (uid revision : List Char) :
    parseProperties T (contactToVcard T contact uid revision) =
        [frameProperty "BEGIN" "VCARD", frameProperty "VERSION" "3.0"] ++
          ((cardPushes T contact uid revision).filter Push.written).map Push.asRead ++
            [frameProperty "END" "VCARD"] ∧
      ∀ p ∈ cardPushes T contact uid revision, p.content.Reads p.asRead.value := by
  constructor
  · exact parseProperties_cardPushes T contact uid revision
  · intro p hp
    exact (proper_cardPushes T contact uid revision hp).reads

end AsterBridge.Dav
