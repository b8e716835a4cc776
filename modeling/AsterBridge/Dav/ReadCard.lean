import AsterBridge.Dav.Card

/-!
# Contacts read from vCards

`vcard_to_contact` of `dav/vcard.rs`. A text of the contact that is not set is empty here, since
`set_string` sets no empty text; `Contact.toJson` is the map that is returned. What is read from a
card whose CRs belong to line ends is `Canonical`: every text is trimmed and without CR, and every
type is one that the bridge knows.
-/

set_option autoImplicit false

namespace AsterBridge.Dav

open AsterBridge.Lib AsterBridge.Lib.Text AsterBridge.Lib.Lines AsterBridge.Lib.Unicode

/-! ## Contacts -/

/-- An entry of a list: a value with its type. -/
structure TypedValue where
  value : List Char
  type : String

/-- An entry of `address_entries`. -/
structure AddressEntry where
  type : String
  street : List Char
  city : List Char
  state : List Char
  postalCode : List Char
  country : List Char

/-- The variables of `vcard_to_contact`, with the texts of its map. -/
structure Contact where
  lastName : List Char
  firstName : List Char
  middleName : List Char
  title : List Char
  nameSuffix : List Char
  nickname : List Char
  emailEntries : List TypedValue
  phoneEntries : List TypedValue
  company : List Char
  department : List Char
  jobTitle : List Char
  role : List Char
  addressEntries : List AddressEntry
  birthday : List Char
  dateEntries : List TypedValue
  websites : List TypedValue
  socialNetworks : List TypedValue
  instantMessengers : List TypedValue
  relatedPeople : List TypedValue
  groups : List (List Char)
  notes : List Char
  phoneticFirstName : List Char
  phoneticLastName : List Char
  pronouns : List Char
  isFavorite : Bool

/-- Nothing is read yet. -/
def Contact.empty : Contact :=
  ⟨[], [], [], [], [], [], [], [], [], [], [], [], [], [], [], [], [], [], [], [], [], [], [], [],
    false⟩

def textJson (s : List Char) : Json := .string (String.ofList s)

def TypedValue.toJson (e : TypedValue) : Json :=
  .object [("value", textJson e.value), ("type", .string e.type)]

def AddressEntry.toJson (e : AddressEntry) : Json :=
  .object [("type", .string e.type), ("street", textJson e.street), ("city", textJson e.city),
    ("state", textJson e.state), ("postal_code", textJson e.postalCode),
    ("country", textJson e.country)]

/-- The texts that are in the map where they are not empty. -/
def Contact.texts (c : Contact) : List (String × List Char) :=
  [("middle_name", c.middleName), ("title", c.title), ("name_suffix", c.nameSuffix),
    ("nickname", c.nickname), ("company", c.company), ("department", c.department),
    ("job_title", c.jobTitle), ("role", c.role), ("birthday", c.birthday), ("notes", c.notes),
    ("phonetic_first_name", c.phoneticFirstName), ("phonetic_last_name", c.phoneticLastName),
    ("pronouns", c.pronouns), ("phone", (c.phoneEntries.head?.map TypedValue.value).getD [])]

/-- The arguments of `insert_list`. -/
def Contact.lists (c : Contact) : List (String × List Json) :=
  [("email_entries", c.emailEntries.map TypedValue.toJson),
    ("phone_entries", c.phoneEntries.map TypedValue.toJson),
    ("address_entries", c.addressEntries.map AddressEntry.toJson),
    ("websites", c.websites.map TypedValue.toJson),
    ("social_networks", c.socialNetworks.map TypedValue.toJson),
    ("instant_messengers", c.instantMessengers.map TypedValue.toJson),
    ("related_people", c.relatedPeople.map TypedValue.toJson),
    ("date_entries", c.dateEntries.map TypedValue.toJson), ("groups", c.groups.map textJson)]

/-- A text in the map. -/
def optionalText (s : List Char) : Option Json := if s = [] then none else some (textJson s)

/-- A list in the map. -/
def optionalList (list : List Json) : Option Json :=
  if list.isEmpty then none else some (.array list)

/-- The members that are always in the map, and `address`. -/
def Contact.fixed (c : Contact) : List (String × Json) :=
  [("first_name", textJson c.firstName), ("last_name", textJson c.lastName),
    ("emails", .array (c.emailEntries.map fun e => textJson e.value)),
    ("is_favorite", .bool c.isFavorite)]

/-- The map that is returned. -/
def Contact.toJson (c : Contact) : Json :=
  .object (c.fixed ++
    (c.addressEntries.head?.map fun e => ("address", e.toJson)).toList ++
    c.texts.filterMap (fun e => (optionalText e.2).map (e.1, ·)) ++
    c.lists.filterMap (fun e => (optionalList e.2).map (e.1, ·)))

/-! ## Reading -/

/-- The `match` of `normalized_type`. -/
def mappedType (raw : String) : String :=
  if raw = "cell" ∨ raw = "mobile" ∨ raw = "iphone" then "mobile"
  else if raw = "internet" ∨ raw = "pref" ∨ raw = "voice" then ""
  else raw

/-- `normalized_type` -/
def normalizedType (T : CaseMaps) (p : VCardProperty) (allowed : List String)
    (fallback : String) : String :=
  (((p.types T).map fun raw => mappedType (String.ofList raw)).find?
    fun mapped => allowed.contains mapped).getD fallback

/-- `set_string` -/
def setString (old new : List Char) : List Char := if new = [] then old else new

/-- The closure `get` of the structured properties. -/
def part (value : List Char) (index : Nat) : List Char :=
  (((splitUnescaped value ';')[index]?).map fun p => trim (unescapeValue p)).getD []

/-- The list with one more entry, where the value of the property is not empty. -/
def addTyped (T : CaseMaps) (p : VCardProperty) (allowed : List String)
    (list : List TypedValue) : List TypedValue :=
  let value := trim (unescapeValue p.value)
  if value = [] then list else list ++ [⟨value, normalizedType T p allowed "other"⟩]

def emailTypes : List String := ["home", "work", "other"]

def phoneTypes : List String := ["mobile", "home", "work", "fax", "pager", "other"]

def addressTypes : List String := ["home", "work", "other"]

def dateTypes : List String := ["anniversary", "graduation", "wedding", "other"]

def siteTypes : List String := ["private", "work", "blog", "other"]

def networkTypes : List String :=
  ["twitter", "linkedin", "github", "instagram", "facebook", "mastodon", "bluesky", "other"]

def messengerTypes : List String := ["signal", "matrix", "telegram", "whatsapp", "xmpp", "other"]

def relationTypes : List String :=
  ["assistant", "manager", "spouse", "partner", "child", "parent", "sibling", "friend", "other"]

/-- The arm of `ADR`. -/
def addAddress (T : CaseMaps) (p : VCardProperty) (list : List AddressEntry) :
    List AddressEntry :=
  let entry : AddressEntry :=
    { type := normalizedType T p addressTypes "other"
      street := part p.value 2
      city := part p.value 3
      state := part p.value 4
      postalCode := part p.value 5
      country := part p.value 6 }
  if entry.street = [] ∧ entry.city = [] ∧ entry.state = [] ∧ entry.postalCode = [] ∧
      entry.country = [] then list
  else list ++ [entry]

/-- The groups of a value of `CATEGORIES`. -/
def groupsOf (value : List Char) : List (List Char) :=
  ((splitUnescaped value ',').map fun group => trim (unescapeValue group)).filter (· ≠ [])

/-- The arm of `ANNIVERSARY`. -/
def addAnniversary (p : VCardProperty) (list : List TypedValue) : List TypedValue :=
  let date := trim (unescapeValue p.value)
  if date = [] then list else list ++ [⟨date, "anniversary"⟩]

/-- The contact as far as it is read, with `formatted_name`. -/
structure Reading where
  contact : Contact
  formattedName : List Char

/-- The `match` of `vcard_to_contact`. -/
def readProperty (T : CaseMaps) (r : Reading) (p : VCardProperty) : Reading :=
  let c := r.contact
  let text := trim (unescapeValue p.value)
  match String.ofList p.name with
  | "FN" => { r with formattedName := text }
  | "N" =>
      { r with
        contact :=
          { c with
            lastName := setString c.lastName (part p.value 0)
            firstName := setString c.firstName (part p.value 1)
            middleName := setString c.middleName (part p.value 2)
            title := setString c.title (part p.value 3)
            nameSuffix := setString c.nameSuffix (part p.value 4) } }
  | "NICKNAME" => { r with contact := { c with nickname := setString c.nickname text } }
  | "EMAIL" =>
      { r with contact := { c with emailEntries := addTyped T p emailTypes c.emailEntries } }
  | "TEL" =>
      { r with contact := { c with phoneEntries := addTyped T p phoneTypes c.phoneEntries } }
  | "ORG" =>
      { r with
        contact :=
          { c with
            company := setString c.company (part p.value 0)
            department := setString c.department (part p.value 1) } }
  | "TITLE" => { r with contact := { c with jobTitle := setString c.jobTitle text } }
  | "ROLE" => { r with contact := { c with role := setString c.role text } }
  | "ADR" => { r with contact := { c with addressEntries := addAddress T p c.addressEntries } }
  | "BDAY" => { r with contact := { c with birthday := setString c.birthday text } }
  | "ANNIVERSARY" =>
      { r with contact := { c with dateEntries := addAnniversary p c.dateEntries } }
  | "X-ASTER-DATE" =>
      { r with contact := { c with dateEntries := addTyped T p dateTypes c.dateEntries } }
  | "URL" => { r with contact := { c with websites := addTyped T p siteTypes c.websites } }
  | "X-SOCIALPROFILE" =>
      { r with contact := { c with socialNetworks := addTyped T p networkTypes c.socialNetworks } }
  | "IMPP" =>
      { r with
        contact := { c with instantMessengers := addTyped T p messengerTypes c.instantMessengers } }
  | "X-ASTER-RELATED" =>
      { r with contact := { c with relatedPeople := addTyped T p relationTypes c.relatedPeople } }
  | "CATEGORIES" => { r with contact := { c with groups := c.groups ++ groupsOf p.value } }
  | "NOTE" => { r with contact := { c with notes := setString c.notes (unescapeValue p.value) } }
  | "X-PHONETIC-FIRST-NAME" =>
      { r with contact := { c with phoneticFirstName := setString c.phoneticFirstName text } }
  | "X-PHONETIC-LAST-NAME" =>
      { r with contact := { c with phoneticLastName := setString c.phoneticLastName text } }
  | "X-ASTER-PRONOUNS" => { r with contact := { c with pronouns := setString c.pronouns text } }
  | "X-ASTER-FAVORITE" => { r with contact := { c with isFavorite := text = ['1'] } }
  | _ => r

/-- The contact whose fallback name is compared with `FN`. -/
def fallbackOf (c : Contact) : List Char :=
  fallbackDisplayName (.object
    [("nickname", (optionalText c.nickname).getD .null),
      ("company", (optionalText c.company).getD .null),
      ("emails", .array (c.emailEntries.map fun e => textJson e.value))])

/-- The names that are taken from `FN` where `N` has none. -/
def namesFromFormatted (r : Reading) : Contact :=
  let c := r.contact
  if c.firstName = [] ∧ c.lastName = [] ∧ r.formattedName ≠ fallbackOf c then
    { c with
      firstName := setString c.firstName (trim (r.formattedName.takeWhile (· ≠ ' ')))
      lastName :=
        setString c.lastName (trim ((r.formattedName.dropWhile (· ≠ ' ')).drop 1)) }
  else c

/-- The contact that `vcard_to_contact` reads. -/
def readContact (T : CaseMaps) (text : List Char) : Contact :=
  namesFromFormatted ((parseProperties T text).foldl (readProperty T) ⟨Contact.empty, []⟩)

/-- `vcard_to_contact` -/
def vcardToContact (T : CaseMaps) (text : List Char) : Json := (readContact T text).toJson

/-! ## Texts without CR -/

/-- Every CR belongs to the end of a line. -/
def CrBeforeLf (text : List Char) : Prop :=
  ∀ before after, text = before ++ '\r' :: after → after.head? = some '\n'

instance decidableCrBeforeLf : ∀ text : List Char, Decidable (CrBeforeLf text)
  | [] => isTrue fun before after h => absurd h (by simp)
  | c :: rest =>
      have := decidableCrBeforeLf rest
      decidable_of_iff ((c = '\r' → rest.head? = some '\n') ∧ CrBeforeLf rest) (by
        constructor
        · rintro ⟨hfirst, hrest⟩ before after h
          cases before with
          | nil =>
              obtain ⟨rfl, rfl⟩ := List.cons.inj h
              exact hfirst rfl
          | cons d before => exact hrest before after (List.cons.inj h).2
        · intro h
          constructor
          · rintro rfl
            exact h [] rest rfl
          · rintro before after rfl
            exact h (c :: before) after rfl)

section NoCr

variable {s text line value : List Char}

/-- The pieces between the line feeds of a text, in their places. -/
theorem mem_splitOn_cases {xs : List Char} (h : s ∈ xs.splitOn '\n') :
    ∃ before after, xs = before ++ s ++ after ∧ (after = [] ∨ after.head? = some '\n') := by
  have hjoin : ∀ pieces : List (List Char), s ∈ pieces → ∃ before after,
      ['\n'].intercalate pieces = before ++ s ++ after ∧
        (after = [] ∨ after.head? = some '\n') := by
    intro pieces
    induction pieces with
    | nil =>
        intro hmem
        cases hmem
    | cons first pieces ih =>
        intro hmem
        cases pieces with
        | nil =>
            refine ⟨[], [], ?_, Or.inl rfl⟩
            rw [List.mem_singleton.1 hmem, List.intercalate_singleton]
            simp
        | cons second pieces =>
            rw [List.intercalate_cons_cons]
            rcases List.mem_cons.1 hmem with rfl | hrest
            · exact ⟨[], ['\n'] ++ ['\n'].intercalate (second :: pieces), by simp, Or.inr rfl⟩
            · obtain ⟨before, after, heq, hafter⟩ := ih hrest
              refine ⟨first ++ ['\n'] ++ before, after, ?_, hafter⟩
              rw [heq]
              simp
  have hall := hjoin _ h
  rwa [List.intercalate_splitOn] at hall

/-- A line without the CR of its end has none. -/
theorem not_mem_stripCr (h : CrBeforeLf text) (hs : s ∈ text.splitOn '\n') :
    '\r' ∉ stripCr s := by
  obtain ⟨before, after, htext, -⟩ := mem_splitOn_cases hs
  -- a CR with something of the line behind it
  have hinside : ∀ u d v, s ≠ u ++ '\r' :: d :: v := by
    rintro u d v rfl
    have hhead := h (before ++ u) (d :: v ++ after) (by simp [htext])
    have hlf : d = '\n' := by simpa using hhead
    have hmem : d ∈ u ++ '\r' :: d :: v := by simp
    exact (mem_of_mem_splitOn hs hmem).2 hlf
  intro hmem
  unfold stripCr at hmem
  split at hmem
  · rename_i hlast
    have hne : s ≠ [] := by
      rintro rfl
      cases hlast
    obtain ⟨u, v, hsplit⟩ := List.append_of_mem hmem
    have hs' : s = u ++ '\r' :: (v ++ [s.getLast hne]) := by
      conv_lhs => rw [← List.dropLast_append_getLast hne, hsplit]
      simp
    cases v with
    | nil => exact hinside u _ [] hs'
    | cons d v => exact hinside u d _ hs'
  · rename_i hlast
    obtain ⟨u, v, rfl⟩ := List.append_of_mem hmem
    cases v with
    | nil => exact hlast (by simp)
    | cons d v => exact hinside u d v rfl

theorem not_mem_unfoldStep {lines : List (List Char)} {raw : List Char}
    (hlines : ∀ line ∈ lines, '\r' ∉ line) (hraw : '\r' ∉ stripCr raw) :
    ∀ line ∈ unfoldStep lines raw, '\r' ∉ line := by
  have hnew : ∀ line ∈ lines ++ [stripCr raw], '\r' ∉ line := by
    intro line hline
    rcases List.mem_append.1 hline with hold | hlast
    · exact hlines line hold
    · rwa [List.mem_singleton.1 hlast]
  unfold unfoldStep
  dsimp only
  split
  · rename_i last hlast
    split
    · intro line hline
      rcases List.mem_append.1 hline with hold | hjoined
      · exact hlines line (List.mem_of_mem_dropLast hold)
      · rw [List.mem_singleton.1 hjoined]
        intro hmem
        rcases List.mem_append.1 hmem with hmem | hmem
        · exact hlines last (List.mem_of_getLast? hlast) hmem
        · exact hraw (List.mem_of_mem_drop hmem)
    · exact hnew
  · exact hnew

theorem not_mem_unfold (h : CrBeforeLf text) (hline : line ∈ unfold text) : '\r' ∉ line := by
  have hfold : ∀ (raws lines : List (List Char)), (∀ line ∈ lines, '\r' ∉ line) →
      (∀ raw ∈ raws, '\r' ∉ stripCr raw) → ∀ line ∈ raws.foldl unfoldStep lines, '\r' ∉ line := by
    intro raws
    induction raws with
    | nil =>
        intro lines hlines _
        exact hlines
    | cons raw raws ih =>
        intro lines hlines hraws
        apply ih
        · exact not_mem_unfoldStep hlines (hraws raw List.mem_cons_self)
        · exact fun r hr => hraws r (List.mem_cons_of_mem _ hr)
  exact hfold _ [] (by simp) (fun raw hraw => not_mem_stripCr h hraw) line hline

/-- The value of a line is a part of it. -/
theorem mem_of_splitAtColon {quoted : Bool} {head : List Char} {c : Char}
    (h : splitAtColon quoted line = some (head, value)) (hc : c ∈ value) : c ∈ line := by
  induction line generalizing quoted head with
  | nil => cases h
  | cons d line ih =>
      rw [splitAtColon] at h
      split at h
      · obtain ⟨-, rfl⟩ := Prod.mk.inj (Option.some.inj h)
        exact List.mem_cons_of_mem _ hc
      · obtain ⟨parts, hparts, heq⟩ := Option.map_eq_some_iff.1 h
        obtain ⟨-, rfl⟩ := Prod.mk.inj heq
        exact List.mem_cons_of_mem _ (ih hparts)

theorem not_mem_value (T : CaseMaps) (h : CrBeforeLf text) {p : VCardProperty}
    (hp : p ∈ parseProperties T text) : '\r' ∉ p.value := by
  obtain ⟨line, hline, hsome⟩ := List.mem_filterMap.1 hp
  unfold parseLine at hsome
  split at hsome
  · cases hsome
  · obtain ⟨parts, hparts, rfl⟩ := Option.map_eq_some_iff.1 hsome
    intro hmem
    exact not_mem_unfold h hline (mem_of_splitAtColon hparts hmem)

/-- Unescaping brings in no CR. -/
theorem not_mem_unescapeValue (h : '\r' ∉ s) : '\r' ∉ unescapeValue s := by
  induction s using unescapeValue.induct with
  | case1 => exact List.not_mem_nil
  | case2 => decide
  | case3 c rest ih =>
      have hrest : '\r' ∉ unescapeValue rest := ih fun hmem => h (by simp [hmem])
      have hc : c ≠ '\r' := fun heq => h (by simp [heq])
      rw [unescapeValue_escape]
      intro hmem
      rcases List.mem_cons.1 hmem with heq | hmem
      · split at heq
        · exact absurd heq (by decide)
        · exact hc heq.symm
      · exact hrest hmem
  | case4 c rest hne hother ih =>
      have hrest : '\r' ∉ unescapeValue rest := ih fun hmem => h (by simp [hmem])
      have hc : c ≠ '\r' := fun heq => h (by simp [heq])
      rw [unescapeValue]
      · intro hmem
        rcases List.mem_cons.1 hmem with heq | hmem
        · exact hc heq.symm
        · exact hrest hmem
      · exact hne
      · exact hother

/-- The parts of a value are made of its characters. -/
theorem mem_of_mem_splitUnescaped {separator : Char} {c : Char}
    (h : s ∈ splitUnescaped value separator) (hc : c ∈ s) : c ∈ value ∨ c = '\\' := by
  have hloop : ∀ (value current : List Char) (escaped : Bool),
      s ∈ splitLoop separator current escaped value → c ∈ current ∨ c ∈ value ∨ c = '\\' := by
    intro value
    induction value with
    | nil =>
        intro current escaped h
        rw [splitLoop, List.mem_singleton] at h
        split at h
        · rw [h] at hc
          rcases List.mem_append.1 hc with hold | hslash
          · exact Or.inl hold
          · exact Or.inr (Or.inr (List.mem_singleton.1 hslash))
        · rw [h] at hc
          exact Or.inl hc
    | cons d value ih =>
        intro current escaped h
        rw [splitLoop] at h
        split at h
        · rcases ih _ _ h with hnew | hrest | hslash
          · rcases List.mem_append.1 hnew with hold | hlast
            · exact Or.inl hold
            · rcases List.mem_cons.1 hlast with hslash | hlast
              · exact Or.inr (Or.inr hslash)
              · exact Or.inr (Or.inl (by simp [List.mem_singleton.1 hlast]))
          · exact Or.inr (Or.inl (List.mem_cons_of_mem _ hrest))
          · exact Or.inr (Or.inr hslash)
        · split at h
          · rcases ih _ _ h with hold | hrest | hslash
            · exact Or.inl hold
            · exact Or.inr (Or.inl (List.mem_cons_of_mem _ hrest))
            · exact Or.inr (Or.inr hslash)
          · split at h
            · rcases List.mem_cons.1 h with heq | h
              · rw [heq] at hc
                exact Or.inl hc
              · rcases ih _ _ h with hnone | hrest | hslash
                · cases hnone
                · exact Or.inr (Or.inl (List.mem_cons_of_mem _ hrest))
                · exact Or.inr (Or.inr hslash)
            · rcases ih _ _ h with hnew | hrest | hslash
              · rcases List.mem_append.1 hnew with hold | hlast
                · exact Or.inl hold
                · exact Or.inr (Or.inl (by simp [List.mem_singleton.1 hlast]))
              · exact Or.inr (Or.inl (List.mem_cons_of_mem _ hrest))
              · exact Or.inr (Or.inr hslash)
  rcases hloop value [] false h with hnone | hvalue | hslash
  · cases hnone
  · exact Or.inl hvalue
  · exact Or.inr hslash

theorem not_mem_part {separator : Char} (hvalue : '\r' ∉ value)
    (h : s ∈ splitUnescaped value separator) : '\r' ∉ s := by
  intro hmem
  rcases mem_of_mem_splitUnescaped h hmem with hold | hslash
  · exact hvalue hold
  · exact absurd hslash (by decide)

end NoCr

/-! ## Canonical contacts -/

/-- A text as it is read: trimmed, and without CR. -/
structure Clean (s : List Char) : Prop where
  trim : trim s = s
  noCr : '\r' ∉ s

/-- The entries of a list as they are read. -/
def CleanList (allowed : List String) (list : List TypedValue) : Prop :=
  ∀ e ∈ list, Clean e.value ∧ e.value ≠ [] ∧ e.type ∈ allowed

/-- An address as it is read. -/
structure CleanAddress (e : AddressEntry) : Prop where
  type : e.type ∈ addressTypes
  street : Clean e.street
  city : Clean e.city
  state : Clean e.state
  postalCode : Clean e.postalCode
  country : Clean e.country
  some : ¬(e.street = [] ∧ e.city = [] ∧ e.state = [] ∧ e.postalCode = [] ∧ e.country = [])

/-- A contact that a card can hold. -/
structure Contact.Canonical (c : Contact) : Prop where
  lastName : Clean c.lastName
  firstName : Clean c.firstName
  middleName : Clean c.middleName
  title : Clean c.title
  nameSuffix : Clean c.nameSuffix
  nickname : Clean c.nickname
  emailEntries : CleanList emailTypes c.emailEntries
  phoneEntries : CleanList phoneTypes c.phoneEntries
  company : Clean c.company
  department : Clean c.department
  jobTitle : Clean c.jobTitle
  role : Clean c.role
  addressEntries : ∀ e ∈ c.addressEntries, CleanAddress e
  birthday : Clean c.birthday
  dateEntries : CleanList dateTypes c.dateEntries
  websites : CleanList siteTypes c.websites
  socialNetworks : CleanList networkTypes c.socialNetworks
  instantMessengers : CleanList messengerTypes c.instantMessengers
  relatedPeople : CleanList relationTypes c.relatedPeople
  groups : ∀ g ∈ c.groups, Clean g ∧ g ≠ []
  notes : '\r' ∉ c.notes
  phoneticFirstName : Clean c.phoneticFirstName
  phoneticLastName : Clean c.phoneticLastName
  pronouns : Clean c.pronouns

section Canonical

variable {T : CaseMaps} {s new : List Char} {p : VCardProperty} {r : Reading} {c : Contact}

theorem clean_nil : Clean [] where
  trim := rfl
  noCr := List.not_mem_nil

theorem clean_trim (h : '\r' ∉ s) : Clean (trim s) where
  trim := trim_trim s
  noCr hmem := h (mem_trim hmem)

theorem clean_setString (hs : Clean s) (hnew : Clean new) : Clean (setString s new) := by
  unfold setString
  split
  · exact hs
  · exact hnew

theorem clean_text (hp : '\r' ∉ p.value) : Clean (trim (unescapeValue p.value)) :=
  clean_trim (not_mem_unescapeValue hp)

theorem clean_part (hp : '\r' ∉ s) (index : Nat) : Clean (part s index) := by
  unfold part
  cases hget : (splitUnescaped s ';')[index]? with
  | none => exact clean_nil
  | some piece =>
      have hpiece := not_mem_part hp (List.mem_of_getElem? hget)
      exact clean_trim (not_mem_unescapeValue hpiece)

/-- `normalized_type` answers one of the allowed types. -/
theorem normalizedType_mem (p : VCardProperty) {allowed : List String} {fallback : String}
    (h : fallback ∈ allowed) : normalizedType T p allowed fallback ∈ allowed := by
  unfold normalizedType
  cases hfind : ((p.types T).map fun raw => mappedType (String.ofList raw)).find?
      fun mapped => allowed.contains mapped with
  | none => exact h
  | some mapped =>
      have hcontains := List.find?_some hfind
      exact List.contains_iff_mem.1 hcontains

theorem cleanList_addTyped {allowed : List String} {list : List TypedValue}
    (hlist : CleanList allowed list) (hother : "other" ∈ allowed) (hp : '\r' ∉ p.value) :
    CleanList allowed (addTyped T p allowed list) := by
  unfold addTyped
  dsimp only
  split
  · exact hlist
  · rename_i hne
    intro e he
    rcases List.mem_append.1 he with hold | hlast
    · exact hlist e hold
    · rw [List.mem_singleton.1 hlast]
      exact ⟨clean_text hp, hne, normalizedType_mem p hother⟩

theorem cleanList_addAnniversary {list : List TypedValue} (hlist : CleanList dateTypes list)
    (hp : '\r' ∉ p.value) : CleanList dateTypes (addAnniversary p list) := by
  unfold addAnniversary
  dsimp only
  split
  · exact hlist
  · rename_i hne
    intro e he
    rcases List.mem_append.1 he with hold | hlast
    · exact hlist e hold
    · rw [List.mem_singleton.1 hlast]
      exact ⟨clean_text hp, hne, show "anniversary" ∈ dateTypes by decide⟩

theorem clean_addAddress {list : List AddressEntry} (hlist : ∀ e ∈ list, CleanAddress e)
    (hp : '\r' ∉ p.value) : ∀ e ∈ addAddress T p list, CleanAddress e := by
  unfold addAddress
  dsimp only
  split
  · exact hlist
  · rename_i hne
    intro e he
    rcases List.mem_append.1 he with hold | hlast
    · exact hlist e hold
    · rw [List.mem_singleton.1 hlast]
      exact ⟨normalizedType_mem p (by decide), clean_part hp 2, clean_part hp 3, clean_part hp 4,
        clean_part hp 5, clean_part hp 6, hne⟩

theorem clean_groupsOf (hp : '\r' ∉ s) : ∀ g ∈ groupsOf s, Clean g ∧ g ≠ [] := by
  intro g hg
  obtain ⟨hmem, hne⟩ := List.mem_filter.1 hg
  obtain ⟨piece, hpiece, rfl⟩ := List.mem_map.1 hmem
  exact ⟨clean_trim (not_mem_unescapeValue (not_mem_part hp hpiece)), by simpa using hne⟩

theorem canonical_empty : Contact.empty.Canonical := by
  constructor
  all_goals first
    | exact clean_nil
    | exact List.not_mem_nil
    | exact fun _ h => absurd h List.not_mem_nil

theorem canonical_readProperty (h : r.contact.Canonical) (hp : '\r' ∉ p.value) :
    (readProperty T r p).contact.Canonical := by
  have htext := clean_text hp
  have hpart := clean_part hp
  unfold readProperty
  dsimp only
  split
  · exact h
  · exact
      { h with
        lastName := clean_setString h.lastName (hpart 0)
        firstName := clean_setString h.firstName (hpart 1)
        middleName := clean_setString h.middleName (hpart 2)
        title := clean_setString h.title (hpart 3)
        nameSuffix := clean_setString h.nameSuffix (hpart 4) }
  · exact { h with nickname := clean_setString h.nickname htext }
  · exact { h with emailEntries := cleanList_addTyped h.emailEntries (by decide) hp }
  · exact { h with phoneEntries := cleanList_addTyped h.phoneEntries (by decide) hp }
  · exact
      { h with
        company := clean_setString h.company (hpart 0)
        department := clean_setString h.department (hpart 1) }
  · exact { h with jobTitle := clean_setString h.jobTitle htext }
  · exact { h with role := clean_setString h.role htext }
  · exact { h with addressEntries := clean_addAddress h.addressEntries hp }
  · exact { h with birthday := clean_setString h.birthday htext }
  · exact { h with dateEntries := cleanList_addAnniversary h.dateEntries hp }
  · exact { h with dateEntries := cleanList_addTyped h.dateEntries (by decide) hp }
  · exact { h with websites := cleanList_addTyped h.websites (by decide) hp }
  · exact { h with socialNetworks := cleanList_addTyped h.socialNetworks (by decide) hp }
  · exact { h with instantMessengers := cleanList_addTyped h.instantMessengers (by decide) hp }
  · exact { h with relatedPeople := cleanList_addTyped h.relatedPeople (by decide) hp }
  · refine { h with groups := ?_ }
    intro g hg
    rcases List.mem_append.1 hg with hold | hnew
    · exact h.groups g hold
    · exact clean_groupsOf hp g hnew
  · refine { h with notes := ?_ }
    show '\r' ∉ setString _ _
    unfold setString
    split
    · exact h.notes
    · exact not_mem_unescapeValue hp
  · exact { h with phoneticFirstName := clean_setString h.phoneticFirstName htext }
  · exact { h with phoneticLastName := clean_setString h.phoneticLastName htext }
  · exact { h with pronouns := clean_setString h.pronouns htext }
  · exact { h with }
  · exact h

/-- `FN` brings in no CR either. -/
theorem noCr_formattedName (hr : '\r' ∉ r.formattedName) (hp : '\r' ∉ p.value) :
    '\r' ∉ (readProperty T r p).formattedName := by
  unfold readProperty
  dsimp only
  split
  · exact (clean_text hp).noCr
  all_goals exact hr

theorem canonical_namesFromFormatted (h : r.contact.Canonical) (hr : '\r' ∉ r.formattedName) :
    (namesFromFormatted r).Canonical := by
  have hfirst : '\r' ∉ r.formattedName.takeWhile (· ≠ ' ') :=
    fun hmem => hr ((List.takeWhile_sublist _).mem hmem)
  have hlast : '\r' ∉ (r.formattedName.dropWhile (· ≠ ' ')).drop 1 :=
    fun hmem => hr ((List.dropWhile_sublist _).mem (List.mem_of_mem_drop hmem))
  unfold namesFromFormatted
  dsimp only
  split
  · exact
      { h with
        firstName := clean_setString h.firstName (clean_trim hfirst)
        lastName := clean_setString h.lastName (clean_trim hlast) }
  · exact h

/-- **A contact that was read is canonical.** -/
theorem canonical_readContact {text : List Char} (h : CrBeforeLf text) :
    (readContact T text).Canonical := by
  have hfold : ∀ (ps : List VCardProperty) (r : Reading), (∀ p ∈ ps, '\r' ∉ p.value) →
      r.contact.Canonical → '\r' ∉ r.formattedName →
        (ps.foldl (readProperty T) r).contact.Canonical ∧
          '\r' ∉ (ps.foldl (readProperty T) r).formattedName := by
    intro ps
    induction ps with
    | nil =>
        intro r _ hr hname
        exact ⟨hr, hname⟩
    | cons p ps ih =>
        intro r hps hr hname
        have hp := hps p List.mem_cons_self
        apply ih
        · exact fun q hq => hps q (List.mem_cons_of_mem _ hq)
        · exact canonical_readProperty hr hp
        · exact noCr_formattedName hname hp
  have hall := hfold (parseProperties T text) ⟨Contact.empty, []⟩
    (fun p hp => not_mem_value T h hp) canonical_empty List.not_mem_nil
  exact canonical_namesFromFormatted hall.1 hall.2

end Canonical

end AsterBridge.Dav
