import AsterBridge.Lib.Unicode
import AsterBridge.Tags.Labels

/-!
# Slots of the built-in labels

`tags.rs`: mail clients have five built-in labels, and `slot_assignments` gives each of them
one of the account's labels. The user's own choice comes first, then the names that clients
show for a slot in their languages, then the order of the labels.
-/

set_option autoImplicit false

namespace AsterBridge.Tags

open AsterBridge.Lib

/-! ## Built-in names -/

/-- `BUILTIN_TAG_SLOTS` -/
abbrev builtinTagSlots : ℕ := 5

/-- `POSITIONAL_MIN_ANCHORS` -/
def positionalMinAnchors : ℕ := 3

/-- `BUILTIN_TAG_NAMES` -/
def builtinTagNames : List (List String) := [
  ["A-bouez", "Aktar", "Belangrijk", "Belangrik", "Cudromach", "Dôležité", "Důležité", "Fontos",
    "Garrantzitsua", "I rëndësishëm", "Iimportante", "Important", "Importante", "Impurtant",
    "K'atzinel", "Mikilvægt", "Muhim", "Penting", "Pomembno", "Pwysig", "Quan trọng", "Svarbus",
    "Svarīgi", "Tábhachtach", "Tähtis", "Tärkeä", "Važno", "Vigtig", "Viktig", "Viktigt", "Ważne",
    "Wažny", "Wichtich", "Wichtig", "Önemli", "Σημαντικό", "Важливе", "Важна", "Важно", "Важное",
    "Важны", "Маңызды", "Կարեւոր", "Կարևոր", "חשוב", "مهم", "สำคัญ", "მნიშვნელოვანი", "សំខាន់",
    "重要", "중요"],
  ["Amahil", "Arbeid", "Arbejde", "Arbete", "Darbo", "Darbs", "Dienstlich", "Dźěło", "Feina",
    "Gwaith", "Ish", "Kerja", "Labor", "Labour", "Lanekoa", "Lavoro", "Lavur", "Làm việc",
    "Munka", "Obair", "Pekerjaan", "Posao", "Praca", "Pracovní", "Pune", "Samaj", "Serviciu",
    "Služba", "Trabajo", "Trabalho", "Traballo", "Trabayu", "Travail", "Työ", "Töö", "Vinna",
    "Werk", "Work", "Wurk", "Zamestnanie", "İş", "Źěło", "Εργασία", "Жұмыс", "Посао", "Праца",
    "Работа", "Рабочее", "Робоче", "Служебно", "Աշխատանքային", "עבודה", "العمل", "کار",
    "ที่ทำงาน", "სამუშაო", "ការងារ\u200b", "仕事", "商務", "工作", "직장"],
  ["Asmeninis", "Cá nhân", "Ichinan", "Isiklik", "Kişisel", "Lično", "Oma", "Osebno", "Osobiste",
    "Osobno", "Osobné", "Osobní", "Pearsanta", "Peribadi", "Persoal", "Persoanlik", "Personal",
    "Personale", "Personales", "Personel", "Personleg", "Personlig", "Personnel", "Personol",
    "Personīgs", "Persoonlijk", "Persoonlik", "Persunal", "Persónulegt", "Persönlich",
    "Pertsonala", "Pessoal", "Pribadi", "Privat", "Shaxsiy", "Személyes", "Udmawan", "Wosobinski",
    "Wósobinski", "Προσωπικό", "Асабісты", "Жеке", "Лична", "Лично", "Личное", "Особисте",
    "Անձնական", "אישי", "شخصي", "شخصی", "ส่วนบุคคล", "პირადი", "ផ្ទាល់\u200bខ្លួន", "プライベート",
    "私人", "개인"],
  ["A facer", "Ad ittumeg", "Att göra", "Bajarish", "Da far", "Da fare", "Dabar", "Darāmais",
    "De făcut", "Do zrobienia", "Egiteke", "Huskeliste", "I'w Gwneud", "K vyřízení",
    "K'o chi Nib'an", "Le Déanamh", "Moetdoen", "Nadawki", "Noch te dwaan", "Nog te doen",
    "Opravek", "Para hacer", "Pendente", "Per fer", "Perlu Buat", "Por facer", "Por hacer",
    "Për T’u Bërë", "Ri dhèanamh", "Sẽ làm", "Teendők", "Tehtävä", "To Do", "ToDo", "Tugas",
    "Verkþáttur", "Vybaviť", "War Ober", "Yapılacak", "Za obaviti", "Zu erledigen", "À faire",
    "Å gjere", "Å gjøre", "Ülesanne", "Εκκρεμότητα", "Для выканання", "До виконання",
    "Жасау үшін", "За изпълнение", "За урадити", "Задача", "К исполнению", "Անել", "דברים לעשות",
    "انجام\u200cدادنی", "للقيام به", "สิ่งที่ต้องทำ", "გასაკეთებელი",
    "កិច្ចការ\u200bត្រូវ\u200bធ្វើ", "待办", "待辦事項", "할일"],
  ["An ceann tamaill", "Después", "Diweddarach", "Diwezhatoc'h", "En attente", "Geroago",
    "Hiljem", "Jub'a' chik na", "Kasneje", "Kasnije", "Kemudian", "Keyinroq", "Később", "Later",
    "Letter", "Mai târziu", "Mais tarde", "Myöhemmin", "Máis tarde", "Más sero", "Más tarde",
    "Més tard", "Nanti", "Neskôr", "Níos Déanaí", "Più tardi", "Pli tard", "Plus tarde",
    "Později", "Pozdźišo", "Për më vonë", "Pózdźej", "Później", "Seinare", "Seinna", "Senare",
    "Senere", "Sonra", "Später", "Ticki", "Vēlāk", "Vėliau", "Để sau", "Αργότερα", "Відкладено",
    "Касније", "Кейінірек", "Отложено", "Пазней", "По-късно", "Подоцна", "Ավելի ուշ", "Աւելի ուշ",
    "מאוחר יותר", "بعداً", "لاحقًا", "ภายหลัง", "გადადებული", "ពេលក្រោយ", "後で", "稍后", "稍後處理",
    "연기"]]

/-- The tables of the Unicode Character Database behind `char::to_lowercase` and
`char::is_alphanumeric`. -/
structure LetterTables extends Unicode.CaseTables where
  alphanumeric : Char → Bool
  alphanumeric_ascii : ∀ c : Char, c.toNat < 0x80 → alphanumeric c = c.isAlphanum

/-- Letters and digits of ASCII only. -/
def LetterTables.ascii : LetterTables where
  toCaseTables := Unicode.CaseTables.ascii
  alphanumeric := Char.isAlphanum
  alphanumeric_ascii _ _ := rfl

/-- `is_top_level` -/
def isTopLevel (tag : CustomTag) : Bool :=
  (tag.keyword.bind keywordText).any fun text => text == tag.name

/-- `SlotOverride` -/
inductive SlotOverride where
  | label (token : String)
  | off
deriving DecidableEq

section Names

variable (T : LetterTables)

/-- `match_key` -/
def matchKey (text : List Char) : List Char := (text.filter T.alphanumeric).flatMap T.lower

/-- `matches_builtin_name` -/
def matchesBuiltinName (slot : ℕ) (name : List Char) : Bool :=
  matchKey T name ≠ [] && slot ≠ 0 &&
    (builtinTagNames[slot - 1]?).any fun names =>
      names.any fun known => matchKey T known.toList == matchKey T name

end Names

/-! ## The table of slots -/

/-- A slot, as its index: the slot with the number `i + 1`. -/
abbrev Slot := Fin builtinTagSlots

/-- The number of a slot. -/
def Slot.number (i : Slot) : ℕ := i.val + 1

/-- The variables of `slot_assignments`. -/
structure Table where
  assigned : Slot → Option String
  fixed : Slot → Bool
  used : List String

namespace Table

/-- The variables before the loops. -/
def start : Table := ⟨fun _ => none, fun _ => false, []⟩

/-- A slot gets a label. -/
def assign (t : Table) (i : Slot) (token : String) : Table :=
  { t with assigned := Function.update t.assigned i (some token), used := token :: t.used }

/-- A slot is decided by the user. -/
def fix (t : Table) (i : Slot) : Table := { t with fixed := Function.update t.fixed i true }

/-- The body of the first loop: what the user has chosen for a slot. -/
def chooseSlot (tags : List CustomTag) (overrides : ℕ → Option SlotOverride) (t : Table)
    (i : Slot) : Table :=
  match overrides i.number with
  | some .off => t.fix i
  | some (.label token) =>
      if (tags.any fun tag => tag.tagToken == token) && !t.used.contains token then
        (t.assign i token).fix i
      else t
  | none => t

/-- An unused label with a name of the slot. -/
def fits (T : LetterTables) (t : Table) (i : Slot) (tag : CustomTag) : Bool :=
  !t.used.contains tag.tagToken && matchesBuiltinName T i.number tag.name

/-- The body of the second loop: a label with a name of the slot. -/
def nameSlot (T : LetterTables) (ordered : List CustomTag) (t : Table) (i : Slot) : Table :=
  if t.fixed i then t
  else
    match ordered.find? (fits T t i) with
    | some tag => t.assign i tag.tagToken
    | none => t

/-- The slots that have a label of the list, with the index of the label. -/
def anchors (listed : List CustomTag) (assigned : Slot → Option String) : List (ℕ × ℕ) :=
  (List.finRange builtinTagSlots).filterMap fun i =>
    (assigned i).bind fun token =>
      (listed.findIdx? fun tag => tag.tagToken == token).map fun index => (i.number, index)

/-- The body of the third loop: the label at the place of the slot. -/
def placeSlot (T : LetterTables) (listed : List CustomTag) (anchors : List (ℕ × ℕ)) (offset : ℤ)
    (t : Table) (i : Slot) : Table :=
  if t.fixed i || (t.assigned i).isSome then t
  else
    let enclosed := anchors.any (fun a => a.1 < i.number) && anchors.any fun a => a.1 > i.number
    if !enclosed && anchors.length < positionalMinAnchors then t
    else
      let index := (i.number : ℤ) + offset
      match if 0 ≤ index then listed[index.toNat]? else none with
      | none => t
      | some tag =>
          let namedElsewhere := (List.finRange builtinTagSlots).any fun other =>
            matchesBuiltinName T (Slot.number other) tag.name
          if !namedElsewhere && !t.used.contains tag.tagToken then t.assign i tag.tagToken else t

/-- The order of `sort_by_key` on the positions. -/
def byPosition (a b : CustomTag) : Bool := decide (a.position ≤ b.position)

/-- The labels at the top level, by position. -/
def listedByPosition (tags : List CustomTag) : List CustomTag :=
  (tags.filter isTopLevel).mergeSort byPosition

/-- Two labels of a list by position have one position. -/
def positionsClash (listed : List CustomTag) : Bool :=
  (listed.zip listed.tail).any fun pair => pair.1.position == pair.2.position

/-- `fill_slots_by_position` -/
def fillByPosition (T : LetterTables) (tags : List CustomTag) (t : Table) : Table :=
  let listed := listedByPosition tags
  if positionsClash listed then t
  else
    match anchors listed t.assigned with
    | [] => t
    | first :: rest =>
        let offset := (first.2 : ℤ) - first.1
        if (first :: rest).any fun a => (a.2 : ℤ) - a.1 != offset then t
        else (List.finRange builtinTagSlots).foldl
          (placeSlot T listed (first :: rest) offset) t

/-- The order of the second loop: labels at the top level first, then by token. -/
def byLevel (a b : CustomTag) : Bool :=
  if isTopLevel a = isTopLevel b then decide (a.tagToken ≤ b.tagToken) else isTopLevel a

/-- The loops of `slot_assignments`. -/
def filled (T : LetterTables) (tags : List CustomTag) (overrides : ℕ → Option SlotOverride) :
    Table :=
  let slots := List.finRange builtinTagSlots
  let chosen := slots.foldl (chooseSlot tags overrides) start
  let named := slots.foldl (nameSlot T (tags.mergeSort byLevel)) chosen
  fillByPosition T tags named

end Table

/-- `slot_assignments` -/
def slotAssignments (T : LetterTables) (tags : List CustomTag)
    (overrides : ℕ → Option SlotOverride) : List (Option String) :=
  List.ofFn (Table.filled T tags overrides).assigned

namespace Table

/-! ## Loops over the slots -/

/-- A slot is as it was. -/
def SameAt (t t' : Table) (j : Slot) : Prop :=
  t'.assigned j = t.assigned j ∧ t'.fixed j = t.fixed j

theorem SameAt.trans {t t' t'' : Table} {j : Slot} (h : SameAt t t' j) (h' : SameAt t' t'' j) :
    SameAt t t'' j :=
  ⟨h'.1.trans h.1, h'.2.trans h.2⟩

/-- The body of a loop changes the slot it is at, and no other. -/
def OwnSlot (step : Table → Slot → Table) : Prop := ∀ t i j, j ≠ i → SameAt t (step t i) j

theorem sameAt_assign (t : Table) {i j : Slot} (token : String) (h : j ≠ i) :
    SameAt t (t.assign i token) j :=
  ⟨Function.update_of_ne h _ _, rfl⟩

theorem sameAt_fix (t : Table) {i j : Slot} (h : j ≠ i) : SameAt t (t.fix i) j :=
  ⟨rfl, Function.update_of_ne h _ _⟩

section Loops

variable {step : Table → Slot → Table} {t : Table} {l : List Slot} {i j : Slot}

theorem OwnSlot.foldl (h : OwnSlot step) (hj : j ∉ l) : SameAt t (l.foldl step t) j := by
  induction l generalizing t with
  | nil => exact ⟨rfl, rfl⟩
  | cons i l ih =>
      obtain ⟨hi, hl⟩ := not_or.1 (mt List.mem_cons.2 hj)
      exact (h t i j hi).trans (ih hl)

/-- The slots before a slot, the slot, and those after it. -/
theorem slots_split (i : Slot) : ∃ before after, List.finRange builtinTagSlots =
    before ++ i :: after ∧ (∀ j ∈ before, j < i) ∧ ∀ j ∈ after, i < j := by
  obtain ⟨before, after, hsplit⟩ := List.append_of_mem (List.mem_finRange i)
  have hsorted := List.pairwise_lt_finRange builtinTagSlots
  rw [hsplit, List.pairwise_append] at hsorted
  obtain ⟨-, hafter, hbefore⟩ := hsorted
  exact ⟨before, after, hsplit, fun j hj => hbefore j hj i List.mem_cons_self,
    (List.pairwise_cons.1 hafter).1⟩

/-- A loop at a slot: what it finds there, what is done, and that this stays. -/
theorem OwnSlot.at_slot (h : OwnSlot step) (t : Table) (i : Slot) :
    ∃ pre, SameAt (step pre i) ((List.finRange builtinTagSlots).foldl step t) i ∧
      (∀ j, i ≤ j → SameAt t pre j) ∧
      (∀ j < i, SameAt pre ((List.finRange builtinTagSlots).foldl step t) j) ∧
      ∃ before : List Slot, pre = before.foldl step t ∧ before.Nodup ∧ ∀ j ∈ before, j < i := by
  obtain ⟨before, after, hsplit, hbefore, hafter⟩ := slots_split i
  have hnodup := List.nodup_finRange builtinTagSlots
  rw [hsplit] at hnodup
  refine ⟨before.foldl step t, ?_, ?_, ?_, before, rfl, hnodup.of_append_left, hbefore⟩
  · rw [hsplit, List.foldl_append, List.foldl_cons]
    exact h.foldl fun hi => (hafter i hi).false
  · exact fun j hij => h.foldl fun hj => (hbefore j hj).not_ge hij
  · intro j hij
    rw [hsplit, List.foldl_append]
    refine h.foldl fun hj => ?_
    rcases List.mem_cons.1 hj with rfl | hj
    · exact hij.false
    · exact hij.not_gt (hafter j hj)

end Loops

/-! ## Tables without a label twice -/

/-- No label has two slots, the labels with a slot are the used ones, and they exist. -/
structure Good (tags : List CustomTag) (t : Table) : Prop where
  distinct : ∀ i j token, t.assigned i = some token → t.assigned j = some token → i = j
  used_iff : ∀ token, token ∈ t.used ↔ ∃ i, t.assigned i = some token
  known : ∀ i token, t.assigned i = some token → ∃ tag ∈ tags, tag.tagToken = token

section Good

variable {tags ordered : List CustomTag} {t : Table} {i : Slot} {token : String}
  {overrides : ℕ → Option SlotOverride} {T : LetterTables}

theorem good_start (tags : List CustomTag) : Good tags start where
  distinct _ _ _ h := nomatch h
  used_iff _ := iff_of_false List.not_mem_nil fun ⟨_, h⟩ => nomatch h
  known _ _ h := nomatch h

theorem Good.fix (h : Good tags t) : Good tags (t.fix i) := ⟨h.distinct, h.used_iff, h.known⟩

/-- An unused label in an empty slot. -/
theorem Good.assign (h : Good tags t) (hfree : t.assigned i = none) (hunused : token ∉ t.used)
    (hknown : ∃ tag ∈ tags, tag.tagToken = token) : Good tags (t.assign i token) := by
  have hnew : (t.assign i token).assigned i = some token := Function.update_self ..
  have hold : ∀ j, j ≠ i → (t.assign i token).assigned j = t.assigned j := fun j hj =>
    Function.update_of_ne hj _ _
  have hno : ∀ j, t.assigned j ≠ some token := fun j hj => hunused ((h.used_iff token).2 ⟨j, hj⟩)
  refine ⟨?_, ?_, ?_⟩
  · intro j k other hj hk
    by_cases hji : j = i
    · by_cases hki : k = i
      · rw [hji, hki]
      · rw [hji, hnew] at hj
        rw [hold k hki, ← hj] at hk
        exact absurd hk (hno k)
    · rw [hold j hji] at hj
      by_cases hki : k = i
      · rw [hki, hnew] at hk
        rw [← hk] at hj
        exact absurd hj (hno j)
      · rw [hold k hki] at hk
        exact h.distinct j k other hj hk
  · intro other
    constructor
    · intro hmem
      rcases List.mem_cons.1 hmem with rfl | hmem
      · exact ⟨i, hnew⟩
      · obtain ⟨j, hj⟩ := (h.used_iff other).1 hmem
        refine ⟨j, (hold j ?_).trans hj⟩
        rintro rfl
        exact nomatch hfree.symm.trans hj
    · rintro ⟨j, hj⟩
      by_cases hji : j = i
      · rw [hji, hnew] at hj
        exact Option.some.inj hj ▸ List.mem_cons_self
      · exact List.mem_cons_of_mem _ ((h.used_iff other).2 ⟨j, (hold j hji).symm.trans hj⟩)
  · intro j other hj
    by_cases hji : j = i
    · rw [hji, hnew] at hj
      exact Option.some.inj hj ▸ hknown
    · exact h.known j other ((hold j hji).symm.trans hj)

/-- A loop whose body keeps a table good where a slot is ready for it. -/
theorem foldl_good {step : Table → Slot → Table} {ready : Option String → Bool → Prop}
    (hown : OwnSlot step)
    (hstep : ∀ t i, Good tags t → ready (t.assigned i) (t.fixed i) → Good tags (step t i))
    {l : List Slot} (hl : l.Nodup) (h : Good tags t)
    (hready : ∀ i ∈ l, ready (t.assigned i) (t.fixed i)) : Good tags (l.foldl step t) := by
  induction l generalizing t with
  | nil => exact h
  | cons i l ih =>
      obtain ⟨hi, hl⟩ := List.nodup_cons.1 hl
      refine ih hl (hstep t i h (hready i List.mem_cons_self)) fun j hj => ?_
      obtain ⟨hassigned, hfixed⟩ := hown t i j (fun heq => hi (heq ▸ hj))
      rw [hassigned, hfixed]
      exact hready j (List.mem_cons_of_mem _ hj)

end Good

/-! ## The user's choice -/

section Chosen

variable {tags : List CustomTag} {overrides : ℕ → Option SlotOverride} {t : Table} {i : Slot}
  {token : String}

theorem ownSlot_chooseSlot : OwnSlot (chooseSlot tags overrides) := by
  intro t i j hj
  unfold chooseSlot
  split
  case h_1 => exact sameAt_fix t hj
  case h_2 token htoken =>
    split
    · exact (sameAt_assign t token hj).trans (sameAt_fix _ hj)
    · exact ⟨rfl, rfl⟩
  case h_3 => exact ⟨rfl, rfl⟩

theorem good_chooseSlot (h : Good tags t) (hfree : t.assigned i = none) :
    Good tags (chooseSlot tags overrides t i) := by
  unfold chooseSlot
  split
  case h_1 => exact h.fix
  case h_2 token htoken =>
    split
    case isTrue hfound =>
      obtain ⟨hexists, hunused⟩ := Bool.and_eq_true_iff.1 hfound
      obtain ⟨tag, htag, heq⟩ := List.any_eq_true.1 hexists
      have hnot : token ∉ t.used := by simpa using hunused
      exact (h.assign hfree hnot ⟨tag, htag, beq_iff_eq.1 heq⟩).fix
    case isFalse => exact h
  case h_3 => exact h

/-- The table after the first loop. -/
def chosen (tags : List CustomTag) (overrides : ℕ → Option SlotOverride) : Table :=
  (List.finRange builtinTagSlots).foldl (chooseSlot tags overrides) start

theorem good_chosen : Good tags (chosen tags overrides) :=
  @foldl_good tags start _ (fun assigned _ => assigned = none) ownSlot_chooseSlot
    (fun _ _ => good_chooseSlot) _ (List.nodup_finRange _) (good_start tags) fun _ _ => rfl

/-- A slot that is turned off. -/
theorem chosen_off (h : overrides i.number = some .off) :
    (chosen tags overrides).assigned i = none ∧ (chosen tags overrides).fixed i = true := by
  obtain ⟨pre, hat, hpre, -⟩ := (@ownSlot_chooseSlot tags overrides).at_slot start i
  rw [chooseSlot, h] at hat
  exact ⟨hat.1.trans (hpre i le_rfl).1, hat.2.trans (Function.update_self ..)⟩

/-- A slot that the user does not decide. -/
theorem chosen_none (h : overrides i.number = none) :
    (chosen tags overrides).assigned i = none ∧ (chosen tags overrides).fixed i = false := by
  obtain ⟨pre, hat, hpre, -⟩ := (@ownSlot_chooseSlot tags overrides).at_slot start i
  rw [chooseSlot, h] at hat
  exact ⟨hat.1.trans (hpre i le_rfl).1, hat.2.trans (hpre i le_rfl).2⟩

/-- A label that a slot has now is the one the user chose, and the slot is decided. -/
theorem chosen_some (h : (chosen tags overrides).assigned i = some token) :
    overrides i.number = some (.label token) ∧ (chosen tags overrides).fixed i = true := by
  obtain ⟨pre, hat, hpre, -⟩ := (@ownSlot_chooseSlot tags overrides).at_slot start i
  have hnone : pre.assigned i = none := (hpre i le_rfl).1
  have hassigned := hat.1.symm.trans h
  unfold chosen
  rw [hat.2]
  unfold chooseSlot at hassigned ⊢
  split at hassigned
  case h_1 => exact nomatch hnone.symm.trans hassigned
  case h_2 other hother =>
    split at hassigned
    case isTrue hfound =>
      have hself : ((pre.assign i other).fix i).assigned i = some other :=
        Function.update_self ..
      rw [hself] at hassigned
      obtain rfl := Option.some.inj hassigned
      rw [hother, if_pos hfound]
      exact ⟨rfl, Function.update_self ..⟩
    case isFalse => exact nomatch hnone.symm.trans hassigned
  case h_3 => exact nomatch hnone.symm.trans hassigned

/-- The first slot for which the user chose a label of the list. -/
theorem chosen_label (h : overrides i.number = some (.label token))
    (hfirst : ∀ j < i, overrides j.number ≠ some (.label token))
    (hknown : ∃ tag ∈ tags, tag.tagToken = token) :
    (chosen tags overrides).assigned i = some token ∧
      (chosen tags overrides).fixed i = true := by
  obtain ⟨pre, hat, hpre, hlater, before, hbefore, hnodup, hlt⟩ :=
    (@ownSlot_chooseSlot tags overrides).at_slot start i
  have hgood : Good tags pre := by
    rw [hbefore]
    exact @foldl_good tags start _ (fun assigned _ => assigned = none) ownSlot_chooseSlot
      (fun _ _ => good_chooseSlot) _ hnodup (good_start tags) fun _ _ => rfl
  have hunused : token ∉ pre.used := by
    intro hused
    obtain ⟨j, hj⟩ := (hgood.used_iff token).1 hused
    rcases lt_or_ge j i with hji | hij
    · exact hfirst j hji (chosen_some ((hlater j hji).1.trans hj)).1
    · exact nomatch (hpre j hij).1.symm.trans hj
  obtain ⟨tag, htag, heq⟩ := hknown
  have hfound : ((tags.any fun tag => tag.tagToken == token) && !pre.used.contains token) =
      true := by
    rw [Bool.and_eq_true, List.any_eq_true]
    exact ⟨⟨tag, htag, beq_iff_eq.2 heq⟩, by simpa using hunused⟩
  rw [chooseSlot, h] at hat
  dsimp only at hat
  rw [if_pos hfound] at hat
  exact ⟨hat.1.trans (Function.update_self ..), hat.2.trans (Function.update_self ..)⟩

end Chosen

/-! ## Names and places -/

section Named

variable {T : LetterTables} {tags ordered listed : List CustomTag} {t : Table} {i j : Slot}
  {tag found : CustomTag} {overrides : ℕ → Option SlotOverride} {anchors : List (ℕ × ℕ)}
  {offset : ℤ}

theorem ownSlot_nameSlot : OwnSlot (nameSlot T ordered) := by
  intro t i j hj
  unfold nameSlot
  split
  · exact ⟨rfl, rfl⟩
  · split
    case h_1 tag htag => exact sameAt_assign t _ hj
    case h_2 => exact ⟨rfl, rfl⟩

theorem good_nameSlot (hordered : ∀ tag ∈ ordered, tag ∈ tags) (h : Good tags t)
    (hready : t.fixed i = false → t.assigned i = none) : Good tags (nameSlot T ordered t i) := by
  unfold nameSlot
  split
  case isTrue => exact h
  case isFalse hfixed =>
    split
    case h_1 tag htag =>
      have hfits : fits T t i tag = true := List.find?_some htag
      have hunused := (Bool.and_eq_true_iff.1 hfits).1
      exact h.assign (hready (Bool.eq_false_iff.2 hfixed)) (by simpa using hunused)
        ⟨tag, hordered tag (List.mem_of_find?_eq_some htag), rfl⟩
    case h_2 => exact h

/-- The table after the second loop. -/
def named (T : LetterTables) (tags : List CustomTag) (overrides : ℕ → Option SlotOverride) :
    Table :=
  (List.finRange builtinTagSlots).foldl (nameSlot T (tags.mergeSort byLevel))
    (chosen tags overrides)

theorem mem_ordered (htag : tag ∈ tags.mergeSort byLevel) : tag ∈ tags :=
  List.mem_mergeSort.1 htag

theorem ready_chosen (h : (chosen tags overrides).fixed i = false) :
    (chosen tags overrides).assigned i = none := by
  cases hassigned : (chosen tags overrides).assigned i with
  | none => rfl
  | some token => exact nomatch h.symm.trans (chosen_some hassigned).2

theorem good_foldl_nameSlot {l : List Slot} (hl : l.Nodup) :
    Good tags (l.foldl (nameSlot T (tags.mergeSort byLevel)) (chosen tags overrides)) :=
  @foldl_good tags _ _ (fun assigned fixed => fixed = false → assigned = none) ownSlot_nameSlot
    (fun _ _ => good_nameSlot fun _ => mem_ordered) _ hl good_chosen fun _ _ => ready_chosen

/-- A slot that the user decides keeps its choice. -/
theorem named_of_fixed (h : (chosen tags overrides).fixed i = true) :
    SameAt (chosen tags overrides) (named T tags overrides) i := by
  obtain ⟨pre, hat, hpre, -⟩ :=
    (@ownSlot_nameSlot T (tags.mergeSort byLevel)).at_slot (chosen tags overrides) i
  rw [nameSlot, if_pos ((hpre i le_rfl).2.trans h)] at hat
  exact (hpre i le_rfl).trans hat

theorem byLevel_trans (a b c : CustomTag) (hab : byLevel a b = true) (hbc : byLevel b c = true) :
    byLevel a c = true := by
  unfold byLevel at *
  cases ha : isTopLevel a <;> cases hb : isTopLevel b <;> cases hc : isTopLevel c <;>
    simp only [ha, hb, hc, if_true, decide_eq_true_eq, Bool.false_eq_true, Bool.true_eq_false,
      if_false] at hab hbc ⊢
  · exact String.le_trans hab hbc
  · exact String.le_trans hab hbc

theorem byLevel_total (a b : CustomTag) : (byLevel a b || byLevel b a) = true := by
  unfold byLevel
  cases ha : isTopLevel a <;> cases hb : isTopLevel b <;>
    simp only [if_true, Bool.false_eq_true, Bool.true_eq_false, if_false, Bool.or_true,
      Bool.or_false, Bool.or_eq_true, decide_eq_true_eq]
  · exact String.le_total _ _
  · exact String.le_total _ _

/-- The search of the second loop prefers a label at the top level. -/
theorem isTopLevel_of_find? {p : CustomTag → Bool} (hfind : (tags.mergeSort byLevel).find? p =
    some found) (htag : tag ∈ tags) (hp : p tag = true) (htop : isTopLevel tag = true) :
    isTopLevel found = true := by
  obtain ⟨hfound, before, after, hsplit, hbefore⟩ := List.find?_eq_some_iff_append.1 hfind
  have hmem : tag ∈ before ++ found :: after := hsplit ▸ List.mem_mergeSort.2 htag
  have hsorted := List.pairwise_mergeSort byLevel_trans byLevel_total tags
  rw [hsplit, List.pairwise_append] at hsorted
  rcases List.mem_append.1 hmem with hmem | hmem
  · exact absurd hp (by simpa using hbefore tag hmem)
  rcases List.mem_cons.1 hmem with rfl | hmem
  · exact htop
  · have hle := (List.pairwise_cons.1 hsorted.2.1).1 tag hmem
    unfold byLevel at hle
    cases hlevel : isTopLevel found with
    | true => rfl
    | false => simp [hlevel, htop] at hle

/-- An undecided slot whose name an unused label has gets a label with its name. -/
theorem named_of_match (hnone : overrides i.number = none) (htag : tag ∈ tags)
    (hname : matchesBuiltinName T i.number tag.name = true)
    (hchosen : ∀ j : Slot, overrides j.number ≠ some (.label tag.tagToken))
    (hearlier : ∀ j < i, (named T tags overrides).assigned j ≠ some tag.tagToken) :
    ∃ found ∈ tags, (named T tags overrides).assigned i = some found.tagToken ∧
      matchesBuiltinName T i.number found.name = true ∧
      (isTopLevel tag = true → isTopLevel found = true) := by
  obtain ⟨pre, hat, hpre, hlater, before, hbefore, hnodup, -⟩ :=
    (@ownSlot_nameSlot T (tags.mergeSort byLevel)).at_slot (chosen tags overrides) i
  have hgood : Good tags pre := hbefore ▸ good_foldl_nameSlot hnodup
  have hunused : tag.tagToken ∉ pre.used := by
    intro hused
    obtain ⟨j, hj⟩ := (hgood.used_iff _).1 hused
    rcases lt_or_ge j i with hji | hij
    · exact hearlier j hji ((hlater j hji).1.trans hj)
    · exact hchosen j (chosen_some ((hpre j hij).1.symm.trans hj)).1
  have hp : fits T pre i tag = true := by
    rw [fits, hname, Bool.and_true]
    simpa using hunused
  cases hfind : (tags.mergeSort byLevel).find? (fits T pre i) with
  | none =>
      exact absurd hp (List.find?_eq_none.1 hfind tag (List.mem_mergeSort.2 htag))
  | some found =>
      rw [nameSlot, if_neg (by rw [(hpre i le_rfl).2, (chosen_none hnone).2]; decide), hfind] at hat
      have hassigned : (pre.assign i found.tagToken).assigned i = some found.tagToken :=
        Function.update_self ..
      have hfits : fits T pre i found = true := List.find?_some hfind
      exact ⟨found, mem_ordered (List.mem_of_find?_eq_some hfind), hat.1.trans hassigned,
        (Bool.and_eq_true_iff.1 hfits).2,
        fun htop => isTopLevel_of_find? hfind htag hp htop⟩

theorem ownSlot_placeSlot : OwnSlot (placeSlot T listed anchors offset) := by
  intro t i j hj
  unfold placeSlot
  dsimp only
  repeat' split
  all_goals first
    | exact sameAt_assign t _ hj
    | exact ⟨rfl, rfl⟩

theorem good_placeSlot (hlisted : ∀ tag ∈ listed, tag ∈ tags) (h : Good tags t) :
    Good tags (placeSlot T listed anchors offset t i) := by
  unfold placeSlot
  dsimp only
  split
  case isTrue => exact h
  case isFalse hfree =>
    split
    case isTrue => exact h
    case isFalse =>
      split
      case h_1 => exact h
      case h_2 tag htag =>
        split
        case isTrue hplace =>
          have hunused := (Bool.and_eq_true_iff.1 hplace).2
          have hnone : t.assigned i = none := by
            simp only [Bool.or_eq_true, not_or, Bool.not_eq_true, Option.isSome_eq_false_iff,
              Option.isNone_iff_eq_none] at hfree
            exact hfree.2
          have hmem : tag ∈ listed := by
            split at htag
            · exact List.mem_of_getElem? htag
            · exact nomatch htag
          exact h.assign hnone (by simpa using hunused) ⟨tag, hlisted tag hmem, rfl⟩
        case isFalse => exact h

/-- A decided or filled slot stays as it is. -/
theorem sameAt_placeSlot (h : t.fixed i = true ∨ (t.assigned i).isSome = true) (j : Slot) :
    SameAt t (placeSlot T listed anchors offset t j) i := by
  by_cases hij : i = j
  · subst hij
    rw [placeSlot, if_pos (Bool.or_eq_true_iff.2 h)]
    exact ⟨rfl, rfl⟩
  · exact ownSlot_placeSlot t j i hij

theorem sameAt_foldl_placeSlot (h : t.fixed i = true ∨ (t.assigned i).isSome = true)
    (slots : List Slot) : SameAt t (slots.foldl (placeSlot T listed anchors offset) t) i := by
  induction slots generalizing t with
  | nil => exact ⟨rfl, rfl⟩
  | cons j slots ih =>
      have hone := @sameAt_placeSlot T listed t i anchors offset h j
      refine hone.trans (ih ?_)
      rwa [hone.1, hone.2]

theorem sameAt_fillByPosition (h : t.fixed i = true ∨ (t.assigned i).isSome = true) :
    SameAt t (fillByPosition T tags t) i := by
  unfold fillByPosition
  dsimp only
  split
  case isTrue => exact ⟨rfl, rfl⟩
  case isFalse =>
    split
    case h_1 => exact ⟨rfl, rfl⟩
    case h_2 first rest hanchors =>
      split
      case isTrue => exact ⟨rfl, rfl⟩
      case isFalse => exact sameAt_foldl_placeSlot h _

theorem good_fillByPosition (h : Good tags t) : Good tags (fillByPosition T tags t) := by
  have hlisted : ∀ tag ∈ listedByPosition tags, tag ∈ tags :=
    fun tag htag => (List.mem_filter.1 (List.mem_mergeSort.1 htag)).1
  unfold fillByPosition
  dsimp only
  repeat' split
  case isTrue => exact h
  case h_1 => exact h
  case isTrue => exact h
  case isFalse =>
    exact List.foldlRecOn _ _ h fun t ht i _ => good_placeSlot hlisted ht

end Named

/-! ## The order of the labels -/

section Order

variable {T : LetterTables} {tags tags' listed : List CustomTag} {t : Table}
  {overrides : ℕ → Option SlotOverride}

/-- Sorting forgets the order, if no two elements are equal for the sort. -/
theorem mergeSort_congr {α : Type} {le : α → α → Bool} {l l' : List α}
    (htrans : ∀ a b c, le a b = true → le b c = true → le a c = true)
    (htotal : ∀ a b, (le a b || le b a) = true) (h : l.Perm l')
    (hanti : ∀ a ∈ l, ∀ b ∈ l, le a b = true → le b a = true → a = b) :
    l.mergeSort le = l'.mergeSort le := by
  have hperm : (l.mergeSort le).Perm (l'.mergeSort le) :=
    (List.mergeSort_perm l le).trans (h.trans (List.mergeSort_perm l' le).symm)
  refine hperm.eq_of_pairwise (fun a b ha hb => ?_) (List.pairwise_mergeSort htrans htotal l)
    (List.pairwise_mergeSort htrans htotal l')
  exact hanti a (List.mem_mergeSort.1 ha) b (h.mem_iff.2 (List.mem_mergeSort.1 hb))

theorem byPosition_trans (a b c : CustomTag) (hab : byPosition a b = true)
    (hbc : byPosition b c = true) : byPosition a c = true :=
  decide_eq_true ((of_decide_eq_true hab).trans (of_decide_eq_true hbc))

theorem byPosition_total (a b : CustomTag) : (byPosition a b || byPosition b a) = true := by
  rw [Bool.or_eq_true, byPosition, byPosition, decide_eq_true_eq, decide_eq_true_eq]
  exact le_total _ _

/-- Sorted positions that do not clash go up. -/
theorem pairwise_lt_of_not_clash (hsorted : listed.Pairwise fun a b => byPosition a b = true)
    (h : positionsClash listed = false) :
    listed.Pairwise fun a b => a.position < b.position := by
  induction listed with
  | nil => exact List.Pairwise.nil
  | cons a rest ih =>
      cases rest with
      | nil => exact List.pairwise_singleton _ _
      | cons b rest =>
          obtain ⟨hall, hsorted⟩ := List.pairwise_cons.1 hsorted
          have hzip : (a.position == b.position) = false ∧ positionsClash (b :: rest) = false :=
            Bool.or_eq_false_iff.1 h
          have hlater := ih hsorted hzip.2
          have hab : a.position < b.position :=
            lt_of_le_of_ne (of_decide_eq_true (hall b List.mem_cons_self))
              (beq_eq_false_iff_ne.1 hzip.1)
          refine List.pairwise_cons.2 ⟨fun c hc => ?_, hlater⟩
          rcases List.mem_cons.1 hc with rfl | hc
          · exact hab
          · exact hab.trans ((List.pairwise_cons.1 hlater).1 c hc)

theorem listedByPosition_congr (h : tags.Perm tags')
    (hclash : positionsClash (listedByPosition tags) = false) :
    listedByPosition tags = listedByPosition tags' := by
  have hup := pairwise_lt_of_not_clash
    (List.pairwise_mergeSort byPosition_trans byPosition_total _) hclash
  refine mergeSort_congr byPosition_trans byPosition_total (h.filter isTopLevel) ?_
  intro a ha b hb hab hba
  have hsame : a.position = b.position :=
    le_antisymm (of_decide_eq_true hab) (of_decide_eq_true hba)
  rcases eq_or_of_pairwise hup (List.mem_mergeSort.2 ha) (List.mem_mergeSort.2 hb) with
    heq | hlt | hlt
  · exact heq
  · exact absurd hsame hlt.ne
  · exact absurd hsame hlt.ne'

theorem fillByPosition_congr (h : tags.Perm tags') :
    fillByPosition T tags t = fillByPosition T tags' t := by
  unfold fillByPosition
  cases hclash : positionsClash (listedByPosition tags) with
  | false => rw [← listedByPosition_congr h hclash]
  | true =>
      cases hclash' : positionsClash (listedByPosition tags') with
      | false =>
          rw [listedByPosition_congr h.symm hclash', hclash] at hclash'
          exact nomatch hclash'
      | true =>
          dsimp only
          rw [if_pos hclash, if_pos hclash']

/-- The slots do not depend on the order of the labels. -/
theorem filled_congr (htokens : (tags.map CustomTag.tagToken).Nodup) (h : tags.Perm tags') :
    filled T tags overrides = filled T tags' overrides := by
  have hchoose : chooseSlot tags overrides = chooseSlot tags' overrides := by
    funext t i
    unfold chooseSlot
    simp only [h.any_eq]
  have hordered : tags.mergeSort byLevel = tags'.mergeSort byLevel := by
    refine mergeSort_congr byLevel_trans byLevel_total h fun a ha b hb hab hba => ?_
    refine List.inj_on_of_nodup_map htokens ha hb ?_
    unfold byLevel at hab hba
    cases hla : isTopLevel a <;> cases hlb : isTopLevel b <;>
      simp only [hla, hlb, if_true, decide_eq_true_eq, Bool.false_eq_true, Bool.true_eq_false,
        if_false] at hab hba
    · exact String.le_antisymm hab hba
    · exact String.le_antisymm hab hba
  unfold filled
  rw [hchoose, hordered, fillByPosition_congr h]

end Order

end Table

/-- **Slots of the built-in labels**: one entry for each slot, no label twice, only labels of
the list; a slot that is turned off stays empty, the first slot for which the user chose a
label gets it, and a slot left to its name gets a label with the name while there is an
unused one, at the top level if there is one. The order of the labels does not matter. -/
theorem slots_are_assigned (T : LetterTables) (tags : List CustomTag)
    (overrides : ℕ → Option SlotOverride) (h : (tags.map CustomTag.tagToken).Nodup) :
    let assigned := (Table.filled T tags overrides).assigned
    (slotAssignments T tags overrides = List.ofFn assigned ∧
      (slotAssignments T tags overrides).length = builtinTagSlots) ∧
    (∀ i j token, assigned i = some token → assigned j = some token → i = j) ∧
    (∀ i token, assigned i = some token → ∃ tag ∈ tags, tag.tagToken = token) ∧
    (∀ i : Slot, overrides i.number = some .off → assigned i = none) ∧
    (∀ (i : Slot) (token : String), overrides i.number = some (.label token) →
      (∀ j < i, overrides (Slot.number j) ≠ some (.label token)) →
      (∃ tag ∈ tags, tag.tagToken = token) → assigned i = some token) ∧
    (∀ i : Slot, overrides i.number = none → ∀ tag ∈ tags,
      matchesBuiltinName T i.number tag.name = true →
      (∀ j : Slot, overrides j.number ≠ some (.label tag.tagToken)) →
      (∀ j < i, assigned j ≠ some tag.tagToken) →
      ∃ found ∈ tags, assigned i = some found.tagToken ∧
        matchesBuiltinName T i.number found.name = true ∧
        (isTopLevel tag = true → isTopLevel found = true)) ∧
    (∀ tags', tags.Perm tags' →
      slotAssignments T tags' overrides = slotAssignments T tags overrides) := by
  intro assigned
  have hgood : Table.Good tags (Table.filled T tags overrides) :=
    Table.good_fillByPosition (Table.good_foldl_nameSlot (List.nodup_finRange _))
  have hkeep : ∀ {i : Slot}, (Table.named T tags overrides).fixed i = true ∨
      ((Table.named T tags overrides).assigned i).isSome = true →
      assigned i = (Table.named T tags overrides).assigned i := fun hi =>
    (@Table.sameAt_fillByPosition T tags _ _ hi).1
  have hfixed : ∀ {i : Slot}, (Table.chosen tags overrides).fixed i = true →
      assigned i = (Table.chosen tags overrides).assigned i := by
    intro i hi
    have hnamed := @Table.named_of_fixed T tags i overrides hi
    exact (hkeep (.inl (hnamed.2.trans hi))).trans hnamed.1
  refine ⟨⟨rfl, List.length_ofFn⟩, hgood.distinct, hgood.known, ?_, ?_, ?_, ?_⟩
  · intro i hoff
    obtain ⟨hnone, hi⟩ := @Table.chosen_off tags overrides i hoff
    exact (hfixed hi).trans hnone
  · intro i token hlabel hfirst hknown
    obtain ⟨hsome, hi⟩ := Table.chosen_label hlabel hfirst hknown
    exact (hfixed hi).trans hsome
  · intro i hnone tag htag hname hchosen hearlier
    have hearlier' : ∀ j < i, (Table.named T tags overrides).assigned j ≠ some tag.tagToken := by
      intro j hj hassigned
      exact hearlier j hj ((hkeep (.inr (by rw [hassigned]; rfl))).trans hassigned)
    obtain ⟨found, hmem, hassigned, hmatch, htop⟩ :=
      Table.named_of_match hnone htag hname hchosen hearlier'
    exact ⟨found, hmem, (hkeep (.inr (by rw [hassigned]; rfl))).trans hassigned, hmatch, htop⟩
  · intro tags' hperm
    unfold slotAssignments
    rw [Table.filled_congr h hperm]

/-- One label `Work`, and the slot with the number 1 turned off. -/
theorem one_label_has_one_slot :
    (Table.filled LetterTables.ascii [⟨"t", "s", "Work".toList, none, 0⟩]
      fun n => if n = 1 then some .off else none).assigned 0 = none :=
  (slots_are_assigned LetterTables.ascii [⟨"t", "s", "Work".toList, none, 0⟩]
    (fun n => if n = 1 then some .off else none) (List.nodup_singleton _)).2.2.2.1 0 rfl

end AsterBridge.Tags
