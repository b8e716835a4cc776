import AsterBridge.Folders.Tree
import AsterBridge.Imap.Mutf7
import AsterBridge.Imap.Strings

/-!
# Mailbox names

`Directory` of `folders.rs` and the way of a mailbox name to a client and back. Paths of
different mailboxes differ in lower case (`PathsGood`), so the name that LIST sends resolves
to its own mailbox.
-/

set_option autoImplicit false

namespace AsterBridge.Folders

open AsterBridge.Lib.Text AsterBridge.Lib.Unicode

/-- `MailboxEntry` -/
structure MailboxEntry where
  path : List Char
  label : String
  specialUse : String
  hasChildren : Bool
  folder : Option FolderNode
deriving DecidableEq

/-- `folder_label` -/
def folderLabel (token : String) : String := "folder:" ++ token

/-- The entries of the system mailboxes. -/
def systemEntries : List MailboxEntry :=
  systemMailboxes.map fun m => ⟨m.name, m.label, m.specialUse, false, none⟩

/-- The entry of a node. -/
def entryOf (node : FolderNode) : MailboxEntry :=
  ⟨node.path, folderLabel node.token, "", node.hasChildren, some node⟩

/-- `Directory` -/
structure Directory where
  entries : List MailboxEntry

/-- `Directory::build` -/
def Directory.build (T : CaseTables) (folders : List CustomFolder) : Directory :=
  ⟨systemEntries ++ (buildTree T folders).map entryOf⟩

/-- `system_mailbox` -/
def systemMailbox (name : List Char) : Option SystemMailbox :=
  systemMailboxes.find? fun m => eqIgnoreAsciiCase m.name name

/-- `Directory::resolve` -/
def Directory.resolve (T : CaseTables) (d : Directory) (name : List Char) : Option MailboxEntry :=
  let wanted := (trim name).rdropWhile fun c => c == separator
  match systemMailbox wanted with
  | some m => d.entries.find? fun e => e.label = m.label
  | none =>
      if wanted = [] then none
      else
        let custom := d.entries.filter fun e => e.folder.isSome
        match custom.find? fun e => e.path = wanted with
        | some e => some e
        | none =>
            match custom.filter fun e => T.toLowercase e.path = T.toLowercase wanted with
            | [e] => some e
            | _ => none

variable {T : CaseTables}

/-! ## Segments -/

theorem separator_slash (T : CaseTables) : T.Separator separator :=
  T.separator_of_ascii (by decide) (by decide) (by decide)

theorem separator_space (T : CaseTables) : T.Separator ' ' :=
  T.separator_of_ascii (by decide) (by decide) (by decide)

/-- A text that `trim` and the removal of trailing slashes leave alone. -/
structure Clean (cs : List Char) : Prop where
  head : ∃ c, cs.head? = some c ∧ isWhitespace c = false
  last : ∃ c, cs.getLast? = some c ∧ isWhitespace c = false ∧ c ≠ separator

theorem Clean.ne_nil {cs : List Char} (h : Clean cs) : cs ≠ [] := by
  rintro rfl
  obtain ⟨c, hc, -⟩ := h.head
  exact absurd hc (by simp)

theorem Clean.trim_eq {cs : List Char} (h : Clean cs) : trim cs = cs := by
  obtain ⟨d, hd, hdwhite, -⟩ := h.last
  exact trim_of_ends h.head ⟨d, hd, hdwhite⟩

theorem Clean.rdropSeparator_eq {cs : List Char} (h : Clean cs) :
    cs.rdropWhile (fun c => c == separator) = cs := by
  obtain ⟨d, hd, -, hslash⟩ := h.last
  exact rdropWhile_of_last hd (by simpa using hslash)

theorem slash_not_mem_displaySegment (name : List Char) : separator ∉ displaySegment name := by
  intro hmem
  unfold displaySegment at hmem
  dsimp only at hmem
  split at hmem
  · exact absurd hmem (by decide)
  · obtain ⟨c, -, hc⟩ := List.mem_map.1 (mem_trim hmem)
    split at hc
    · exact absurd hc (by decide)
    · rename_i hne
      exact hne hc

theorem clean_displaySegment (name : List Char) : Clean (displaySegment name) := by
  have hslash := slash_not_mem_displaySegment name
  have hends : (∃ c, (displaySegment name).head? = some c ∧ isWhitespace c = false) ∧
      ∃ c, (displaySegment name).getLast? = some c ∧ isWhitespace c = false := by
    unfold displaySegment
    dsimp only
    split
    · exact ⟨⟨'U', by decide, by decide⟩, 'd', by decide, by decide⟩
    · rename_i hne
      exact trim_ends hne
  obtain ⟨hhead, d, hd, hwhite⟩ := hends
  refine ⟨hhead, d, hd, hwhite, ?_⟩
  rintro rfl
  exact hslash (List.mem_of_getLast? hd)

theorem digits_ne_slash (n : Nat) : separator ∉ Nat.toDigits 10 n := fun h =>
  absurd (Nat.isDigit_of_mem_toDigits (by decide) (by decide) h) (by decide)

/-- A number keeps a segment without slashes and clean. -/
theorem numbered_segment {base : List Char} (n : Nat) (hslash : separator ∉ base)
    (hclean : Clean base) : separator ∉ numbered base n ∧ Clean (numbered base n) := by
  constructor
  · simp only [numbered, List.mem_append, List.mem_cons, List.not_mem_nil, not_or]
    exact ⟨hslash, by decide, by decide, digits_ne_slash n, by decide, id⟩
  · obtain ⟨c, hc, hwhite⟩ := hclean.head
    obtain ⟨rest, rfl⟩ := List.head?_eq_some_iff.1 hc
    refine ⟨⟨c, rfl, hwhite⟩, ')', ?_, by decide, by decide⟩
    rw [List.getLast?_eq_some_iff]
    exact ⟨(c :: rest) ++ ' ' :: '(' :: Nat.toDigits 10 n, by simp [numbered]⟩

/-- The lower case of a numbered name ends with its number. -/
theorem toLowercase_numbered (base : List Char) (n : Nat) :
    T.toLowercase (numbered base n) =
      T.toLowercase base ++ ' ' :: '(' :: (Nat.toDigits 10 n ++ [')']) := by
  have hascii : ∀ c ∈ '(' :: (Nat.toDigits 10 n ++ [')']),
      c.toNat < 0x80 ∧ c.toLower = c := by
    intro c hc
    simp only [List.mem_cons, List.mem_append, List.not_mem_nil, or_false] at hc
    rcases hc with rfl | hdigit | rfl
    · decide
    · have hd : c.isDigit = true := Nat.isDigit_of_mem_toDigits (by decide) (by decide) hdigit
      have hrange : c.toNat < 0x80 := by
        simp only [Char.isDigit, Bool.and_eq_true, decide_eq_true_eq, UInt32.le_iff_toNat_le] at hd
        exact Nat.lt_of_le_of_lt hd.2 (by decide)
      refine ⟨hrange, toLower_of_not_isUpper hrange ?_⟩
      exact ascii_forall (P := fun c => c.isDigit = true → c.isUpper = false)
        (by decide +kernel) hrange hd
    · decide
  rw [numbered, CaseTables.toLowercase_separator (separator_space T),
    CaseTables.toLowercase_ascii fun c hc => (hascii c hc).1]
  congr 2
  exact (List.map_congr_left fun c hc => (hascii c hc).2).trans (List.map_id' _)

/-- Numbered names differ in lower case from each other and from the plain name. -/
theorem toLowercase_numbered_inj {base : List Char} {m n : Nat}
    (h : T.toLowercase (numbered base m) = T.toLowercase (numbered base n)) : m = n := by
  rw [toLowercase_numbered, toLowercase_numbered] at h
  have hdigits := List.append_cancel_right (List.cons.inj (List.cons.inj
    (List.append_cancel_left h)).2).2
  have hvalue := congrArg (fun ds => Nat.ofDigitChars 10 ds 0) hdigits
  simpa only [Nat.ofDigitChars_ten_toDigits] using hvalue

theorem toLowercase_numbered_ne (base : List Char) (n : Nat) :
    T.toLowercase (numbered base n) ≠ T.toLowercase base := by
  intro h
  rw [toLowercase_numbered] at h
  exact absurd (congrArg List.length h) (by simp)

/-- The candidates of `unique_segment` in order. -/
def candidateAt (base : List Char) (n : Nat) : List Char :=
  if n = 0 then base else numbered base (n + 1)

theorem toLowercase_candidateAt_inj {base : List Char} {m n : Nat}
    (h : T.toLowercase (candidateAt base m) = T.toLowercase (candidateAt base n)) : m = n := by
  unfold candidateAt at h
  split at h <;> split at h
  · omega
  · exact absurd h.symm (toLowercase_numbered_ne base _)
  · exact absurd h (toLowercase_numbered_ne base _)
  · have hnumber := toLowercase_numbered_inj h
    omega

/-- The loop of `unique_segment` ends at a candidate that is not in use, or has found all
the candidates before it in use. -/
theorem uniqueFrom_spec (T : CaseTables) (base : List Char) (used : List (List Char))
    (fuel k : Nat) :
    ∃ n, uniqueFrom T base used fuel (k + 2) (candidateAt base k) = candidateAt base n ∧
      (T.toLowercase (candidateAt base n) ∉ used ∨
        n = k + fuel ∧ ∀ i, k ≤ i → i < n → T.toLowercase (candidateAt base i) ∈ used) := by
  induction fuel generalizing k with
  | zero => exact ⟨k, rfl, Or.inr ⟨rfl, fun i hki hik => absurd hki (by omega)⟩⟩
  | succ fuel ih =>
      rw [uniqueFrom]
      split
      · rename_i hused
        have hnext : numbered base (k + 2) = candidateAt base (k + 1) := by
          simp [candidateAt]
        obtain ⟨n, hn, hspec⟩ := ih (k + 1)
        rw [hnext]
        refine ⟨n, hn, hspec.imp_right fun ⟨hlast, hall⟩ => ⟨by omega, fun i hki hin => ?_⟩⟩
        rcases Nat.eq_or_lt_of_le hki with rfl | hlt
        · simpa using hused
        · exact hall i hlt hin
      · rename_i hfree
        exact ⟨k, rfl, Or.inl (by simpa using hfree)⟩

/-- **`unique_segment` finds a free name.** More candidates than names in use cannot all be
in use. -/
theorem uniqueSegment_spec (T : CaseTables) (base : List Char) (used : List (List Char)) :
    ∃ n, uniqueSegment T base used = candidateAt base n ∧
      T.toLowercase (candidateAt base n) ∉ used := by
  obtain ⟨n, hn, hspec⟩ := uniqueFrom_spec T base used (used.length + 1) 0
  refine ⟨n, hn, ?_⟩
  rcases hspec with hfree | ⟨hlast, hall⟩
  · exact hfree
  · exfalso
    have hnodup : ((List.range n).map fun i => T.toLowercase (candidateAt base i)).Nodup :=
      List.nodup_range.map fun _ _ h => toLowercase_candidateAt_inj h
    have hsubset : ((List.range n).map fun i => T.toLowercase (candidateAt base i)) ⊆ used := by
      intro s hs
      obtain ⟨i, hi, rfl⟩ := List.mem_map.1 hs
      exact hall i (Nat.zero_le i) (List.mem_range.1 hi)
    have hlength := List.Subperm.length_le (hnodup.subperm hsubset)
    rw [List.length_map, List.length_range] at hlength
    omega

/-- The segment of a folder among its siblings. -/
theorem uniqueSegment_good (T : CaseTables) (name : List Char) (used : List (List Char)) :
    T.toLowercase (uniqueSegment T (displaySegment name) used) ∉ used ∧
      separator ∉ uniqueSegment T (displaySegment name) used ∧
        Clean (uniqueSegment T (displaySegment name) used) := by
  obtain ⟨n, hn, hfree⟩ := uniqueSegment_spec T (displaySegment name) used
  have hslash := slash_not_mem_displaySegment name
  have hclean := clean_displaySegment name
  rw [hn]
  refine ⟨hfree, ?_⟩
  unfold candidateAt
  split
  · exact ⟨hslash, hclean⟩
  · exact numbered_segment _ hslash hclean

/-! ## Paths -/

theorem slash_not_mem_toLowercase {cs : List Char} (h : separator ∉ cs) :
    separator ∉ T.toLowercase cs := fun hmem =>
  h (CaseTables.mem_of_mem_toLowercase (by decide) (by decide) hmem)

theorem toLowercase_below (path segment : List Char) :
    T.toLowercase (path ++ separator :: segment) =
      T.toLowercase path ++ separator :: T.toLowercase segment :=
  CaseTables.toLowercase_separator (separator_slash T) path segment

/-- The paths of siblings come from segments that differ in lower case. -/
theorem nameSiblings_segments (T : CaseTables) (parentPath : Option (List Char))
    (used : List (List Char)) (fs : List CustomFolder) :
    ∃ segments : List (List Char),
      (nameSiblings T parentPath used fs).map Prod.snd = segments.map (joinPath parentPath) ∧
        (segments.map T.toLowercase).Nodup ∧
          ∀ s ∈ segments, T.toLowercase s ∉ used ∧ separator ∉ s ∧ Clean s := by
  induction fs generalizing used with
  | nil => exact ⟨[], rfl, List.nodup_nil, fun _ hs => absurd hs List.not_mem_nil⟩
  | cons f fs ih =>
      have hgood := uniqueSegment_good T f.name used
      generalize hsegment : uniqueSegment T (displaySegment f.name) used = segment at hgood
      obtain ⟨segments, hpaths, hnodup, hall⟩ := ih (T.toLowercase segment :: used)
      refine ⟨segment :: segments, ?_, ?_, ?_⟩
      · rw [nameSiblings, hsegment, List.map_cons, List.map_cons, hpaths]
      · rw [List.map_cons, List.nodup_cons]
        refine ⟨fun hmem => ?_, hnodup⟩
        obtain ⟨s, hs, heq⟩ := List.mem_map.1 hmem
        exact (hall s hs).1 (heq ▸ List.mem_cons_self)
      · intro s hs
        rcases List.mem_cons.1 hs with rfl | hs
        · exact hgood
        · obtain ⟨hfree, hrest⟩ := hall s hs
          exact ⟨fun hmem => hfree (List.mem_cons_of_mem _ hmem), hrest⟩

/-- The paths of the nodes and of the stack. -/
def Walk.paths (w : Walk) : List (List Char) :=
  w.out.map FolderNode.path ++ w.stack.map Prod.snd

/-- Paths differ from each other and from the system names in lower case; each is a segment,
or a segment below the path of a node. -/
structure PathsGood (T : CaseTables) (w : Walk) : Prop where
  nodup : (w.paths.map T.toLowercase).Nodup
  reserved : ∀ p ∈ w.paths, ∀ m ∈ systemMailboxes, T.toLowercase p ≠ T.toLowercase m.name
  below : ∀ p ∈ w.paths, separator ∉ p ∨
    ∃ q ∈ w.out.map FolderNode.path, ∃ s, separator ∉ s ∧ p = q ++ separator :: s
  clean : ∀ p ∈ w.paths, Clean p

theorem pathsGood_start (T : CaseTables) (folders : List CustomFolder) :
    PathsGood T ⟨pushChildren T folders none none, []⟩ := by
  obtain ⟨segments, hpaths, hnodup, hall⟩ :=
    nameSiblings_segments T none (reservedNames T none) (childrenOf folders none)
  have heq : Walk.paths ⟨pushChildren T folders none none, []⟩ = segments :=
    hpaths.trans (List.map_id' _)
  refine ⟨heq ▸ hnodup, ?_, ?_, ?_⟩
  · intro p hp m hm hlower
    refine (hall p (heq ▸ hp)).1 ?_
    rw [reservedNames, if_pos rfl, hlower]
    exact List.mem_map_of_mem hm
  · exact fun p hp => Or.inl (hall p (heq ▸ hp)).2.1
  · exact fun p hp => (hall p (heq ▸ hp)).2.2

/-- Taking a folder from the stack adds paths below its own. -/
theorem PathsGood.pop {folders : List CustomFolder} {f : CustomFolder} {path : List Char}
    {stack : List (CustomFolder × List Char)} {out : List FolderNode}
    (h : PathsGood T ⟨(f, path) :: stack, out⟩) :
    PathsGood T
      ⟨pushChildren T folders (some f.labelToken) (some path) ++ stack,
        out ++ [nodeOf folders f path out.length]⟩ := by
  obtain ⟨segments, hpaths, hnodup, hall⟩ := nameSiblings_segments T (some path)
    (reservedNames T (some f.labelToken)) (childrenOf folders (some f.labelToken))
  have hbefore : Walk.paths ⟨(f, path) :: stack, out⟩ =
      out.map FolderNode.path ++ path :: stack.map Prod.snd := rfl
  have hperm : (Walk.paths ⟨pushChildren T folders (some f.labelToken) (some path) ++ stack,
        out ++ [nodeOf folders f path out.length]⟩).Perm
      (segments.map (joinPath (some path)) ++ Walk.paths ⟨(f, path) :: stack, out⟩) := by
    have hcomm := List.perm_append_comm_assoc (out.map FolderNode.path ++ [path])
      (segments.map (joinPath (some path))) (stack.map Prod.snd)
    simp only [List.append_assoc, List.singleton_append] at hcomm
    rw [Walk.paths, hbefore]
    simpa [nodeOf, pushChildren, hpaths] using hcomm
  -- a path below `path` that was there already would have `path` twice
  have hfresh : ∀ s ∈ segments, ∀ p ∈ Walk.paths ⟨(f, path) :: stack, out⟩,
      T.toLowercase (joinPath (some path) s) ≠ T.toLowercase p := by
    intro s hs p hp hlower
    have hs' := slash_not_mem_toLowercase (T := T) (hall s hs).2.1
    rw [joinPath, toLowercase_below] at hlower
    rcases h.below p hp with hroot | ⟨q, hq, s', hs'', rfl⟩
    · refine slash_not_mem_toLowercase (T := T) hroot ?_
      rw [← hlower]
      exact List.mem_append_right _ List.mem_cons_self
    · rw [toLowercase_below] at hlower
      have hcut := cut_last hs' (slash_not_mem_toLowercase hs'') hlower
      have hnodup := h.nodup
      rw [hbefore, List.map_append, List.map_cons] at hnodup
      exact (List.nodup_append.1 hnodup).2.2 _ (List.mem_map_of_mem hq) _ List.mem_cons_self
        hcut.1.symm
  constructor
  · rw [(hperm.map T.toLowercase).nodup_iff, List.map_append, List.nodup_append]
    refine ⟨?_, h.nodup, ?_⟩
    · have hlower : (segments.map (joinPath (some path))).map T.toLowercase =
          (segments.map T.toLowercase).map fun s => T.toLowercase path ++ separator :: s := by
        rw [List.map_map, List.map_map]
        exact List.map_congr_left fun s _ => toLowercase_below path s
      rw [hlower]
      refine hnodup.map fun s s' heq => ?_
      exact (List.cons.inj (List.append_cancel_left heq)).2
    · intro a ha b hb hab
      obtain ⟨p, hp, rfl⟩ := List.mem_map.1 ha
      obtain ⟨s, hs, rfl⟩ := List.mem_map.1 hp
      obtain ⟨p', hp', rfl⟩ := List.mem_map.1 hb
      exact hfresh s hs p' hp' hab
  · intro p hp m hm hlower
    rcases List.mem_append.1 (hperm.subset hp) with hnew | hold
    · obtain ⟨s, -, rfl⟩ := List.mem_map.1 hnew
      have hname : separator ∉ m.name := by
        have hall : ∀ m ∈ systemMailboxes, separator ∉ m.name := by decide
        exact hall m hm
      rw [joinPath, toLowercase_below] at hlower
      refine slash_not_mem_toLowercase (T := T) hname ?_
      rw [← hlower]
      exact List.mem_append_right _ List.mem_cons_self
    · exact h.reserved p hold m hm hlower
  · intro p hp
    rcases List.mem_append.1 (hperm.subset hp) with hnew | hold
    · obtain ⟨s, hs, rfl⟩ := List.mem_map.1 hnew
      exact Or.inr ⟨path, by simp [nodeOf], s, (hall s hs).2.1, rfl⟩
    · apply (h.below p hold).imp_right
      rintro ⟨q, hq, hrest⟩
      refine ⟨q, ?_, hrest⟩
      rw [List.map_append]
      exact List.mem_append_left _ hq
  · intro p hp
    rcases List.mem_append.1 (hperm.subset hp) with hnew | hold
    · obtain ⟨s, hs, rfl⟩ := List.mem_map.1 hnew
      obtain ⟨c, hc, hwhite⟩ := (h.clean path (by simp [hbefore])).head
      obtain ⟨rest, rfl⟩ := List.head?_eq_some_iff.1 hc
      obtain ⟨d, hd, hdwhite, hdslash⟩ := (hall s hs).2.2.last
      obtain ⟨init, rfl⟩ := List.getLast?_eq_some_iff.1 hd
      refine ⟨⟨c, rfl, hwhite⟩, d, ?_, hdwhite, hdslash⟩
      rw [List.getLast?_eq_some_iff]
      exact ⟨c :: rest ++ separator :: init, by simp [joinPath]⟩
    · exact h.clean p hold

theorem pathsGood_fullWalk (T : CaseTables) (folders : List CustomFolder) :
    PathsGood T (fullWalk T folders) :=
  popAll_induction (fun _ _ _ _ h => h.pop) (pathsGood_start T _) _

/-- The paths of the walk are those of the tree. -/
theorem paths_fullWalk (T : CaseTables) (folders : List CustomFolder) :
    (fullWalk T folders).paths = (buildTree T folders).map FolderNode.path := by
  rw [Walk.paths, fullWalk_stack, List.map_nil, List.append_nil]
  rfl

/-! ## Resolving a path -/

/-- The system names are ASCII. -/
theorem systemMailboxes_ascii : ∀ m ∈ systemMailboxes, ∀ c ∈ m.name, c.toNat < 0x80 := by
  have hall : systemMailboxes.all (fun m => m.name.all fun c => c.toNat < 0x80) = true := by
    decide +kernel
  intro m hm c hc
  simpa using List.all_eq_true.1 (List.all_eq_true.1 hall m hm) c hc

/-- A name that equals a system name but for ASCII case has its lower case. -/
theorem toLowercase_of_eqIgnoreAsciiCase {m : SystemMailbox} (hm : m ∈ systemMailboxes)
    {name : List Char} (h : eqIgnoreAsciiCase m.name name = true) :
    T.toLowercase name = T.toLowercase m.name := by
  have hmap : m.name.map Char.toLower = name.map Char.toLower := by
    simpa [eqIgnoreAsciiCase] using h
  have hascii : ∀ c ∈ name, c.toNat < 0x80 := by
    intro c hc
    have hlower : c.toLower.toNat < 0x80 := by
      have hmem : c.toLower ∈ m.name.map Char.toLower := hmap ▸ List.mem_map_of_mem hc
      obtain ⟨d, hd, heq⟩ := List.mem_map.1 hmem
      rw [← heq]
      exact ascii_forall (P := fun c => c.toLower.toNat < 0x80) (by decide +kernel)
        (systemMailboxes_ascii m hm d hd)
    by_contra hbig
    -- `toLower` moves only the letters `A` to `Z`
    have hsame : c.toLower = c := by
      unfold Char.toLower
      rw [dif_neg]
      rintro ⟨-, hle⟩
      have hnat : c.val.toNat ≤ 'Z'.val.toNat := UInt32.le_iff_toNat_le.1 hle
      exact hbig (Nat.lt_of_le_of_lt hnat (by decide))
    rw [hsame] at hlower
    exact hbig hlower
  rw [CaseTables.toLowercase_ascii hascii,
    CaseTables.toLowercase_ascii (systemMailboxes_ascii m hm), hmap]

/-- In a list whose keys differ, the first element with the key of `e` is `e`. -/
theorem find?_key {α β : Type} [DecidableEq β] {key : α → β} {l : List α}
    (h : (l.map key).Nodup) {e : α} (he : e ∈ l) : l.find? (fun a => key a = key e) = some e := by
  cases hfind : l.find? fun a => key a = key e with
  | none => exact absurd (List.find?_eq_none.1 hfind e he) (by simp)
  | some a =>
      have hkey : key a = key e := by simpa using List.find?_some hfind
      rw [List.inj_on_of_nodup_map h (List.mem_of_find?_eq_some hfind) he hkey]

theorem entries_build (T : CaseTables) (folders : List CustomFolder) :
    (Directory.build T folders).entries = systemEntries ++ (buildTree T folders).map entryOf := rfl

theorem custom_build (T : CaseTables) (folders : List CustomFolder) :
    ((Directory.build T folders).entries.filter fun e => e.folder.isSome) =
      (buildTree T folders).map entryOf := by
  rw [entries_build, List.filter_append, List.filter_eq_nil_iff.2 (by decide), List.nil_append,
    List.filter_eq_self]
  intro e he
  obtain ⟨node, -, rfl⟩ := List.mem_map.1 he
  rfl

/-- A system name resolves to its mailbox. -/
theorem resolve_system (T : CaseTables) (folders : List CustomFolder) {e : MailboxEntry}
    (he : e ∈ systemEntries) :
    (Directory.build T folders).resolve T e.path = some e := by
  have hall : ∀ e ∈ systemEntries,
      ∃ m, systemMailbox ((trim e.path).rdropWhile fun c => c == separator) = some m ∧
        systemEntries.find? (fun e' => e'.label = m.label) = some e := by decide
  obtain ⟨m, hm, hfind⟩ := hall e he
  simp only [Directory.resolve, hm]
  rw [entries_build, List.find?_append, hfind]
  rfl

/-- A path of the tree resolves to its node. -/
theorem resolve_custom (T : CaseTables) (folders : List CustomFolder) {node : FolderNode}
    (h : node ∈ buildTree T folders) :
    (Directory.build T folders).resolve T node.path = some (entryOf node) := by
  have hgood := pathsGood_fullWalk T folders
  have hpaths := paths_fullWalk T folders
  have hmem : node.path ∈ (fullWalk T folders).paths := hpaths ▸ List.mem_map_of_mem h
  have hclean := hgood.clean _ hmem
  have hsystem : systemMailbox node.path = none := by
    rw [systemMailbox, List.find?_eq_none]
    intro m hm heq
    exact hgood.reserved _ hmem m hm (toLowercase_of_eqIgnoreAsciiCase hm heq)
  have hnodup : (((buildTree T folders).map entryOf).map MailboxEntry.path).Nodup := by
    rw [List.map_map]
    exact List.Nodup.of_map T.toLowercase (hpaths ▸ hgood.nodup)
  have hfind : ((buildTree T folders).map entryOf).find? (fun e => e.path = node.path) =
      some (entryOf node) :=
    find?_key hnodup (e := entryOf node) (List.mem_map_of_mem h)
  simp only [Directory.resolve]
  rw [hclean.trim_eq, hclean.rdropSeparator_eq, hsystem]
  dsimp only
  rw [if_neg hclean.ne_nil, custom_build, hfind]

/-- The paths of a directory differ in lower case. -/
theorem nodup_lowercase_build (T : CaseTables) (folders : List CustomFolder) :
    ((Directory.build T folders).entries.map fun e => T.toLowercase e.path).Nodup := by
  have hgood := pathsGood_fullWalk T folders
  have hpaths := paths_fullWalk T folders
  have hcustom : ((buildTree T folders).map entryOf).map (fun e => T.toLowercase e.path) =
      (fullWalk T folders).paths.map T.toLowercase := by
    rw [hpaths, List.map_map, List.map_map]
    rfl
  have hsystem : systemEntries.map (fun e => T.toLowercase e.path) =
      systemEntries.map fun e => e.path.map Char.toLower := by
    refine List.map_congr_left fun e he => CaseTables.toLowercase_ascii ?_
    obtain ⟨m, hm, rfl⟩ := List.mem_map.1 he
    exact systemMailboxes_ascii m hm
  rw [entries_build, List.map_append, List.nodup_append]
  refine ⟨?_, hcustom ▸ hgood.nodup, ?_⟩
  · rw [hsystem]
    decide
  · rw [hcustom]
    intro a ha b hb hab
    obtain ⟨e, he, rfl⟩ := List.mem_map.1 ha
    obtain ⟨m, hm, rfl⟩ := List.mem_map.1 he
    obtain ⟨p, hp, rfl⟩ := List.mem_map.1 hb
    exact hgood.reserved p hp m hm hab.symm

/-! ## The way to a client and back -/

theorem isControl_of_printable {c : Char} (h : 0x20 ≤ c.toNat ∧ c.toNat ≤ 0x7E) :
    isControl c = false := by
  simp only [isControl, Bool.or_eq_false_iff, Bool.and_eq_false_iff, decide_eq_false_iff_not]
  omega

/-- The name that LIST sends for a path is read back as the path. -/
theorem sent_name_read_back (path : List Char) :
    Imap.Mutf7.decodeLenient
      (Imap.parseImapAtomOrQuoted (Imap.quoteImapString (Imap.Mutf7.encode path))).1 = path := by
  rw [Imap.parse_quoteImapString fun c hc =>
    isControl_of_printable (Imap.Mutf7.printable_encode path c hc),
    Imap.Mutf7.decodeLenient_encode]

/-- **Mailbox names round-trip.** Whatever the custom folders, the paths of a directory
differ, also in lower case, and the name that LIST sends for an entry resolves to it. -/
theorem mailbox_names_round_trip (T : CaseTables) (folders : List CustomFolder) :
    let d := Directory.build T folders
    (d.entries.map MailboxEntry.path).Nodup ∧
    (d.entries.map fun e => T.toLowercase e.path).Nodup ∧
    ∀ e ∈ d.entries,
      d.resolve T (Imap.Mutf7.decodeLenient
        (Imap.parseImapAtomOrQuoted (Imap.quoteImapString (Imap.Mutf7.encode e.path))).1) =
          some e := by
  have hlower := nodup_lowercase_build T folders
  refine ⟨?_, hlower, ?_⟩
  · refine List.Nodup.of_map T.toLowercase ?_
    rw [List.map_map]
    exact hlower
  · intro e he
    rw [sent_name_read_back]
    rcases List.mem_append.1 he with hsystem | hcustom
    · exact resolve_system T folders hsystem
    · obtain ⟨node, hnode, rfl⟩ := List.mem_map.1 hcustom
      exact resolve_custom T folders hnode

end AsterBridge.Folders
