import AsterBridge.Db.Cache
import AsterBridge.Error
import AsterBridge.Folders.Directory
import AsterBridge.Lib.Ancestry
import AsterBridge.Lib.Runs

/-!
# Folder operations

`create`, `update` and `delete` of `folder_ops.rs` on the table `custom_folder` and the message
cache. What the outside world gives to a call (the token that is drawn, the sealing of the name,
the answer of the server) is an argument. `folder_operations_keep_the_tree` holds in every state
that calls reach.

The table is a list in the order of its tokens, as `list_custom_folders` returns it. The record of
the moved messages in the change log is left out.
-/

set_option autoImplicit false

namespace AsterBridge.Folders.FolderOps

open AsterBridge.Lib AsterBridge.Lib.Text AsterBridge.Lib.Unicode AsterBridge.Lib.Ancestry
open AsterBridge.Db

/-- `FolderOpError` -/
inductive FolderOpError where
  | locked
  | invalid (msg : String)
  | alreadyExists
  | notFound
  | parentNotFound
  | systemMailbox
  | hasChildren
  | cycle
  | busy
  | server (action : String)
deriving DecidableEq

/-- The tables that the operations read and write. -/
structure FolderDb where
  folders : List CustomFolder
  cache : Cache

/-- What the outside world gives to a call. -/
structure Answers where
  /-- `generate_folder_token` -/
  token : String
  /-- `encrypt_folder_name` -/
  sealed : Except BridgeError Unit
  /-- the answer of the server; for a new folder, with its id -/
  server : Except BridgeError String

/-! ## Helpers -/

/-- `is_rate_limited` -/
def isRateLimited (T : CaseTables) (e : BridgeError) : Bool :=
  contains e.toText.toList "429".toList ||
    contains (T.toLowercase e.toText.toList) "rate limit".toList

/-- `server_error` -/
def serverError (T : CaseTables) (action : String) (e : BridgeError) : FolderOpError :=
  if isRateLimited T e then .busy else .server action

/-- `effective_parent` -/
def effectiveParent (folders : List CustomFolder) (folder : CustomFolder) : Option String :=
  folder.parentToken.filter fun p =>
    p ≠ folder.labelToken && folders.any fun f => f.labelToken = p

/-- `MAX_NAME_CHARS` -/
def maxNameChars : Nat := 100

/-- `validate_name` -/
def validateName (name : List Char) : Except String Unit :=
  if trim name = [] then .error "folder name cannot be empty"
  else if maxNameChars < name.length then .error "folder name is longer than 100 characters"
  else if name.any isControl then .error "folder name contains control characters"
  else .ok ()

/-- `clean_name` -/
def cleanName (name : List Char) : Except FolderOpError (List Char) :=
  match validateName (trim name) with
  | .error msg => .error (.invalid msg)
  | .ok _ => .ok (trim name)

/-- `sibling_conflict` -/
def siblingConflict (T : CaseTables) (folders : List CustomFolder) (parent : Option String)
    (name : List Char) (except : Option String) : Bool :=
  if parent = none ∧ (Folders.systemMailbox name).isSome then true
  else folders.any fun f =>
    some f.labelToken ≠ except && effectiveParent folders f = parent &&
      T.toLowercase (trim f.name) = T.toLowercase name

/-- The parent of a token, as the loop of `creates_cycle` finds it. -/
def parentOf (folders : List CustomFolder) (token : String) : Option String :=
  (folders.find? fun f => f.labelToken = token).bind (effectiveParent folders)

/-- `creates_cycle`; a walk that takes more steps than there are folders was somewhere twice. -/
def createsCycle (folders : List CustomFolder) (token : String) (newParent : Option String) :
    Bool :=
  meets (parentOf folders) token (folders.length + 2) [] newParent

/-- `has_children` -/
def hasChildren (folders : List CustomFolder) (token : String) : Bool :=
  folders.any fun f => f.labelToken ≠ token && effectiveParent folders f = some token

/-- `upsert_custom_folder` -/
def upsertCustomFolder (folder : CustomFolder) (folders : List CustomFolder) : List CustomFolder :=
  if folders.any fun f => f.labelToken = folder.labelToken then
    folders.map fun f => if f.labelToken = folder.labelToken then folder else f
  else folders.orderedInsert (fun f g => f.labelToken ≤ g.labelToken) folder

/-- `delete_custom_folder` -/
def deleteCustomFolder (token : String) (folders : List CustomFolder) : List CustomFolder :=
  (folders.filter fun f => f.labelToken ≠ token).map fun f =>
    if f.parentToken = some token then { f with parentToken := none } else f

/-! ## Operations -/

/-- The tables after a folder is stored. -/
def FolderDb.store (db : FolderDb) (folder : CustomFolder) : FolderDb :=
  { db with folders := upsertCustomFolder folder db.folders }

/-- `create` -/
def create (T : CaseTables) (db : FolderDb) (name : List Char) (parent : Option String)
    (answers : Answers) : Except FolderOpError String × FolderDb :=
  match cleanName name with
  | .error e => (.error e, db)
  | .ok name =>
      if parent.any fun p => !db.folders.any fun f => f.labelToken = p then
        (.error .parentNotFound, db)
      else if siblingConflict T db.folders parent name none then (.error .alreadyExists, db)
      else
        match answers.sealed with
        | .error e => (.error (serverError T "encrypt the folder name" e), db)
        | .ok _ =>
            match answers.server with
            | .error e => (.error (serverError T "create the folder" e), db)
            | .ok serverId =>
                (.ok answers.token,
                  db.store ⟨answers.token, serverId, name, parent, 0, none⟩)

/-- `update`, once the folder, its new name and its parents are known. -/
def place (T : CaseTables) (db : FolderDb) (stored : CustomFolder) (name : List Char)
    (currentParent parent : Option String) (answers : Answers) :
    Except FolderOpError Unit × FolderDb :=
  if parent.any fun p => !db.folders.any fun f => f.labelToken = p then
    (.error .parentNotFound, db)
  else if parent.isSome ∧ createsCycle db.folders stored.labelToken parent then
    (.error .cycle, db)
  else if name = stored.name ∧ parent = currentParent then (.ok (), db)
  else if siblingConflict T db.folders parent name (some stored.labelToken) then
    (.error .alreadyExists, db)
  else
    match answers.sealed with
    | .error e => (.error (serverError T "encrypt the folder name" e), db)
    | .ok _ =>
        match answers.server with
        | .error e => (.error (serverError T "update the folder" e), db)
        | .ok _ => (.ok (), db.store { stored with name := name, parentToken := parent })

/-- `update` -/
def update (T : CaseTables) (db : FolderDb) (token : String) (newName : Option (List Char))
    (newParent : Option (Option String)) (answers : Answers) :
    Except FolderOpError Unit × FolderDb :=
  match db.folders.find? fun f => f.labelToken = token with
  | none => (.error .notFound, db)
  | some stored =>
      let name := match newName with
        | some n => cleanName n
        | none => .ok stored.name
      match name with
      | .error e => (.error e, db)
      | .ok name =>
          let currentParent := effectiveParent db.folders stored
          place T db stored name currentParent (newParent.getD currentParent) answers

/-- `delete` -/
def delete (T : CaseTables) (db : FolderDb) (token : String) (answers : Answers) :
    Except FolderOpError (List String) × FolderDb :=
  match db.folders.find? fun f => f.labelToken = token with
  | none => (.error .notFound, db)
  | some _ =>
      if hasChildren db.folders token then (.error .hasChildren, db)
      else
        match answers.server with
        | .error e => (.error (serverError T "delete the folder" e), db)
        | .ok _ =>
            let (cache, moved) := db.cache.relocateFolderMessages (folderLabel token) "inbox"
            (.ok moved, ⟨deleteCustomFolder token db.folders, cache⟩)

/-! ## Calls -/

/-- A call of one of the operations. -/
inductive Call where
  | create (name : List Char) (parent : Option String) (answers : Answers)
  | update (token : String) (newName : Option (List Char)) (newParent : Option (Option String))
      (answers : Answers)
  | delete (token : String) (answers : Answers)

/-- The error of a call, if it returns one, and the tables after it. -/
def Call.run (T : CaseTables) (db : FolderDb) : Call → Option FolderOpError × FolderDb
  | .create name parent answers =>
      let r := FolderOps.create T db name parent answers
      (match r.1 with | .error e => some e | .ok _ => none, r.2)
  | .update token newName newParent answers =>
      let r := FolderOps.update T db token newName newParent answers
      (match r.1 with | .error e => some e | .ok _ => none, r.2)
  | .delete token answers =>
      let r := FolderOps.delete T db token answers
      (match r.1 with | .error e => some e | .ok _ => none, r.2)

/-- The tables after a call. -/
def step (T : CaseTables) (db : FolderDb) (call : Call) : FolderDb := (call.run T db).2

/-- The token that is drawn for a new folder is none of the table's. -/
def FreshToken (db : FolderDb) : Call → Prop
  | .create _ _ answers => ∀ f ∈ db.folders, f.labelToken ≠ answers.token
  | _ => True

/-! ## Well-formed tables -/

/-- The folder of a token stands in the folder of another. -/
def Inside (folders : List CustomFolder) (token parent : String) : Prop :=
  ∃ f ∈ folders, f.labelToken = token ∧ f.parentToken = some parent

/-- A name as it may be stored. -/
structure NameGood (name : List Char) : Prop where
  trimmed : trim name = name
  valid : validateName name = .ok ()

/-- A well-formed folder table. -/
structure WellFormed (T : CaseTables) (folders : List CustomFolder) : Prop where
  tokens : (folders.map CustomFolder.labelToken).Nodup
  parents : ∀ f ∈ folders, ∀ p, f.parentToken = some p → ∃ g ∈ folders, g.labelToken = p
  acyclic : Acyclic (Inside folders)
  names : ∀ f ∈ folders, NameGood f.name
  siblings : ∀ f ∈ folders, ∀ g ∈ folders, f.labelToken ≠ g.labelToken →
    f.parentToken = g.parentToken → T.toLowercase f.name ≠ T.toLowercase g.name
  top : ∀ f ∈ folders, f.parentToken = none → Folders.systemMailbox f.name = none

variable {T : CaseTables} {folders : List CustomFolder} {f : CustomFolder} {token p : String}

theorem nameGood_of_cleanName {name cleaned : List Char} (h : cleanName name = .ok cleaned) :
    NameGood cleaned := by
  unfold cleanName at h
  split at h
  · cases h
  · rename_i hvalid
    cases h
    exact ⟨trim_trim name, hvalid⟩

/-- In a well-formed table the parent of a folder counts. -/
theorem WellFormed.effectiveParent_eq (h : WellFormed T folders) (hf : f ∈ folders) :
    effectiveParent folders f = f.parentToken := by
  unfold effectiveParent
  cases hp : f.parentToken with
  | none => rfl
  | some p =>
      obtain ⟨g, hg, htoken⟩ := h.parents f hf p hp
      have hne : p ≠ f.labelToken := by
        rintro rfl
        exact h.acyclic.ne ⟨f, hf, rfl, hp⟩ rfl
      have hknown : (folders.any fun f => f.labelToken = p) = true :=
        List.any_eq_true.mpr ⟨g, hg, by simpa using htoken⟩
      simp [Option.filter, hne, hknown]

theorem WellFormed.find? (h : WellFormed T folders) (hf : f ∈ folders) :
    (folders.find? fun g => g.labelToken = f.labelToken) = some f := by
  cases hfind : folders.find? fun g => g.labelToken = f.labelToken with
  | none =>
      have hnot := List.find?_eq_none.mp hfind f hf
      simp at hnot
  | some g =>
      have htoken : g.labelToken = f.labelToken := by simpa using List.find?_some hfind
      rw [List.inj_on_of_nodup_map h.tokens (List.mem_of_find?_eq_some hfind) hf htoken]

/-- One step of the walk of `creates_cycle` is a step to the parent. -/
theorem WellFormed.parentOf_iff (h : WellFormed T folders) :
    parentOf folders token = some p ↔ Inside folders token p := by
  constructor
  · intro hparent
    obtain ⟨f, hfind, hup⟩ := Option.bind_eq_some_iff.mp hparent
    have hf := List.mem_of_find?_eq_some hfind
    have htoken : f.labelToken = token := by simpa using List.find?_some hfind
    rw [h.effectiveParent_eq hf] at hup
    exact ⟨f, hf, htoken, hup⟩
  · rintro ⟨f, hf, rfl, hup⟩
    unfold parentOf
    rw [h.find? hf, Option.bind_some, h.effectiveParent_eq hf]
    exact hup

/-- **No cycle is overlooked**: a new parent that passes stands neither in the folder nor below. -/
theorem WellFormed.not_below (h : WellFormed T folders)
    (hcycle : createsCycle folders token (some p) = false) :
    ¬Relation.ReflTransGen (Inside folders) p token := by
  intro hreach
  have hinside : Inside folders = fun a b => parentOf folders a = some b := by
    funext a b
    exact propext h.parentOf_iff.symm
  have hmeets : createsCycle folders token (some p) = true := by
    apply @meets_of_reaches _ _ _ _ (folders.map CustomFolder.labelToken)
    · rw [← hinside]
      exact h.acyclic
    · intro a b hab
      obtain ⟨f, hf, rfl, -⟩ := h.parentOf_iff.mp hab
      exact List.mem_map_of_mem hf
    · exact List.nodup_nil
    · nofun
    · rw [List.length_map]
      omega
    · rw [← hinside]
      exact hreach
  rw [hcycle] at hmeets
  cases hmeets

/-- What `sibling_conflict` looks for is not there. -/
theorem WellFormed.no_conflict (h : WellFormed T folders) {parent except : Option String}
    {name : List Char} (hfree : siblingConflict T folders parent name except = false) :
    (parent = none → Folders.systemMailbox name = none) ∧
      ∀ f ∈ folders, some f.labelToken ≠ except → f.parentToken = parent →
        T.toLowercase f.name ≠ T.toLowercase name := by
  unfold siblingConflict at hfree
  split at hfree
  · cases hfree
  · rename_i htop
    refine ⟨?_, ?_⟩
    · intro hparent
      by_contra hsystem
      exact htop ⟨hparent, Option.isSome_iff_ne_none.mpr hsystem⟩
    · intro f hf hexcept hparent heq
      have hnot := List.any_eq_false.mp hfree f hf
      rw [h.effectiveParent_eq hf, (h.names f hf).trimmed] at hnot
      simp [hexcept, hparent, heq] at hnot

/-! ## One folder is stored -/

/-- The table with a folder in the place of the one of its token, if there was one. -/
structure Stored (new : CustomFolder) (folders folders' : List CustomFolder) : Prop where
  tokens : (folders'.map CustomFolder.labelToken).Nodup
  mem : ∀ f, f ∈ folders' ↔ f = new ∨ (f ∈ folders ∧ f.labelToken ≠ new.labelToken)

theorem stored_upsert (new : CustomFolder) (h : (folders.map CustomFolder.labelToken).Nodup) :
    Stored new folders (upsertCustomFolder new folders) := by
  unfold upsertCustomFolder
  split
  · rename_i hany
    obtain ⟨old, hold, htoken⟩ := List.any_eq_true.mp hany
    have htoken : old.labelToken = new.labelToken := by simpa using htoken
    refine ⟨?_, ?_⟩
    · have htokens : (folders.map fun f => if f.labelToken = new.labelToken then new else f).map
          CustomFolder.labelToken = folders.map CustomFolder.labelToken := by
        rw [List.map_map]
        apply List.map_congr_left
        intro f _
        by_cases hf : f.labelToken = new.labelToken
        · simp [hf]
        · simp [hf]
      rw [htokens]
      exact h
    · intro f
      rw [List.mem_map]
      constructor
      · rintro ⟨g, hg, rfl⟩
        split
        · exact Or.inl rfl
        · rename_i hne
          exact Or.inr ⟨hg, hne⟩
      · rintro (rfl | ⟨hf, hne⟩)
        · exact ⟨old, hold, if_pos htoken⟩
        · exact ⟨f, hf, if_neg hne⟩
  · rename_i hany
    have hnew : ∀ f ∈ folders, f.labelToken ≠ new.labelToken := by
      intro f hf heq
      exact hany (List.any_eq_true.mpr ⟨f, hf, by simpa using heq⟩)
    refine ⟨?_, ?_⟩
    · have hperm := (List.perm_orderedInsert
        (fun f g : CustomFolder => f.labelToken ≤ g.labelToken) new folders).map
        CustomFolder.labelToken
      rw [hperm.nodup_iff, List.map_cons, List.nodup_cons]
      refine ⟨?_, h⟩
      intro hmem
      obtain ⟨f, hf, heq⟩ := List.mem_map.mp hmem
      exact hnew f hf heq
    · intro f
      rw [List.mem_orderedInsert]
      constructor
      · rintro (rfl | hf)
        · exact Or.inl rfl
        · exact Or.inr ⟨hf, hnew f hf⟩
      · rintro (rfl | ⟨hf, -⟩)
        · exact Or.inl rfl
        · exact Or.inr hf

/-- **A folder that passes the checks keeps the table well formed.** -/
theorem WellFormed.store (h : WellFormed T folders) {new : CustomFolder}
    {folders' : List CustomFolder} (hstored : Stored new folders folders')
    (hname : NameGood new.name)
    (hparent : ∀ p, new.parentToken = some p → ∃ g ∈ folders, g.labelToken = p)
    (hbelow : ∀ p, new.parentToken = some p →
      ¬Relation.ReflTransGen (Inside folders) p new.labelToken)
    (hfree : ∀ f ∈ folders, f.labelToken ≠ new.labelToken → f.parentToken = new.parentToken →
      T.toLowercase f.name ≠ T.toLowercase new.name)
    (htop : new.parentToken = none → Folders.systemMailbox new.name = none) :
    WellFormed T folders' := by
  have hkept : ∀ g ∈ folders, ∃ g' ∈ folders', g'.labelToken = g.labelToken := by
    intro g hg
    by_cases heq : g.labelToken = new.labelToken
    · exact ⟨new, (hstored.mem new).mpr (Or.inl rfl), heq.symm⟩
    · exact ⟨g, (hstored.mem g).mpr (Or.inr ⟨hg, heq⟩), rfl⟩
  refine ⟨hstored.tokens, ?_, ?_, ?_, ?_, ?_⟩
  · intro f hf p hp
    have hold : ∃ g ∈ folders, g.labelToken = p := by
      obtain rfl | ⟨hf, -⟩ := (hstored.mem f).mp hf
      · exact hparent p hp
      · exact h.parents f hf p hp
    obtain ⟨g, hg, rfl⟩ := hold
    exact hkept g hg
  · refine (h.acyclic.rewire hbelow).mono ?_
    rintro a b ⟨f, hf, rfl, hp⟩
    obtain rfl | ⟨hf, hne⟩ := (hstored.mem f).mp hf
    · exact Or.inr ⟨rfl, hp⟩
    · exact Or.inl ⟨hne, f, hf, rfl, hp⟩
  · intro f hf
    obtain rfl | ⟨hf, -⟩ := (hstored.mem f).mp hf
    · exact hname
    · exact h.names f hf
  · intro f hf g hg hne hparents
    obtain rfl | ⟨hf, hfne⟩ := (hstored.mem f).mp hf
    · obtain rfl | ⟨hg, hgne⟩ := (hstored.mem g).mp hg
      · exact absurd rfl hne
      · exact (hfree g hg hgne hparents.symm).symm
    · obtain rfl | ⟨hg, hgne⟩ := (hstored.mem g).mp hg
      · exact hfree f hf hfne hparents
      · exact h.siblings f hf g hg hne hparents
  · intro f hf
    obtain rfl | ⟨hf, -⟩ := (hstored.mem f).mp hf
    · exact htop
    · exact h.top f hf

theorem parent_known {parent : Option String}
    (h : ¬(parent.any fun p => !folders.any fun f => f.labelToken = p) = true) :
    ∀ p, parent = some p → ∃ g ∈ folders, g.labelToken = p := by
  rintro p rfl
  simpa using h

/-! ## The operations -/

section Operations

variable {db : FolderDb} {parent : Option String} {answers : Answers}

/-- A folder that is created stands below nothing yet. -/
theorem wellFormed_create (h : WellFormed T db.folders) {name : List Char}
    (hfresh : ∀ f ∈ db.folders, f.labelToken ≠ answers.token) :
    WellFormed T (create T db name parent answers).2.folders ∧
      (∀ e, (create T db name parent answers).1 = .error e →
        (create T db name parent answers).2 = db) := by
  unfold create
  split
  · exact ⟨h, fun _ _ => rfl⟩
  rename_i cleaned hclean
  split
  · exact ⟨h, fun _ _ => rfl⟩
  rename_i hknown
  split
  · exact ⟨h, fun _ _ => rfl⟩
  rename_i hfree
  split
  · exact ⟨h, fun _ _ => rfl⟩
  split
  · exact ⟨h, fun _ _ => rfl⟩
  rename_i serverId _
  refine ⟨?_, nofun⟩
  have hparents := parent_known hknown
  obtain ⟨htop, hsiblings⟩ := h.no_conflict (by simpa using hfree)
  apply h.store (stored_upsert _ h.tokens)
  · exact nameGood_of_cleanName hclean
  · exact hparents
  · -- nothing stands in the new folder: its token is drawn
    intro p hp hreach
    obtain ⟨g, hg, rfl⟩ := hparents p hp
    obtain heq | ⟨c, -, hlast⟩ := Relation.ReflTransGen.cases_tail hreach
    · exact hfresh g hg heq.symm
    · obtain ⟨child, hchild, -, hup⟩ := hlast
      obtain ⟨above, habove, htoken⟩ := h.parents child hchild _ hup
      exact hfresh above habove htoken
  · intro f hf _ hsame
    exact hsiblings f hf nofun hsame
  · exact htop

/-- A folder that is renamed or moved. -/
theorem wellFormed_place (h : WellFormed T db.folders) {stored : CustomFolder}
    (hstored : stored ∈ db.folders) {name : List Char} (hname : NameGood name)
    (currentParent : Option String) :
    WellFormed T (place T db stored name currentParent parent answers).2.folders ∧
      (∀ e, (place T db stored name currentParent parent answers).1 = .error e →
        (place T db stored name currentParent parent answers).2 = db) := by
  unfold place
  split
  · exact ⟨h, fun _ _ => rfl⟩
  rename_i hknown
  split
  · exact ⟨h, fun _ _ => rfl⟩
  rename_i hcycle
  split
  · exact ⟨h, fun _ _ => rfl⟩
  split
  · exact ⟨h, fun _ _ => rfl⟩
  rename_i hfree
  split
  · exact ⟨h, fun _ _ => rfl⟩
  split
  · exact ⟨h, fun _ _ => rfl⟩
  refine ⟨?_, nofun⟩
  obtain ⟨htop, hsiblings⟩ := h.no_conflict (by simpa using hfree)
  apply h.store (stored_upsert _ h.tokens)
  · exact hname
  · exact parent_known hknown
  · intro p hp
    have hp : parent = some p := hp
    subst hp
    apply h.not_below
    simpa using hcycle
  · intro f hf hne hsame
    exact hsiblings f hf (fun heq => hne (Option.some.inj heq)) hsame
  · exact htop

theorem wellFormed_update (h : WellFormed T db.folders) (newName : Option (List Char))
    (newParent : Option (Option String)) :
    WellFormed T (update T db token newName newParent answers).2.folders ∧
      (∀ e, (update T db token newName newParent answers).1 = .error e →
        (update T db token newName newParent answers).2 = db) := by
  unfold update
  split
  · exact ⟨h, fun _ _ => rfl⟩
  rename_i stored hfind
  have hstored := List.mem_of_find?_eq_some hfind
  dsimp only
  split
  · exact ⟨h, fun _ _ => rfl⟩
  rename_i name hname
  apply wellFormed_place h hstored
  cases newName with
  | none =>
      cases hname
      exact h.names stored hstored
  | some n => exact nameGood_of_cleanName hname

/-- Nothing stands in a folder that passes the check of `delete`. -/
theorem WellFormed.childless (h : WellFormed T folders) (hnone : ¬hasChildren folders token = true) :
    ∀ f ∈ folders, f.parentToken ≠ some token := by
  intro f hf hp
  apply hnone
  refine List.any_eq_true.mpr ⟨f, hf, ?_⟩
  have hne : f.labelToken ≠ token := h.acyclic.ne ⟨f, hf, rfl, hp⟩
  rw [h.effectiveParent_eq hf, hp]
  simp [hne]

theorem wellFormed_deleteCustomFolder (h : WellFormed T folders)
    (hnone : ∀ f ∈ folders, f.parentToken ≠ some token) :
    WellFormed T (deleteCustomFolder token folders) := by
  have hkept : deleteCustomFolder token folders =
      folders.filter fun f => f.labelToken ≠ token := by
    unfold deleteCustomFolder
    conv_rhs => rw [← List.map_id (folders.filter fun f => f.labelToken ≠ token)]
    apply List.map_congr_left
    intro f hf
    exact if_neg (hnone f (List.mem_filter.mp hf).1)
  have hmem : ∀ f, f ∈ deleteCustomFolder token folders ↔
      f ∈ folders ∧ f.labelToken ≠ token := by
    intro f
    rw [hkept]
    simp
  refine ⟨?_, ?_, ?_, ?_, ?_, ?_⟩
  · rw [hkept]
    exact h.tokens.sublist (List.filter_sublist.map _)
  · intro f hf p hp
    obtain ⟨hf, -⟩ := (hmem f).mp hf
    obtain ⟨g, hg, rfl⟩ := h.parents f hf p hp
    refine ⟨g, (hmem g).mpr ⟨hg, ?_⟩, rfl⟩
    intro heq
    exact hnone f hf (heq ▸ hp)
  · apply h.acyclic.mono
    rintro a b ⟨f, hf, hrest⟩
    exact ⟨f, ((hmem f).mp hf).1, hrest⟩
  · intro f hf
    exact h.names f ((hmem f).mp hf).1
  · intro f hf g hg
    exact h.siblings f ((hmem f).mp hf).1 g ((hmem g).mp hg).1
  · intro f hf
    exact h.top f ((hmem f).mp hf).1

theorem wellFormed_delete (h : WellFormed T db.folders) :
    WellFormed T (delete T db token answers).2.folders ∧
      (∀ e, (delete T db token answers).1 = .error e → (delete T db token answers).2 = db) := by
  unfold delete
  split
  · exact ⟨h, fun _ _ => rfl⟩
  split
  · exact ⟨h, fun _ _ => rfl⟩
  rename_i hnone
  split
  · exact ⟨h, fun _ _ => rfl⟩
  exact ⟨wellFormed_deleteCustomFolder h (h.childless hnone), nofun⟩

/-- A folder in which another one stands is not deleted. -/
theorem WellFormed.delete_keeps (h : WellFormed T db.folders) (hf : f ∈ db.folders)
    {child : CustomFolder} (hchild : child ∈ db.folders)
    (hparent : child.parentToken = some f.labelToken) :
    f ∈ (delete T db token answers).2.folders := by
  unfold delete
  split
  · exact hf
  split
  · exact hf
  rename_i hnone
  split
  · exact hf
  have hempty := h.childless hnone
  have hne : f.labelToken ≠ token := by
    intro heq
    exact hempty child hchild (heq ▸ hparent)
  dsimp only
  unfold deleteCustomFolder
  refine List.mem_map.mpr ⟨f, ?_, if_neg (hempty f hf)⟩
  exact List.mem_filter.mpr ⟨hf, by simpa using hne⟩

theorem messageCache_assignEach (cache : Cache) (folder : String) (ids : List String) :
    (cache.assignEach folder ids).messageCache = cache.messageCache := by
  unfold Cache.assignEach
  induction ids generalizing cache with
  | nil => rfl
  | cons id ids ih =>
      rw [List.foldl_cons, ih]
      unfold Cache.assignUidIfMissing
      split
      · rfl
      · rfl

theorem inbox_ne_folderLabel (token : String) : "inbox" ≠ folderLabel token := by
  intro h
  have hlist := congrArg String.toList h
  unfold folderLabel at hlist
  rw [String.toList_append] at hlist
  have hhead := congrArg List.head? hlist
  exact absurd hhead (by simp)

/-- The messages of a folder that is deleted are in the inbox. -/
theorem delete_relocates {moved : List String}
    (hok : (delete T db token answers).1 = .ok moved) :
    ∀ e ∈ (delete T db token answers).2.cache.messageCache.rows,
      e.2.folder ≠ folderLabel token := by
  unfold delete at hok ⊢
  split at hok
  · cases hok
  split at hok
  · cases hok
  rename_i hnone
  rw [if_neg hnone]
  split at hok
  · cases hok
  dsimp only [Cache.relocateFolderMessages]
  rw [messageCache_assignEach]
  intro e he
  obtain ⟨old, -, rfl⟩ := List.mem_map.mp he
  split
  · exact inbox_ne_folderLabel token
  · rename_i hother
    simpa using hother

end Operations

/-! ## Runs -/

/-- **The step lemma.** -/
theorem WellFormed.run {db : FolderDb} (h : WellFormed T db.folders) {call : Call}
    (hfresh : FreshToken db call) : WellFormed T (call.run T db).2.folders ∧
      (∀ e, (call.run T db).1 = some e → (call.run T db).2 = db) := by
  cases call with
  | create name parent answers =>
      obtain ⟨hkept, hfailed⟩ := @wellFormed_create T db parent answers h name hfresh
      refine ⟨hkept, ?_⟩
      intro e he
      cases hresult : (create T db name parent answers).1 with
      | error e' => exact hfailed e' hresult
      | ok t => simp [Call.run, hresult] at he
  | update token newName newParent answers =>
      obtain ⟨hkept, hfailed⟩ := @wellFormed_update T token db answers h newName newParent
      refine ⟨hkept, ?_⟩
      intro e he
      cases hresult : (update T db token newName newParent answers).1 with
      | error e' => exact hfailed e' hresult
      | ok t => simp [Call.run, hresult] at he
  | delete token answers =>
      obtain ⟨hkept, hfailed⟩ := @wellFormed_delete T token db answers h
      refine ⟨hkept, ?_⟩
      intro e he
      cases hresult : (delete T db token answers).1 with
      | error e' => exact hfailed e' hresult
      | ok t => simp [Call.run, hresult] at he

/-- **The run lemma.** -/
theorem WellFormed.exec {db : FolderDb} (h : WellFormed T db.folders) {calls : List Call}
    (hfresh : Runs.Guarded (step T) FreshToken db calls) :
    WellFormed T (Runs.exec (step T) db calls).folders := by
  induction calls generalizing db with
  | nil => exact h
  | cons call calls ih =>
      obtain ⟨hfirst, hrest⟩ := hfresh
      exact ih (h.run hfirst).1 hrest

/-- **Folder operations keep the tree well formed.** In every state that calls reach: the table is
well formed; a call that returns an error changes nothing; `delete` keeps a folder in which another
one stands; and where `delete` succeeds, no message is left in the folder. -/
theorem folder_operations_keep_the_tree (T : CaseTables) (start : FolderDb)
    (hstart : WellFormed T start.folders) (calls : List Call)
    (hfresh : Runs.Guarded (step T) FreshToken start calls) :
    let db := Runs.exec (step T) start calls
    WellFormed T db.folders ∧
      (∀ call, FreshToken db call → ∀ e, (call.run T db).1 = some e → (call.run T db).2 = db) ∧
      (∀ token answers, ∀ f ∈ db.folders,
        (∃ child ∈ db.folders, child.parentToken = some f.labelToken) →
          f ∈ (delete T db token answers).2.folders) ∧
      ∀ token answers moved, (delete T db token answers).1 = .ok moved →
        ∀ e ∈ (delete T db token answers).2.cache.messageCache.rows,
          e.2.folder ≠ folderLabel token := by
  intro db
  have hdb : WellFormed T db.folders := hstart.exec hfresh
  refine ⟨hdb, ?_, ?_, ?_⟩
  · intro call hcall
    exact (hdb.run hcall).2
  · rintro token answers f hf ⟨child, hchild, hparent⟩
    exact hdb.delete_keeps hf hchild hparent
  · intro token answers moved hok
    exact delete_relocates hok

/-- Two calls: a folder, and another one in it. -/
def twoFolders : List Call :=
  [.create "Work".toList none ⟨"t1", .ok (), .ok "s1"⟩,
    .create " Reports".toList (some "t1") ⟨"t2", .ok (), .ok "s2"⟩]

/-- From an empty table; the outer folder is not deleted. -/
theorem folder_operations_keep_two_folders :
    let db := Runs.exec (step CaseTables.ascii) ⟨[], Cache.empty⟩ twoFolders
    db.folders.map (fun f => f.labelToken) = ["t1", "t2"] ∧
      WellFormed CaseTables.ascii db.folders ∧
      ∀ answers, ∀ f ∈ db.folders, f.labelToken = "t1" →
        f ∈ (delete CaseTables.ascii db "t1" answers).2.folders := by
  intro db
  have hfolders : db.folders =
      [⟨"t1", "s1", "Work".toList, none, 0, none⟩,
        ⟨"t2", "s2", "Reports".toList, some "t1", 0, none⟩] := by
    decide +kernel
  have hempty : WellFormed CaseTables.ascii [] := by
    refine ⟨List.nodup_nil, nofun, ?_, nofun, nofun, nofun⟩
    intro a ha
    obtain ⟨b, ⟨f, hf, -⟩, -⟩ := Relation.TransGen.head'_iff.mp ha
    cases hf
  have hfresh : Runs.Guarded (step CaseTables.ascii) FreshToken ⟨[], Cache.empty⟩ twoFolders := by
    have hfirst : (step CaseTables.ascii ⟨[], Cache.empty⟩ (twoFolders.head (by decide))).folders =
        [⟨"t1", "s1", "Work".toList, none, 0, none⟩] := by
      decide +kernel
    refine ⟨nofun, ?_, trivial⟩
    intro f hf
    have hf' := hfirst ▸ hf
    rw [List.mem_singleton.mp hf']
    decide
  obtain ⟨hwell, -, hkept, -⟩ :=
    folder_operations_keep_the_tree CaseTables.ascii ⟨[], Cache.empty⟩ hempty twoFolders hfresh
  refine ⟨?_, hwell, ?_⟩
  · rw [hfolders]
    rfl
  · intro answers f hf htoken
    refine hkept "t1" answers f hf ⟨⟨"t2", "s2", "Reports".toList, some "t1", 0, none⟩, ?_, ?_⟩
    · change _ ∈ db.folders
      rw [hfolders]
      simp
    · rw [htoken]

end AsterBridge.Folders.FolderOps
