import AsterBridge.Lib.Unicode
import Mathlib.Data.List.Sort

/-!
# The folder tree

`build_tree` of `folders.rs`: folders name their parents by token, and the tree gives each a
path. A parent that is missing, or that lies on a cycle with the folder, counts as none, and
siblings get names that differ in lower case. Tokens are strings, names and paths are lists
of characters.

The number behind a repeated name is not cut off at 32 bits.
-/

set_option autoImplicit false

namespace AsterBridge.Folders

open AsterBridge.Lib.Text AsterBridge.Lib.Unicode

/-- `CustomFolder` -/
structure CustomFolder where
  labelToken : String
  serverId : String
  name : List Char
  parentToken : Option String
  sortOrder : Int
  createdAt : Option String
deriving DecidableEq

/-- `SystemMailbox` -/
structure SystemMailbox where
  name : List Char
  label : String
  specialUse : String
deriving DecidableEq

/-- `SYSTEM_MAILBOXES` -/
def systemMailboxes : List SystemMailbox :=
  [⟨"INBOX".toList, "inbox", ""⟩, ⟨"Sent".toList, "sent", "\\Sent"⟩,
    ⟨"Drafts".toList, "drafts", "\\Drafts"⟩, ⟨"Trash".toList, "trash", "\\Trash"⟩,
    ⟨"Junk".toList, "spam", "\\Junk"⟩, ⟨"Archive".toList, "archive", "\\Archive"⟩]

/-- `SEPARATOR` -/
def separator : Char := '/'

/-- `SLASH_SUBSTITUTE` -/
def slashSubstitute : Char := '\u2215'

/-- `UNNAMED_FOLDER` -/
def unnamedFolder : List Char := "Untitled".toList

/-- `display_segment` -/
def displaySegment (name : List Char) : List Char :=
  let cleaned := (name.filter fun c => !isControl c).map fun c =>
    if c = separator then slashSubstitute else c
  if trim cleaned = [] then unnamedFolder else trim cleaned

/-- `FolderNode` -/
structure FolderNode where
  token : String
  serverId : String
  name : List Char
  parentToken : Option String
  path : List Char
  hasChildren : Bool
  position : Nat
deriving DecidableEq

/-- `sibling_order` -/
def siblingOrder (a b : CustomFolder) : Ordering :=
  (compare a.sortOrder b.sortOrder).then
    ((match a.createdAt, b.createdAt with
      | some x, some y => compare x y
      | some _, none => .lt
      | none, some _ => .gt
      | none, none => .eq).then (compare a.labelToken b.labelToken))

/-! ## Parents -/

/-- The map `by_token`: of two folders with one token the later one stays. -/
def byToken (folders : List CustomFolder) (token : String) : Option CustomFolder :=
  folders.reverse.find? fun f => f.labelToken = token

/-- The closure `declared`. -/
def declared (folders : List CustomFolder) (f : CustomFolder) : Option String :=
  f.parentToken.filter fun p =>
    p ≠ "" && p ≠ f.labelToken && (byToken folders p).isSome

/-- The climb from `cursor`, with `steps` of its steps left, meets `token`. -/
def cyclic (folders : List CustomFolder) (token : String) : Nat → Option String → Bool
  | _, none => false
  | 0, some p => p = token
  | steps + 1, some p =>
      if p = token then true
      else cyclic folders token steps ((byToken folders p).bind (declared folders))

/-- The parent that `effective_parents` gives to a folder. -/
def effectiveParent (folders : List CustomFolder) (f : CustomFolder) : Option String :=
  let parent := declared folders f
  if cyclic folders f.labelToken folders.length parent then none else parent

/-! ## Names -/

/-- The candidate with number `n`. -/
def numbered (base : List Char) (n : Nat) : List Char :=
  base ++ ' ' :: '(' :: (Nat.toDigits 10 n ++ [')'])

/-- The loop of `unique_segment`, with its next number. -/
def uniqueFrom (T : CaseTables) (base : List Char) (used : List (List Char)) :
    Nat → Nat → List Char → List Char
  | 0, _, candidate => candidate
  | fuel + 1, n, candidate =>
      if used.contains (T.toLowercase candidate) then
        uniqueFrom T base used fuel (n + 1) (numbered base n)
      else candidate

/-- `unique_segment`; one more candidate than names in use is enough. -/
def uniqueSegment (T : CaseTables) (base : List Char) (used : List (List Char)) : List Char :=
  uniqueFrom T base used (used.length + 1) 2 base

/-- The path of a segment below a parent. -/
def joinPath (parentPath : Option (List Char)) (segment : List Char) : List Char :=
  match parentPath with
  | some path => path ++ separator :: segment
  | none => segment

/-- The loop of `push_children` over siblings. -/
def nameSiblings (T : CaseTables) (parentPath : Option (List Char)) :
    List (List Char) → List CustomFolder → List (CustomFolder × List Char)
  | _, [] => []
  | used, f :: fs =>
      let segment := uniqueSegment T (displaySegment f.name) used
      (f, joinPath parentPath segment) ::
        nameSiblings T parentPath (T.toLowercase segment :: used) fs

/-- The names in use before the first sibling. -/
def reservedNames (T : CaseTables) (parent : Option String) : List (List Char) :=
  if parent = none then systemMailboxes.map fun m => T.toLowercase m.name else []

/-! ## The tree -/

/-- The folders with a token, without later folders of a token that was `seen`. -/
def uniqueFolders (seen : List String) : List CustomFolder → List CustomFolder
  | [] => []
  | f :: fs =>
      if f.labelToken ≠ "" ∧ f.labelToken ∉ seen then
        f :: uniqueFolders (f.labelToken :: seen) fs
      else uniqueFolders seen fs

/-- The sorted children of a parent. -/
def childrenOf (folders : List CustomFolder) (parent : Option String) : List CustomFolder :=
  (folders.filter fun f => effectiveParent folders f = parent).insertionSort
    fun a b => (siblingOrder a b).isLE

/-- `push_children`: what it puts on top of the stack. -/
def pushChildren (T : CaseTables) (folders : List CustomFolder) (parent : Option String)
    (parentPath : Option (List Char)) : List (CustomFolder × List Char) :=
  nameSiblings T parentPath (reservedNames T parent) (childrenOf folders parent)

/-- The node of a folder that is taken from the stack. -/
def nodeOf (folders : List CustomFolder) (f : CustomFolder) (path : List Char) (position : Nat) :
    FolderNode where
  token := f.labelToken
  serverId := f.serverId
  name := f.name
  parentToken := effectiveParent folders f
  path := path
  hasChildren := !(childrenOf folders (some f.labelToken)).isEmpty
  position := position

/-- The stack, top first, and the nodes. -/
structure Walk where
  stack : List (CustomFolder × List Char)
  out : List FolderNode

/-- The loop of `build_tree`, at most `fuel` times. -/
def popAll (T : CaseTables) (folders : List CustomFolder) : Nat → Walk → Walk
  | 0, w => w
  | fuel + 1, w =>
      match w.stack with
      | [] => w
      | (f, path) :: stack =>
          popAll T folders fuel
            ⟨pushChildren T folders (some f.labelToken) (some path) ++ stack,
              w.out ++ [nodeOf folders f path w.out.length]⟩

/-- The walk of `build_tree` to its end. -/
def fullWalk (T : CaseTables) (folders : List CustomFolder) : Walk :=
  let unique := uniqueFolders [] folders
  popAll T unique unique.length ⟨pushChildren T unique none none, []⟩

/-- `build_tree` -/
def buildTree (T : CaseTables) (folders : List CustomFolder) : List FolderNode :=
  (fullWalk T folders).out

/-! ## Tokens -/

theorem mem_uniqueFolders {seen : List String} {folders : List CustomFolder} {f : CustomFolder}
    (h : f ∈ uniqueFolders seen folders) : f ∈ folders ∧ f.labelToken ∉ seen := by
  induction folders generalizing seen with
  | nil => exact absurd h List.not_mem_nil
  | cons g fs ih =>
      rw [uniqueFolders] at h
      split at h
      · rename_i hg
        rcases List.mem_cons.1 h with rfl | hmem
        · exact ⟨List.mem_cons_self, hg.2⟩
        · obtain ⟨hfs, hseen⟩ := ih hmem
          exact ⟨List.mem_cons_of_mem _ hfs, fun hs => hseen (List.mem_cons_of_mem _ hs)⟩
      · obtain ⟨hfs, hseen⟩ := ih h
        exact ⟨List.mem_cons_of_mem _ hfs, hseen⟩

theorem nodup_uniqueFolders (seen : List String) (folders : List CustomFolder) :
    ((uniqueFolders seen folders).map CustomFolder.labelToken).Nodup := by
  induction folders generalizing seen with
  | nil => exact List.nodup_nil
  | cons f fs ih =>
      rw [uniqueFolders]
      split
      · rw [List.map_cons, List.nodup_cons]
        refine ⟨fun hmem => ?_, ih _⟩
        obtain ⟨g, hg, htoken⟩ := List.mem_map.1 hmem
        exact (mem_uniqueFolders hg).2 (htoken ▸ List.mem_cons_self)
      · exact ih seen

theorem mem_childrenOf {folders : List CustomFolder} {parent : Option String} {f : CustomFolder} :
    f ∈ childrenOf folders parent ↔ f ∈ folders ∧ effectiveParent folders f = parent := by
  rw [childrenOf, List.mem_insertionSort, List.mem_filter, decide_eq_true_eq]

theorem nodup_childrenOf {folders : List CustomFolder}
    (h : (folders.map CustomFolder.labelToken).Nodup) (parent : Option String) :
    ((childrenOf folders parent).map CustomFolder.labelToken).Nodup := by
  have hperm := (List.perm_insertionSort (fun a b => (siblingOrder a b).isLE)
    (folders.filter fun f => effectiveParent folders f = parent)).map CustomFolder.labelToken
  exact hperm.nodup_iff.2 (h.sublist (List.filter_sublist.map _))

theorem map_fst_nameSiblings (T : CaseTables) (parentPath : Option (List Char))
    (used : List (List Char)) (fs : List CustomFolder) :
    (nameSiblings T parentPath used fs).map Prod.fst = fs := by
  induction fs generalizing used with
  | nil => rfl
  | cons f fs ih => rw [nameSiblings, List.map_cons, ih]

theorem map_fst_pushChildren (T : CaseTables) (folders : List CustomFolder)
    (parent : Option String) (parentPath : Option (List Char)) :
    (pushChildren T folders parent parentPath).map Prod.fst = childrenOf folders parent :=
  map_fst_nameSiblings _ _ _ _

/-- The tokens of the nodes and of the stack. -/
def Walk.tokens (w : Walk) : List String :=
  w.out.map FolderNode.token ++ w.stack.map fun e => e.1.labelToken

/-- Every folder is taken at most once: it is pushed when its parent is taken. -/
structure TokensGood (folders : List CustomFolder) (w : Walk) : Prop where
  nodup : w.tokens.Nodup
  known : ∀ token ∈ w.tokens, ∃ f ∈ folders, f.labelToken = token ∧
    ∀ p, effectiveParent folders f = some p → p ∈ w.out.map FolderNode.token

/-- A rule for the loop: what holds at its start and is kept by each pop holds at its end. -/
theorem popAll_induction {T : CaseTables} {folders : List CustomFolder} {I : Walk → Prop}
    (hpop : ∀ f path stack out, I ⟨(f, path) :: stack, out⟩ →
      I ⟨pushChildren T folders (some f.labelToken) (some path) ++ stack,
        out ++ [nodeOf folders f path out.length]⟩)
    {w : Walk} (h : I w) (fuel : Nat) : I (popAll T folders fuel w) := by
  induction fuel generalizing w with
  | zero => exact h
  | succ fuel ih =>
      obtain ⟨stack, out⟩ := w
      cases stack with
      | nil => exact h
      | cons e stack => exact ih (hpop e.1 e.2 stack out h)

theorem tokensGood_start (T : CaseTables) {folders : List CustomFolder}
    (h : (folders.map CustomFolder.labelToken).Nodup) :
    TokensGood folders ⟨pushChildren T folders none none, []⟩ := by
  have htokens : Walk.tokens ⟨pushChildren T folders none none, []⟩ =
      (childrenOf folders none).map CustomFolder.labelToken := by
    rw [Walk.tokens, ← map_fst_pushChildren T folders none none, List.map_map]
    rfl
  refine ⟨htokens ▸ nodup_childrenOf h none, ?_⟩
  intro token htoken
  rw [htokens] at htoken
  obtain ⟨f, hf, rfl⟩ := List.mem_map.1 htoken
  obtain ⟨hmem, hparent⟩ := mem_childrenOf.1 hf
  refine ⟨f, hmem, rfl, fun p hp => ?_⟩
  rw [hparent] at hp
  exact absurd hp (by simp)

theorem TokensGood.pop {T : CaseTables} {folders : List CustomFolder}
    (hunique : (folders.map CustomFolder.labelToken).Nodup) {f : CustomFolder} {path : List Char}
    {stack : List (CustomFolder × List Char)} {out : List FolderNode}
    (h : TokensGood folders ⟨(f, path) :: stack, out⟩) :
    TokensGood folders
      ⟨pushChildren T folders (some f.labelToken) (some path) ++ stack,
        out ++ [nodeOf folders f path out.length]⟩ := by
  -- the tokens before the pop, and the new ones between them
  have hbefore : Walk.tokens ⟨(f, path) :: stack, out⟩ =
      out.map FolderNode.token ++ f.labelToken :: stack.map fun e => e.1.labelToken := rfl
  have hafter : Walk.tokens ⟨pushChildren T folders (some f.labelToken) (some path) ++ stack,
        out ++ [nodeOf folders f path out.length]⟩ =
      out.map FolderNode.token ++ f.labelToken ::
        ((childrenOf folders (some f.labelToken)).map CustomFolder.labelToken ++
          stack.map fun e => e.1.labelToken) := by
    rw [Walk.tokens, ← map_fst_pushChildren T folders (some f.labelToken) (some path)]
    simp [nodeOf, Function.comp_def]
  have hnodup := h.nodup
  rw [hbefore] at hnodup
  have hnew : f.labelToken ∉ out.map FolderNode.token := fun hmem =>
    (List.nodup_append.1 hnodup).2.2 _ hmem _ List.mem_cons_self rfl
  -- a child that was there already would have its parent among the nodes
  have hchild : ∀ c ∈ childrenOf folders (some f.labelToken),
      c.labelToken ∉ out.map FolderNode.token ++ f.labelToken ::
        stack.map fun e => e.1.labelToken := by
    intro c hc hmem
    obtain ⟨hcmem, hparent⟩ := mem_childrenOf.1 hc
    obtain ⟨g, hg, htoken, hknown⟩ := h.known c.labelToken (by rwa [hbefore])
    obtain rfl := List.inj_on_of_nodup_map hunique hg hcmem htoken
    exact hnew (hknown _ hparent)
  constructor
  · rw [hafter]
    have hperm := List.perm_append_comm_assoc (out.map FolderNode.token ++ [f.labelToken])
      ((childrenOf folders (some f.labelToken)).map CustomFolder.labelToken)
      (stack.map fun e => e.1.labelToken)
    simp only [List.append_assoc, List.singleton_append] at hperm
    refine hperm.nodup_iff.2 (List.nodup_append.2
      ⟨nodup_childrenOf hunique _, hnodup, fun a ha b hb hab => ?_⟩)
    obtain ⟨c, hc, rfl⟩ := List.mem_map.1 ha
    exact hchild c hc (hab ▸ hb)
  · intro token htoken
    rw [hafter] at htoken
    simp only [List.map_append, List.map_cons, List.map_nil, List.mem_append, List.mem_singleton]
    by_cases hold : token ∈ Walk.tokens ⟨(f, path) :: stack, out⟩
    · obtain ⟨g, hg, hgtoken, hknown⟩ := h.known token hold
      exact ⟨g, hg, hgtoken, fun p hp => Or.inl (hknown p hp)⟩
    · rw [hbefore] at hold
      simp only [List.mem_append, List.mem_cons, not_or] at hold htoken
      obtain ⟨c, hc, rfl⟩ := List.mem_map.1 (by tauto :
        token ∈ (childrenOf folders (some f.labelToken)).map CustomFolder.labelToken)
      obtain ⟨hcmem, hparent⟩ := mem_childrenOf.1 hc
      refine ⟨c, hcmem, rfl, fun p hp => Or.inr ?_⟩
      rw [hparent] at hp
      exact (Option.some.inj hp).symm

/-- The loop stops early only at an empty stack. -/
theorem popAll_length (T : CaseTables) (folders : List CustomFolder) (fuel : Nat) (w : Walk) :
    (popAll T folders fuel w).stack = [] ∨
      (popAll T folders fuel w).out.length = w.out.length + fuel := by
  induction fuel generalizing w with
  | zero => exact Or.inr rfl
  | succ fuel ih =>
      obtain ⟨stack, out⟩ := w
      cases stack with
      | nil => exact Or.inl rfl
      | cons e stack =>
          refine (ih _).imp_right fun hlen => ?_
          rw [popAll, hlen]
          simp only [List.length_append, List.length_singleton]
          omega

/-- **The loop ends.** The stack is empty after as many pops as there are folders. -/
theorem fullWalk_stack (T : CaseTables) (folders : List CustomFolder) :
    (fullWalk T folders).stack = [] := by
  have hunique := nodup_uniqueFolders [] folders
  have hgood : TokensGood (uniqueFolders [] folders) (fullWalk T folders) :=
    popAll_induction (fun _ _ _ _ h => h.pop hunique) (tokensGood_start T hunique) _
  -- the tokens of the walk are among those of the folders
  have hlength : (fullWalk T folders).tokens.length ≤ (uniqueFolders [] folders).length := by
    rw [← List.length_map CustomFolder.labelToken]
    refine List.Subperm.length_le (hgood.nodup.subperm fun token htoken => ?_)
    obtain ⟨f, hf, rfl, -⟩ := hgood.known token htoken
    exact List.mem_map_of_mem hf
  rcases popAll_length T (uniqueFolders [] folders) (uniqueFolders [] folders).length
    ⟨pushChildren T (uniqueFolders [] folders) none none, []⟩ with hdone | hlen
  · exact hdone
  · have hout : (fullWalk T folders).out.length = (uniqueFolders [] folders).length :=
      hlen.trans (Nat.zero_add _)
    rw [Walk.tokens, List.length_append, List.length_map, List.length_map, hout] at hlength
    exact List.length_eq_zero_iff.1 (by omega)

end AsterBridge.Folders
