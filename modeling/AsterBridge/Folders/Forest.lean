import AsterBridge.Folders.Directory

/-!
# The folder tree is a forest

`build_tree` repairs the parents first: a folder on a cycle of parents becomes a root, one that
merely leads into a cycle keeps its parent. `tree_loses_nothing` says that every token comes out
once, below a node that stands before it.
-/

set_option autoImplicit false

namespace AsterBridge.Folders

open AsterBridge.Lib AsterBridge.Lib.Unicode

/-! ## Climbing -/

section Climb

variable {folders : List CustomFolder} {f : CustomFolder} {token p : String}

/-- The parent that is declared for a token. -/
def up (folders : List CustomFolder) (token : String) : Option String :=
  (byToken folders token).bind (declared folders)

/-- The token that is met after `k` steps from `cursor`. -/
def climb (folders : List CustomFolder) : Nat → Option String → Option String
  | 0, cursor => cursor
  | k + 1, cursor => climb folders k (cursor.bind (up folders))

/-- The bounded walk finds a token that is met within its steps. -/
theorem cyclic_of_climb {k steps : Nat} {cursor : Option String} (hle : k ≤ steps)
    (h : climb folders k cursor = some token) : cyclic folders token steps cursor = true := by
  induction k generalizing steps cursor with
  | zero =>
      obtain rfl : cursor = some token := h
      cases steps with
      | zero => exact decide_eq_true rfl
      | succ steps => exact if_pos rfl
  | succ k ih =>
      cases cursor with
      | none =>
          have hnone : ∀ k, climb folders k none = none := by
            intro k
            induction k with
            | zero => rfl
            | succ k ihk => exact ihk
          rw [hnone] at h
          exact absurd h (by simp)
      | some p =>
          obtain ⟨steps, rfl⟩ := Nat.exists_eq_succ_of_ne_zero (by omega : steps ≠ 0)
          rw [cyclic]
          split
          · rfl
          · exact ih (by omega) h

theorem byToken_of_mem (hunique : (folders.map CustomFolder.labelToken).Nodup) (h : f ∈ folders) :
    byToken folders f.labelToken = some f := by
  cases hfind : byToken folders f.labelToken with
  | none =>
      rw [byToken, List.find?_eq_none] at hfind
      exact absurd (decide_eq_true rfl) (hfind f (List.mem_reverse.2 h))
  | some g =>
      rw [byToken] at hfind
      have htoken : g.labelToken = f.labelToken := by simpa using List.find?_some hfind
      have hmem := List.mem_reverse.1 (List.mem_of_find?_eq_some hfind)
      rw [List.inj_on_of_nodup_map hunique hmem h htoken]

/-- A declared parent is another folder of the list. -/
theorem declared_known (h : declared folders f = some p) :
    p ≠ f.labelToken ∧ ∃ g ∈ folders, g.labelToken = p := by
  obtain ⟨-, hp⟩ := Option.filter_eq_some_iff.1 h
  simp only [Bool.and_eq_true, decide_eq_true_eq] at hp
  obtain ⟨⟨-, hself⟩, hknown⟩ := hp
  obtain ⟨g, hg⟩ := Option.isSome_iff_exists.1 hknown
  rw [byToken] at hg
  have htoken : g.labelToken = p := by simpa using List.find?_some hg
  exact ⟨hself, g, List.mem_reverse.1 (List.mem_of_find?_eq_some hg), htoken⟩

theorem effectiveParent_eq_some (h : effectiveParent folders f = some p) :
    declared folders f = some p ∧
      cyclic folders f.labelToken folders.length (declared folders f) = false := by
  unfold effectiveParent at h
  dsimp only at h
  split at h
  · exact absurd h (by simp)
  · rename_i hcyclic
    exact ⟨h, by simpa using hcyclic⟩

/-- **No infinite climb.** Tokens that go on to each other through the repaired parents, without
end, would close a cycle, and the folders on a cycle are roots. -/
theorem climb_ends (hunique : (folders.map CustomFolder.labelToken).Nodup) (g : Nat → CustomFolder)
    (hmem : ∀ i, g i ∈ folders)
    (hup : ∀ i, effectiveParent folders (g i) = some (g (i + 1)).labelToken) : False := by
  have hnext : ∀ i, up folders (g i).labelToken = some (g (i + 1)).labelToken := by
    intro i
    rw [up, byToken_of_mem hunique (hmem i)]
    exact (effectiveParent_eq_some (hup i)).1
  have hclimb : ∀ k i, climb folders k (some (g i).labelToken) = some (g (i + k)).labelToken := by
    intro k
    induction k with
    | zero => exact fun i => rfl
    | succ k ih =>
        intro i
        rw [climb, Option.bind_some, hnext, ih]
        congr 3
        omega
  -- two of the first tokens are equal
  have hrepeat : ∃ i j, i < j ∧ j ≤ folders.length ∧ (g i).labelToken = (g j).labelToken := by
    by_contra hnone
    have hnodup : ((List.range (folders.length + 1)).map fun i => (g i).labelToken).Nodup := by
      refine List.Nodup.map_on (fun i hi j hj heq => ?_) List.nodup_range
      rw [List.mem_range] at hi hj
      rcases Nat.lt_trichotomy i j with hlt | hij | hlt
      · exact absurd ⟨i, j, hlt, by omega, heq⟩ hnone
      · exact hij
      · exact absurd ⟨j, i, hlt, by omega, heq.symm⟩ hnone
    have hsub : ((List.range (folders.length + 1)).map fun i => (g i).labelToken) ⊆
        folders.map CustomFolder.labelToken := by
      intro t ht
      obtain ⟨i, -, rfl⟩ := List.mem_map.1 ht
      exact List.mem_map_of_mem (hmem i)
    have hlen := (hnodup.subperm hsub).length_le
    rw [List.length_map, List.length_map, List.length_range] at hlen
    omega
  obtain ⟨i, j, hlt, hle, heq⟩ := hrepeat
  obtain ⟨hdeclared, hcyclic⟩ := effectiveParent_eq_some (hup i)
  have hback : climb folders (j - (i + 1)) (declared folders (g i)) = some (g i).labelToken := by
    rw [hdeclared, hclimb, heq]
    congr 3
    omega
  rw [cyclic_of_climb (by omega) hback] at hcyclic
  exact absurd hcyclic (by decide)

end Climb

/-! ## The walk -/

section Walk

variable {T : CaseTables} {folders : List CustomFolder}

/-- The place of a folder with its path: a root with a segment, or below a node with a segment
more. -/
def Below (out : List FolderNode) (parent : Option String) (path : List Char) : Prop :=
  parent = none ∧ path ≠ [] ∧ separator ∉ path ∨
    ∃ (j : Nat) (node : FolderNode) (s : List Char), out[j]? = some node ∧
      parent = some node.token ∧ s ≠ [] ∧ separator ∉ s ∧ path = node.path ++ separator :: s

/-- What the loop of `build_tree` keeps: each node and each entry of the stack is a folder in its
place, and the roots and the children of each node are there. -/
structure Placed (T : CaseTables) (folders : List CustomFolder) (w : Walk) : Prop where
  nodes : ∀ (i : Nat) node, w.out[i]? = some node →
    (∃ f ∈ folders, ∃ position, node = nodeOf folders f node.path position) ∧
      Below (w.out.take i) node.parentToken node.path
  stack : ∀ e ∈ w.stack, e.1 ∈ folders ∧
    Below w.out (effectiveParent folders e.1) e.2
  roots : ∀ f ∈ folders, effectiveParent folders f = none → f.labelToken ∈ w.tokens
  children : ∀ node ∈ w.out, ∀ f ∈ folders, effectiveParent folders f = some node.token →
    f.labelToken ∈ w.tokens

theorem Below.mono {out out' : List FolderNode} {parent : Option String} {path : List Char}
    (h : Below out parent path) (hsub : out <+: out') : Below out' parent path := by
  rcases h with hroot | ⟨j, node, s, hj, hrest⟩
  · exact Or.inl hroot
  · obtain ⟨rest, rfl⟩ := hsub
    obtain ⟨hlt, -⟩ := List.getElem?_eq_some_iff.1 hj
    exact Or.inr ⟨j, node, s, by rw [List.getElem?_append_left hlt]; exact hj, hrest⟩

/-- What `push_children` puts on the stack is in its place. -/
theorem mem_pushChildren {parent : Option String} {parentPath : Option (List Char)}
    {e : CustomFolder × List Char} (h : e ∈ pushChildren T folders parent parentPath) :
    e.1 ∈ folders ∧ effectiveParent folders e.1 = parent ∧
      ∃ s, s ≠ [] ∧ separator ∉ s ∧ e.2 = joinPath parentPath s := by
  have hchild : e.1 ∈ childrenOf folders parent := by
    rw [← map_fst_pushChildren T folders parent parentPath]
    exact List.mem_map_of_mem h
  obtain ⟨hmem, hparent⟩ := mem_childrenOf.1 hchild
  obtain ⟨segments, hpaths, -, hall⟩ := nameSiblings_segments T parentPath
    (reservedNames T parent) (childrenOf folders parent)
  have hpath : e.2 ∈ segments.map (joinPath parentPath) := by
    rw [← hpaths]
    exact List.mem_map_of_mem h
  obtain ⟨s, hs, heq⟩ := List.mem_map.1 hpath
  exact ⟨hmem, hparent, s, (hall s hs).2.2.ne_nil, (hall s hs).2.1, heq.symm⟩

theorem placed_start : Placed T folders ⟨pushChildren T folders none none, []⟩ := by
  refine ⟨fun i node hi => absurd hi (by simp), ?_, ?_, fun _ hnode => absurd hnode
    List.not_mem_nil⟩
  · intro e he
    obtain ⟨hmem, hparent, s, hne, hslash, heq⟩ := mem_pushChildren he
    refine ⟨hmem, Or.inl ⟨hparent, ?_⟩⟩
    rw [heq]
    exact ⟨hne, hslash⟩
  · intro f hf hparent
    have hchild : f ∈ (pushChildren T folders none none).map Prod.fst := by
      rw [map_fst_pushChildren]
      exact mem_childrenOf.2 ⟨hf, hparent⟩
    obtain ⟨e, he, rfl⟩ := List.mem_map.1 hchild
    exact List.mem_append_right _ (List.mem_map_of_mem he)

/-- Taking a folder from the stack keeps everything in its place. -/
theorem Placed.pop {f : CustomFolder} {path : List Char} {stack : List (CustomFolder × List Char)}
    {out : List FolderNode} (h : Placed T folders ⟨(f, path) :: stack, out⟩) :
    Placed T folders ⟨pushChildren T folders (some f.labelToken) (some path) ++ stack,
      out ++ [nodeOf folders f path out.length]⟩ := by
  obtain ⟨hf, hbelow⟩ := h.stack (f, path) List.mem_cons_self
  have htokens : ∀ t ∈ Walk.tokens ⟨(f, path) :: stack, out⟩,
      t ∈ Walk.tokens ⟨pushChildren T folders (some f.labelToken) (some path) ++ stack,
        out ++ [nodeOf folders f path out.length]⟩ := by
    intro t ht
    simp only [Walk.tokens, List.map_append, List.map_cons, List.map_nil, List.mem_append,
      List.mem_cons, List.not_mem_nil, or_false, nodeOf] at ht ⊢
    tauto
  refine ⟨?_, ?_, fun g hg hroot => htokens _ (h.roots g hg hroot), ?_⟩
  · intro i node hi
    by_cases hlt : i < out.length
    · -- an older node
      rw [List.getElem?_append_left hlt] at hi
      rw [List.take_append_of_le_length (Nat.le_of_lt hlt)]
      exact h.nodes i node hi
    · rw [List.getElem?_append_right (Nat.le_of_not_lt hlt)] at hi
      obtain ⟨hpos, rfl⟩ := List.getElem?_eq_some_iff.1 hi
      rw [List.length_singleton] at hpos
      have hindex : i = out.length := by omega
      subst hindex
      simp only [Nat.sub_self, List.getElem_cons_zero, List.take_left]
      exact ⟨⟨f, hf, out.length, rfl⟩, hbelow⟩
  · intro e he
    rcases List.mem_append.1 he with hnew | hold
    · obtain ⟨hmem, hparent, s, hne, hslash, heq⟩ := mem_pushChildren hnew
      refine ⟨hmem, Or.inr ⟨out.length, nodeOf folders f path out.length, s, ?_, hparent, hne, hslash,
        heq⟩⟩
      rw [List.getElem?_append_right (Nat.le_refl _), Nat.sub_self]
      rfl
    · obtain ⟨hmem, hold⟩ := h.stack e (List.mem_cons_of_mem _ hold)
      exact ⟨hmem, hold.mono (List.prefix_append _ _)⟩
  · intro node hnode g hg hparent
    rcases List.mem_append.1 hnode with hold | hnew
    · exact htokens _ (h.children node hold g hg hparent)
    · obtain rfl := List.mem_singleton.1 hnew
      have hchild : g ∈ (pushChildren T folders (some f.labelToken) (some path)).map Prod.fst := by
        rw [map_fst_pushChildren]
        exact mem_childrenOf.2 ⟨hg, hparent⟩
      obtain ⟨e, he, rfl⟩ := List.mem_map.1 hchild
      refine List.mem_append_right _ ?_
      rw [List.map_append]
      exact List.mem_append_left _ (List.mem_map_of_mem he)

end Walk

/-! ## The tree -/

section Tree

variable (T : CaseTables) (folders : List CustomFolder)

theorem placed_buildTree : Placed T (uniqueFolders [] folders) ⟨[], buildTree T folders⟩ := by
  have hplaced : Placed T (uniqueFolders [] folders) (fullWalk T folders) :=
    popAll_induction (fun _ _ _ _ h => h.pop) placed_start _
  have hwalk : fullWalk T folders = ⟨[], buildTree T folders⟩ := by
    rw [← fullWalk_stack T folders]
    rfl
  rwa [hwalk] at hplaced

theorem tokensGood_buildTree :
    TokensGood (uniqueFolders [] folders) ⟨[], buildTree T folders⟩ := by
  have hunique := nodup_uniqueFolders [] folders
  have hgood : TokensGood (uniqueFolders [] folders) (fullWalk T folders) :=
    popAll_induction (fun _ _ _ _ h => h.pop hunique) (tokensGood_start T hunique) _
  have hwalk : fullWalk T folders = ⟨[], buildTree T folders⟩ := by
    rw [← fullWalk_stack T folders]
    rfl
  rwa [hwalk] at hgood

/-- Every folder comes out: one that did not would lead on to its parent, which did not either. -/
theorem mem_buildTree_of_mem {f : CustomFolder} (h : f ∈ uniqueFolders [] folders) :
    f.labelToken ∈ (buildTree T folders).map FolderNode.token := by
  have hunique := nodup_uniqueFolders [] folders
  have hplaced := placed_buildTree T folders
  have htokens : Walk.tokens ⟨[], buildTree T folders⟩ = (buildTree T folders).map FolderNode.token :=
    List.append_nil _
  by_contra hmissing
  have hstep : ∀ f : {f : CustomFolder // f ∈ uniqueFolders [] folders ∧
      f.labelToken ∉ (buildTree T folders).map FolderNode.token},
      ∃ f' : {f : CustomFolder // f ∈ uniqueFolders [] folders ∧
        f.labelToken ∉ (buildTree T folders).map FolderNode.token},
        effectiveParent (uniqueFolders [] folders) f.1 = some f'.1.labelToken := by
    rintro ⟨f, hf, hout⟩
    cases hparent : effectiveParent (uniqueFolders [] folders) f with
    | none => exact absurd (htokens ▸ hplaced.roots f hf hparent) hout
    | some p =>
        obtain ⟨-, g, hg, rfl⟩ := declared_known (effectiveParent_eq_some hparent).1
        refine ⟨⟨g, hg, fun hmem => hout ?_⟩, rfl⟩
        obtain ⟨node, hnode, htoken⟩ := List.mem_map.1 hmem
        exact htokens ▸ hplaced.children node hnode f hf (by rw [hparent, htoken])
  choose next hnext using hstep
  let start : {f : CustomFolder // f ∈ uniqueFolders [] folders ∧
    f.labelToken ∉ (buildTree T folders).map FolderNode.token} := ⟨f, h, hmissing⟩
  refine climb_ends hunique (fun i => (next^[i] start).1) (fun i => (next^[i] start).2.1) fun i => ?_
  rw [hnext, Function.iterate_succ_apply']

theorem mem_uniqueFolders_tokens {seen : List String} {t : String} :
    t ∈ (uniqueFolders seen folders).map CustomFolder.labelToken ↔
      t ≠ "" ∧ t ∉ seen ∧ t ∈ folders.map CustomFolder.labelToken := by
  induction folders generalizing seen with
  | nil => simp [uniqueFolders]
  | cons f fs ih =>
      rw [uniqueFolders]
      split
      · rename_i hf
        rw [List.map_cons, List.mem_cons, ih, List.map_cons]
        constructor
        · rintro (rfl | ⟨hne, hseen, hmem⟩)
          · exact ⟨hf.1, hf.2, List.mem_cons_self⟩
          · exact ⟨hne, fun hs => hseen (List.mem_cons_of_mem _ hs), List.mem_cons_of_mem _ hmem⟩
        · rintro ⟨hne, hseen, hin⟩
          rcases List.mem_cons.1 hin with heq | hmem
          · exact Or.inl heq
          · by_cases heq : t = f.labelToken
            · exact Or.inl heq
            · exact Or.inr ⟨hne, by simp [heq, hseen], hmem⟩
      · rename_i hf
        rw [ih, List.map_cons, List.mem_cons]
        constructor
        · rintro ⟨hne, hseen, hmem⟩
          exact ⟨hne, hseen, Or.inr hmem⟩
        · rintro ⟨hne, hseen, rfl | hmem⟩
          · exact absurd ⟨hne, hseen⟩ hf
          · exact ⟨hne, hseen, hmem⟩

/-- **The folder tree loses nothing**: the loop ends, every token that is not empty comes out once,
each node is a root or stands below an earlier node, and it has children exactly when another node
stands below it. -/
theorem tree_loses_nothing :
    (fullWalk T folders).stack = [] ∧
      ((buildTree T folders).map FolderNode.token).Nodup ∧
      (∀ t, t ∈ (buildTree T folders).map FolderNode.token ↔
        t ≠ "" ∧ t ∈ folders.map CustomFolder.labelToken) ∧
      (∀ (i : Nat) node, (buildTree T folders)[i]? = some node →
        node.parentToken = none ∧ node.path ≠ [] ∧ separator ∉ node.path ∨
          ∃ (j : Nat) (parent : FolderNode) (s : List Char), j < i ∧
            (buildTree T folders)[j]? = some parent ∧ node.parentToken = some parent.token ∧
            s ≠ [] ∧ separator ∉ s ∧ node.path = parent.path ++ separator :: s) ∧
      (∀ node ∈ buildTree T folders, node.hasChildren = true ↔
        ∃ other ∈ buildTree T folders, other ≠ node ∧ other.parentToken = some node.token) := by
  have hunique := nodup_uniqueFolders [] folders
  have hplaced := placed_buildTree T folders
  have hgood := tokensGood_buildTree T folders
  have htokens : Walk.tokens ⟨[], buildTree T folders⟩ = (buildTree T folders).map FolderNode.token :=
    List.append_nil _
  have hfolder : ∀ node ∈ buildTree T folders, ∃ f ∈ uniqueFolders [] folders, ∃ position,
      node = nodeOf (uniqueFolders [] folders) f node.path position := by
    intro node hnode
    obtain ⟨i, hi⟩ := List.getElem?_of_mem hnode
    exact (hplaced.nodes i node hi).1
  refine ⟨fullWalk_stack T folders, htokens ▸ hgood.nodup, ?_, ?_, ?_⟩
  · intro t
    have hmem := @mem_uniqueFolders_tokens folders [] t
    constructor
    · intro ht
      obtain ⟨f, hf, htoken, -⟩ := hgood.known t (htokens ▸ ht)
      obtain ⟨hne, -, hin⟩ := hmem.1 (htoken ▸ List.mem_map_of_mem hf)
      exact ⟨hne, hin⟩
    · rintro ⟨hne, hin⟩
      obtain ⟨f, hf, rfl⟩ := List.mem_map.1 (hmem.2 ⟨hne, List.not_mem_nil, hin⟩)
      exact mem_buildTree_of_mem T folders hf
  · intro i node hi
    rcases (hplaced.nodes i node hi).2 with hroot | ⟨j, parent, s, hj, hrest⟩
    · exact Or.inl hroot
    · obtain ⟨hlt, -⟩ := List.getElem?_eq_some_iff.1 hj
      have hji : j < i := by
        rw [List.length_take] at hlt
        omega
      rw [List.getElem?_take_of_lt hji] at hj
      exact Or.inr ⟨j, parent, s, hji, hj, hrest⟩
  · intro node hnode
    obtain ⟨f, hf, position, heq⟩ := hfolder node hnode
    have htoken : node.token = f.labelToken := by rw [heq]; rfl
    have hchildren : node.hasChildren =
        !(childrenOf (uniqueFolders [] folders) (some f.labelToken)).isEmpty := by rw [heq]; rfl
    rw [hchildren, Bool.not_eq_true', List.isEmpty_eq_false_iff_exists_mem]
    constructor
    · rintro ⟨g, hg⟩
      obtain ⟨hgmem, hparent⟩ := mem_childrenOf.1 hg
      obtain ⟨other, hother, hotherToken⟩ := List.mem_map.1 (mem_buildTree_of_mem T folders hgmem)
      obtain ⟨g', hg', position', heq'⟩ := hfolder other hother
      have hsame : g' = g := by
        refine List.inj_on_of_nodup_map hunique hg' hgmem ?_
        rw [← hotherToken, heq']
        rfl
      have hotherParent : other.parentToken = some node.token := by
        rw [heq', htoken, ← hparent, hsame]
        rfl
      refine ⟨other, hother, ?_, hotherParent⟩
      rintro rfl
      obtain ⟨hself, -⟩ := declared_known (effectiveParent_eq_some hparent).1
      exact hself (by rw [← htoken, hotherToken])
    · rintro ⟨other, hother, -, hparent⟩
      obtain ⟨g, hg, position', heq'⟩ := hfolder other hother
      refine ⟨g, mem_childrenOf.2 ⟨hg, ?_⟩⟩
      rw [← htoken, ← hparent, heq']
      rfl

end Tree

end AsterBridge.Folders
