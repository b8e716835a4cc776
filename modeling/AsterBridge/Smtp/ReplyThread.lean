import AsterBridge.Address
import AsterBridge.Jmap.Blob
import AsterBridge.Lib.Budget
import AsterBridge.Lib.Words
import AsterBridge.Render.LineBreaks
import Mathlib.Data.List.Dedup

/-!
# The reply chain of a sent message

`message_ids`, `ReplyHeaders`, `resolve_reply` and `in_reply_to_value` of
`smtp/reply_thread.rs`. The chain of a reply loses its duplicates in three places; what is
sent is the longest end of it that fits, and it reads back as the same ids.
-/

set_option autoImplicit false

namespace AsterBridge.Smtp

open AsterBridge.Lib AsterBridge.Lib.Text AsterBridge.Render
open AsterBridge.Address

namespace ReplyThread

/-! ## Message ids -/

/-- `MAX_IN_REPLY_TO_LEN` -/
def maxInReplyToLen : Nat := 512

/-- `MAX_MESSAGE_ID_LEN` -/
def maxMessageIdLen : Nat := 250

/-- `BRIDGE_MESSAGE_ID_DOMAIN` -/
def bridgeMessageIdDomain : List Char := "aster-bridge".toList

/-- `valid` of `message_ids`. -/
def validId (id : List Char) : Bool :=
  !id.isEmpty && decide (utf8Len id ≤ maxMessageIdLen) && decide ('@' ∈ id) &&
    !id.any fun c => isWhitespace c || isControl c || c == '<' || c == '>' || c == '"'

/-- `push` of `message_ids`. -/
def pushId (out : List (List Char)) (candidate : List Char) : List (List Char) :=
  let id := trim (trimMatches (fun c => c == '<' || c == '>') (trim candidate))
  if validId id && !out.contains id then out ++ [id] else out

/-- The texts between angle brackets that the loop of `message_ids` pushes. -/
def anglePieces (value : List Char) : List (List Char) :=
  match hopen : splitOnce '<' value with
  | none => []
  | some (_, after) =>
      match hclose : splitOnce '>' after with
      | none => []
      | some (piece, rest) => piece :: anglePieces rest
  termination_by value.length
  decreasing_by
    have hvalue := congrArg List.length (eq_of_splitOnce hopen)
    have hafter := congrArg List.length (eq_of_splitOnce hclose)
    simp only [List.length_append, List.length_cons] at hvalue hafter
    omega

/-- `message_ids` -/
def messageIds (value : List Char) : List (List Char) :=
  (if '<' ∈ value then anglePieces value else splitWhitespace value).foldl pushId []

/-! ## The headers of a reply -/

local instance lawfulBEqId : LawfulBEq (List Char) := inferInstance

/-- `ReplyHeaders` -/
structure ReplyHeaders where
  inReplyTo : List (List Char)
  references : List (List Char)
deriving DecidableEq

/-- `ReplyHeaders::from_mime`, from the raw values of In-Reply-To and References. -/
def ReplyHeaders.fromMime (inReplyTo references : Option (List Char)) : ReplyHeaders where
  inReplyTo := (inReplyTo.map messageIds).getD []
  references := (references.map messageIds).getD []

/-- `ReplyHeaders::parent` -/
def ReplyHeaders.parent (h : ReplyHeaders) : Option (List Char) :=
  h.inReplyTo.getLast?.or h.references.getLast?

/-- The body of the loop of `ReplyHeaders::chain`. -/
def pushChain (parent : Option (List Char)) (out : List (List Char)) (id : List Char) :
    List (List Char) :=
  if some id = parent ∨ id ∈ out then out else out ++ [id]

/-- `ReplyHeaders::chain` -/
def ReplyHeaders.chain (h : ReplyHeaders) : List (List Char) :=
  let out := (h.references ++ h.inReplyTo).foldl (pushChain h.parent) []
  match h.parent with
  | some p => out ++ [p]
  | none => out

/-- `bridge_local_aster_id` -/
def bridgeLocalAsterId (messageId : List Char) : Option (List Char) :=
  (Jmap.Blob.rsplitOnce ['@'] messageId).bind fun (name, domain) =>
    if !eqIgnoreAsciiCase domain bridgeMessageIdDomain then none
    else if !name.isEmpty && decide (utf8Len name ≤ 128) &&
        name.all fun c => c.isAlphanum || c == '-' || c == '_' then some name
    else none

/-! ## The reply -/

/-- The cache: `cached_metadata` of an Aster id, and `find_aster_id_by_message_id`. -/
structure ThreadCache where
  cachedMetadata : List Char → Option Json
  findAsterIdByMessageId : List Char → Option (List Char)

/-- `cached_chain` -/
def cachedChain (db : ThreadCache) (asterId : List Char) : List (List Char) :=
  match db.cachedMetadata asterId with
  | none => []
  | some data =>
      (match (data.get? "references").bind Json.asStr with
        | some refs => messageIds refs.toList
        | none => []) ++
      match (data.get? "message_id").bind Json.asStr with
      | some mid => (messageIds mid.toList).take 1
      | none => []

/-- `aster_id_for` -/
def asterIdFor (db : ThreadCache) (messageId : List Char) : Option (List Char) :=
  (bridgeLocalAsterId messageId).or (db.findAsterIdByMessageId messageId)

/-- The loop of `in_reply_to_value`, over the reversed chain. -/
def collectIds (seen ids : List (List Char)) : List (List Char) → List (List Char)
  | [] => ids
  | id :: rest =>
      if (bridgeLocalAsterId id).isSome || seen.contains id then collectIds seen ids rest
      else
        let formatted := '<' :: id ++ ['>']
        let used := (ids.map fun s => utf8Len s + 1).sum
        if maxInReplyToLen < used + utf8Len formatted then ids
        else collectIds (seen ++ [id]) (ids ++ [formatted]) rest

/-- `in_reply_to_value` -/
def inReplyToValue (chain : List (List Char)) : Option (List Char) :=
  let ids := collectIds [] [] chain.reverse
  if ids.isEmpty then none else some ([' '].intercalate ids.reverse)

/-- `ResolvedReply` -/
structure ResolvedReply where
  parentAsterId : Option (List Char)
  inReplyTo : Option (List Char)

/-- What `resolve_reply` puts in the place of an id of the chain. -/
def expandLocal (db : ThreadCache) (id : List Char) : List (List Char) :=
  match bridgeLocalAsterId id with
  | some name => cachedChain db name
  | none => [id]

/-- `resolve_reply` -/
def resolveReply (db : ThreadCache) (headers : ReplyHeaders) : ResolvedReply where
  parentAsterId := headers.parent.bind (asterIdFor db)
  inReplyTo := inReplyToValue (headers.chain.flatMap (expandLocal db))

/-! ## What is sent -/

/-- The text `<id> <id> ...`. -/
def written (ids : List (List Char)) : List Char :=
  [' '].intercalate (ids.map fun id => '<' :: id ++ ['>'])

/-- The ids that a reply may name: the expanded chain without bridge-local ids, each id at its
last place. -/
def replyIds (db : ThreadCache) (headers : ReplyHeaders) : List (List Char) :=
  ((headers.chain.flatMap (expandLocal db)).filter fun id =>
    (bridgeLocalAsterId id).isNone).dedup

/-! ## The ids of a header -/

section MessageIds

variable {out ids candidates : List (List Char)} {id candidate value : List Char}

theorem validId_iff :
    validId id = true ↔ id ≠ [] ∧ utf8Len id ≤ maxMessageIdLen ∧ '@' ∈ id ∧
      ∀ c ∈ id, isWhitespace c = false ∧ isControl c = false ∧ c ≠ '<' ∧ c ≠ '>' ∧ c ≠ '"' := by
  simp [validId, and_assoc]

theorem validId_pushId (h : ∀ id ∈ out, validId id = true) :
    ∀ id ∈ pushId out candidate, validId id = true := by
  intro id hid
  unfold pushId at hid
  dsimp only at hid
  split at hid
  case isTrue hnew =>
    rcases List.mem_append.1 hid with hold | hlast
    · exact h id hold
    · rw [List.mem_singleton.1 hlast]
      exact (Bool.and_eq_true _ _ ▸ hnew).1
  case isFalse => exact h id hid

theorem validId_foldl (h : ∀ id ∈ out, validId id = true) :
    ∀ id ∈ candidates.foldl pushId out, validId id = true := by
  induction candidates generalizing out with
  | nil => exact h
  | cons c candidates ih => exact ih (validId_pushId h)

/-- Every id that `message_ids` gives is valid. -/
theorem validId_messageIds : ∀ id ∈ messageIds value, validId id = true :=
  validId_foldl fun _ hid => absurd hid List.not_mem_nil

/-- A valid id has nothing to trim. -/
theorem clean_of_validId (h : validId id = true) :
    trim (trimMatches (fun c => c == '<' || c == '>') (trim id)) = id := by
  obtain ⟨hne, -, -, hchars⟩ := validId_iff.1 h
  obtain ⟨first, hfirst⟩ := Option.isSome_iff_exists.1 (List.isSome_head?.2 hne)
  obtain ⟨last, hlast⟩ := Option.isSome_iff_exists.1 (List.getLast?_isSome.2 hne)
  have hfirstChars := hchars first (List.mem_of_head? hfirst)
  have hlastChars := hchars last (List.mem_of_getLast? hlast)
  have htrim : trim id = id :=
    trim_of_ends ⟨first, hfirst, hfirstChars.1⟩ ⟨last, hlast, hlastChars.1⟩
  have hbrackets : trimMatches (fun c => c == '<' || c == '>') id = id := by
    obtain ⟨rest, rfl⟩ := List.head?_eq_some_iff.1 hfirst
    unfold trimMatches
    rw [List.dropWhile_cons_of_neg (by simp [hfirstChars])]
    exact rdropWhile_of_last hlast (by simp [hlastChars])
  rw [htrim, hbrackets, htrim]

/-- Distinct valid ids are pushed as they are. -/
theorem foldl_pushId_of_valid (hvalid : ∀ id ∈ ids, validId id = true)
    (hnodup : (out ++ ids).Nodup) : ids.foldl pushId out = out ++ ids := by
  induction ids generalizing out with
  | nil => rw [List.foldl_nil, List.append_nil]
  | cons id ids ih =>
    have hid := hvalid id List.mem_cons_self
    have hnew : id ∉ out := fun hmem =>
      List.disjoint_of_nodup_append hnodup hmem List.mem_cons_self
    have hpush : pushId out id = out ++ [id] := by
      rw [pushId, clean_of_validId hid]
      simp [hid, hnew]
    rw [List.append_cons] at hnodup
    rw [List.foldl_cons, hpush, ih (fun d hd => hvalid d (List.mem_cons_of_mem _ hd)) hnodup,
      ← List.append_cons]

end MessageIds

/-! ## Reading back what is sent -/

section Written

variable {ids : List (List Char)} {id : List Char}

/-- The first piece of a text is cut off, whatever stands before its bracket. -/
theorem anglePieces_append {before rest : List Char} (hbefore : '<' ∉ before) (hid : '>' ∉ id) :
    anglePieces (before ++ '<' :: (id ++ '>' :: rest)) = id :: anglePieces rest := by
  have hopen := splitOnce_append (b := id ++ '>' :: rest) hbefore
  have hclose := splitOnce_append (b := rest) hid
  rw [anglePieces]
  split
  case h_1 hnone => exact absurd (hopen.symm.trans hnone) (nomatch ·)
  case h_2 after hsome =>
    obtain rfl : id ++ '>' :: rest = after :=
      congrArg Prod.snd (Option.some.inj (hopen.symm.trans hsome))
    split
    case h_1 hnone => exact absurd (hclose.symm.trans hnone) (nomatch ·)
    case h_2 piece rest' hsome' =>
      have hpair := Option.some.inj (hclose.symm.trans hsome')
      obtain rfl : id = piece := congrArg Prod.fst hpair
      obtain rfl : rest = rest' := congrArg Prod.snd hpair
      rfl

theorem anglePieces_written (hids : ∀ id ∈ ids, '>' ∉ id) : anglePieces (written ids) = ids := by
  suffices h : ∀ before : List Char, '<' ∉ before → ids ≠ [] →
      anglePieces (before ++ written ids) = ids by
    cases ids with
    | nil => rw [written, List.map_nil, List.intercalate_nil, anglePieces]; rfl
    | cons id ids => exact h [] List.not_mem_nil (List.cons_ne_nil _ _)
  intro before hbefore hne
  induction ids generalizing before with
  | nil => exact absurd rfl hne
  | cons id ids ih =>
    have hid := hids id List.mem_cons_self
    cases ids with
    | nil =>
      have hone : before ++ written [id] = before ++ '<' :: (id ++ '>' :: []) := by
        simp [written]
      rw [hone, anglePieces_append hbefore hid, anglePieces]
      rfl
    | cons next ids =>
      have hmore : before ++ written (id :: next :: ids) =
          before ++ '<' :: (id ++ '>' :: ([' '] ++ written (next :: ids))) := by
        simp [written, List.intercalate_cons_cons]
      rw [hmore, anglePieces_append hbefore hid,
        ih (fun d hd => hids d (List.mem_cons_of_mem _ hd)) [' '] (by decide)
          (List.cons_ne_nil _ _)]

/-- **What is sent reads back as the ids it was made of.** -/
theorem messageIds_written (hne : ids ≠ []) (hvalid : ∀ id ∈ ids, validId id = true)
    (hnodup : ids.Nodup) : messageIds (written ids) = ids := by
  have hopen : '<' ∈ written ids := by
    obtain ⟨id, rest, rfl⟩ := List.exists_cons_of_ne_nil hne
    cases rest <;> simp [written, List.intercalate_cons_cons]
  have hpieces : anglePieces (written ids) = ids :=
    anglePieces_written fun id hid hmem =>
      ((validId_iff.1 (hvalid id hid)).2.2.2 '>' hmem).2.2.2.1 rfl
  rw [messageIds, if_pos hopen, hpieces]
  exact foldl_pushId_of_valid hvalid hnodup

end Written

/-! ## The chain -/

section Chain

variable {parent : Option (List Char)} {out l : List (List Char)} {h : ReplyHeaders}

theorem mem_foldl_pushChain (id : List Char) :
    id ∈ l.foldl (pushChain parent) out ↔ id ∈ out ∨ (id ∈ l ∧ some id ≠ parent) := by
  induction l generalizing out with
  | nil => simp
  | cons d l ih =>
    rw [List.foldl_cons, ih, List.mem_cons]
    unfold pushChain
    split
    case isTrue hskip =>
      constructor
      · rintro (hid | ⟨hid, hne⟩)
        · exact Or.inl hid
        · exact Or.inr ⟨Or.inr hid, hne⟩
      · rintro (hid | ⟨rfl | hid, hne⟩)
        · exact Or.inl hid
        · exact Or.inl (hskip.resolve_left hne)
        · exact Or.inr ⟨hid, hne⟩
    case isFalse hpush =>
      rw [List.mem_append, List.mem_singleton]
      constructor
      · rintro ((hid | rfl) | ⟨hid, hne⟩)
        · exact Or.inl hid
        · exact Or.inr ⟨Or.inl rfl, fun heq => hpush (Or.inl heq)⟩
        · exact Or.inr ⟨Or.inr hid, hne⟩
      · rintro (hid | ⟨rfl | hid, hne⟩)
        · exact Or.inl (Or.inl hid)
        · exact Or.inl (Or.inr rfl)
        · exact Or.inr ⟨hid, hne⟩

theorem nodup_foldl_pushChain (hout : out.Nodup) : (l.foldl (pushChain parent) out).Nodup := by
  induction l generalizing out with
  | nil => exact hout
  | cons d l ih =>
    refine ih ?_
    unfold pushChain
    split
    case isTrue => exact hout
    case isFalse hpush =>
      have hnew : d ∉ out := fun hmem => hpush (Or.inr hmem)
      exact List.nodup_append.2 ⟨hout, List.nodup_singleton _, fun a ha b hb heq =>
        hnew (List.mem_singleton.1 hb ▸ heq ▸ ha)⟩

theorem parent_mem {p : List Char} (hp : h.parent = some p) :
    p ∈ h.references ++ h.inReplyTo := by
  rcases Option.or_eq_some_iff.1 hp with hlast | ⟨-, hlast⟩
  · exact List.mem_append_right _ (List.mem_of_getLast? hlast)
  · exact List.mem_append_left _ (List.mem_of_getLast? hlast)

/-- `chain` names the ids of both headers and no others. -/
theorem mem_chain (id : List Char) : id ∈ h.chain ↔ id ∈ h.references ∨ id ∈ h.inReplyTo := by
  rw [← List.mem_append]
  unfold ReplyHeaders.chain
  cases hp : h.parent with
  | none =>
    have hmem := @mem_foldl_pushChain none [] (h.references ++ h.inReplyTo) id
    simpa using hmem
  | some p =>
    dsimp only
    rw [List.mem_append, mem_foldl_pushChain, List.mem_singleton]
    constructor
    · rintro ((hnil | ⟨hid, -⟩) | rfl)
      · exact absurd hnil List.not_mem_nil
      · exact hid
      · exact parent_mem hp
    · intro hid
      by_cases hparent : id = p
      · exact Or.inr hparent
      · exact Or.inl (Or.inr ⟨hid, fun heq => hparent (Option.some.inj heq)⟩)

theorem chain_nodup : h.chain.Nodup := by
  unfold ReplyHeaders.chain
  cases hp : h.parent with
  | none => exact nodup_foldl_pushChain List.nodup_nil
  | some p =>
    have hnot : p ∉ (h.references ++ h.inReplyTo).foldl (pushChain (some p)) [] := by
      rw [mem_foldl_pushChain]
      rintro (hnil | ⟨-, hne⟩)
      · exact absurd hnil List.not_mem_nil
      · exact hne rfl
    exact List.nodup_append.2 ⟨nodup_foldl_pushChain List.nodup_nil, List.nodup_singleton _,
      fun a ha b hb heq => hnot ((heq.trans (List.mem_singleton.1 hb)) ▸ ha)⟩

theorem chain_getLast? : h.chain.getLast? = h.parent := by
  unfold ReplyHeaders.chain
  cases hp : h.parent with
  | some p => exact List.getLast?_concat ..
  | none =>
    obtain ⟨hreply, hrefs⟩ := Option.or_eq_none_iff.1 hp
    rw [List.getLast?_eq_none_iff.1 hreply, List.getLast?_eq_none_iff.1 hrefs]
    rfl

theorem validId_fromMime (inReplyTo references : Option (List Char)) :
    ∀ id ∈ (ReplyHeaders.fromMime inReplyTo references).chain, validId id = true := by
  intro id hid
  rcases (mem_chain id).1 hid with href | hreply
  · cases references with
    | none => exact absurd href List.not_mem_nil
    | some value => exact validId_messageIds id href
  · cases inReplyTo with
    | none => exact absurd hreply List.not_mem_nil
    | some value => exact validId_messageIds id hreply

theorem validId_cachedChain (db : ThreadCache) (asterId : List Char) :
    ∀ id ∈ cachedChain db asterId, validId id = true := by
  intro id hid
  unfold cachedChain at hid
  split at hid
  case h_1 => exact absurd hid List.not_mem_nil
  case h_2 data _ =>
    rcases List.mem_append.1 hid with href | hmid
    · split at href
      · exact validId_messageIds id href
      · exact absurd href List.not_mem_nil
    · split at hmid
      · exact validId_messageIds id (List.mem_of_mem_take hmid)
      · exact absurd hmid List.not_mem_nil

theorem validId_expandLocal (db : ThreadCache) {id : List Char} (hid : validId id = true) :
    ∀ d ∈ expandLocal db id, validId d = true := by
  intro d hd
  unfold expandLocal at hd
  split at hd
  · exact validId_cachedChain db _ d hd
  · rwa [List.mem_singleton.1 hd]

end Chain

/-! ## What fits -/

section Fit

variable {seen taken ids l : List (List Char)}

/-- The ids of the reversed chain that the loop of `in_reply_to_value` does not skip. -/
def fresh (seen : List (List Char)) : List (List Char) → List (List Char)
  | [] => []
  | id :: rest =>
      if (bridgeLocalAsterId id).isSome || seen.contains id then fresh seen rest
      else id :: fresh (seen ++ [id]) rest

/-- What an id costs: its brackets and a blank. -/
def idCost (id : List Char) : Nat := utf8Len id + 3

theorem utf8Len_formatted (id : List Char) : utf8Len ('<' :: id ++ ['>']) = utf8Len id + 2 := by
  have hopen : '<'.utf8Size = 1 := rfl
  have hclose : '>'.utf8Size = 1 := rfl
  rw [utf8Len_append, utf8Len_cons, utf8Len_cons, utf8Len_nil]
  omega

/-- The last blank is paid for and not sent. -/
theorem utf8Len_written (hne : ids ≠ []) :
    utf8Len (written ids) + 1 = Budget.total idCost ids := by
  induction ids with
  | nil => exact absurd rfl hne
  | cons id ids ih =>
    have hid := utf8Len_formatted id
    cases ids with
    | nil =>
      have hone : written [id] = '<' :: id ++ ['>'] := by simp [written]
      rw [hone, hid, Budget.total_cons, Budget.total_nil, idCost]
    | cons next ids =>
      have hblank : ' '.utf8Size = 1 := rfl
      have hmore : written (id :: next :: ids) =
          '<' :: id ++ ['>'] ++ ' ' :: written (next :: ids) := by
        simp [written, List.intercalate_cons_cons]
      have hrest := ih (List.cons_ne_nil _ _)
      rw [hmore, utf8Len_append, utf8Len_cons, hid, Budget.total_cons, ← hrest, idCost]
      omega

/-- The loop takes the fresh ids that fit. -/
theorem collectIds_eq (hused : Budget.total idCost taken ≤ maxInReplyToLen + 1) :
    collectIds seen (taken.map fun id => '<' :: id ++ ['>']) l =
      (taken ++ Budget.within idCost (maxInReplyToLen + 1 - Budget.total idCost taken)
        (fresh seen l)).map fun id => '<' :: id ++ ['>'] := by
  induction l generalizing seen taken with
  | nil => rw [collectIds, fresh, Budget.within, List.append_nil]
  | cons id rest ih =>
    have hcost : ((taken.map fun id => '<' :: id ++ ['>']).map fun s => utf8Len s + 1).sum =
        Budget.total idCost taken := by
      simp only [Budget.total, List.map_map, Function.comp_def, utf8Len_formatted]
      rfl
    rw [collectIds, fresh]
    dsimp only
    rw [hcost, utf8Len_formatted]
    split
    case isTrue => exact ih hused
    case isFalse =>
      rw [Budget.within]
      split
      case isTrue hover =>
        rw [if_neg (by rw [idCost]; omega), List.append_nil]
      case isFalse hfits =>
        have htotal : Budget.total idCost (taken ++ [id]) =
            Budget.total idCost taken + idCost id := by simp
        have hnext := @ih (seen ++ [id]) (taken ++ [id]) (by rw [htotal, idCost]; omega)
        rw [List.map_append, List.map_singleton, htotal, List.append_assoc] at hnext
        rw [if_pos (by rw [idCost]; omega), hnext, Nat.sub_add_eq]
        rfl

theorem fresh_append (id : List Char) : fresh seen (l ++ [id]) = fresh seen l ++
    if (bridgeLocalAsterId id).isSome ∨ id ∈ seen ∨ id ∈ l then [] else [id] := by
  induction l generalizing seen with
  | nil =>
    simp only [List.nil_append, fresh, List.not_mem_nil, or_false, Bool.or_eq_true,
      List.contains_iff_mem]
  | cons d l ih =>
    simp only [List.cons_append, fresh, Bool.or_eq_true, List.contains_iff_mem]
    split
    case isTrue hskip =>
      rw [ih]
      congr 1
      refine if_congr ?_ rfl rfl
      rw [List.mem_cons]
      constructor
      · tauto
      · rintro (hlocal | hseen | rfl | hmem)
        all_goals tauto
    case isFalse =>
      rw [ih, List.cons_append]
      congr 2
      refine if_congr ?_ rfl rfl
      rw [List.mem_append, List.mem_singleton, List.mem_cons]
      tauto

/-- Read from the end, the fresh ids are those that keep their last place. -/
theorem fresh_reverse : fresh [] l.reverse =
    ((l.filter fun id => (bridgeLocalAsterId id).isNone).dedup).reverse := by
  induction l with
  | nil => rfl
  | cons id l ih =>
    rw [List.reverse_cons, fresh_append, ih]
    simp only [List.not_mem_nil, List.mem_reverse, false_or]
    cases hlocal : bridgeLocalAsterId id with
    | some name =>
      rw [if_pos (Or.inl Option.isSome_some), List.append_nil,
        List.filter_cons_of_neg (by simp [hlocal])]
    | none =>
      have hkept : id ∈ l.filter (fun id => (bridgeLocalAsterId id).isNone) ↔ id ∈ l := by
        simp [List.mem_filter, hlocal]
      rw [List.filter_cons_of_pos (by simp [hlocal])]
      by_cases hmem : id ∈ l
      · rw [if_pos (Or.inr hmem), List.append_nil, List.dedup_cons_of_mem (hkept.2 hmem)]
      · rw [if_neg (by simp [hmem]), List.dedup_cons_of_notMem (mt hkept.1 hmem),
          List.reverse_cons]

/-- The ids of the reply, among those that it may name. -/
def sentIds (kept : List (List Char)) : List (List Char) :=
  (Budget.within idCost (maxInReplyToLen + 1) kept.reverse).reverse

theorem inReplyToValue_eq (chain : List (List Char)) : inReplyToValue chain =
    let sent := sentIds ((chain.filter fun id => (bridgeLocalAsterId id).isNone).dedup)
    if sent = [] then none else some (written sent) := by
  have hcollect := @collectIds_eq [] [] chain.reverse (Nat.zero_le _)
  rw [fresh_reverse, List.map_nil, List.nil_append, Budget.total_nil, Nat.sub_zero] at hcollect
  unfold inReplyToValue
  dsimp only
  rw [hcollect, ← List.map_reverse]
  simp only [sentIds, written, List.isEmpty_iff, List.map_eq_nil_iff, List.reverse_eq_nil_iff]

end Fit

/-! ## The reply -/

section Reply

variable {kept more : List (List Char)}

theorem sentIds_isSuffix : sentIds kept <:+ kept := by
  rw [← List.reverse_prefix, sentIds, List.reverse_reverse]
  exact Budget.within_isPrefix _ _ _

theorem utf8Len_sentIds (hne : sentIds kept ≠ []) :
    utf8Len (written (sentIds kept)) ≤ maxInReplyToLen := by
  have hlen := utf8Len_written hne
  have htotal := Budget.total_within idCost (maxInReplyToLen + 1) kept.reverse
  rw [sentIds, Budget.total_reverse, ← sentIds] at hlen
  omega

/-- No end of the list that fits is longer. -/
theorem isSuffix_sentIds (hmore : more <:+ kept)
    (hfits : utf8Len (written more) ≤ maxInReplyToLen) : more <:+ sentIds kept := by
  by_cases hne : more = []
  · exact hne ▸ List.nil_suffix
  · have hlen := utf8Len_written hne
    rw [← List.reverse_prefix, sentIds, List.reverse_reverse]
    refine Budget.isPrefix_within idCost (List.reverse_prefix.2 hmore) ?_
    rw [Budget.total_reverse]
    omega

theorem sentIds_eq_nil_iff : sentIds kept = [] ↔
    kept = [] ∨ ∃ last, kept.getLast? = some last ∧ maxInReplyToLen < utf8Len (written [last]) := by
  rw [sentIds, List.reverse_eq_nil_iff, Budget.within_eq_nil_iff, List.reverse_eq_nil_iff,
    List.head?_reverse]
  refine or_congr_right (exists_congr fun last => and_congr_right fun _ => ?_)
  have hlen := @utf8Len_written [last] (List.cons_ne_nil _ _)
  rw [Budget.total_cons, Budget.total_nil] at hlen
  omega

/-- **The reply chain is truthful and bounded.** The value that is sent is the longest end of
the list of ids that fits into 512 bytes, each id once and none of the bridge's own, and it
reads back as these ids; it is absent exactly when there is nothing to name or the last id
alone does not fit. -/
theorem reply_chain_truthful (db : ThreadCache) (inReplyTo references : Option (List Char)) :
    let headers := ReplyHeaders.fromMime inReplyTo references
    let reply := (resolveReply db headers).inReplyTo
    (reply = none ↔ replyIds db headers = [] ∨ ∃ last,
      (replyIds db headers).getLast? = some last ∧ maxInReplyToLen < utf8Len (written [last])) ∧
    (∀ text ∈ reply, ∃ ids, text = written ids ∧ ids ≠ [] ∧ utf8Len text ≤ maxInReplyToLen ∧
      ids.Nodup ∧ (∀ id ∈ ids, bridgeLocalAsterId id = none) ∧
      ids <:+ replyIds db headers ∧
      (∀ more, more <:+ replyIds db headers → utf8Len (written more) ≤ maxInReplyToLen →
        more <:+ ids) ∧
      messageIds text = ids) ∧
    headers.chain.Nodup ∧
    (∀ id, id ∈ headers.references ∨ id ∈ headers.inReplyTo → id ∈ headers.chain) ∧
    headers.chain.getLast? = headers.parent := by
  intro headers reply
  set kept := replyIds db headers with hkept
  have hreply : reply = if sentIds kept = [] then none else some (written (sentIds kept)) :=
    inReplyToValue_eq _
  have hvalid : ∀ id ∈ kept, validId id = true := by
    intro id hid
    have hexpanded := List.mem_of_mem_filter (List.mem_dedup.1 hid)
    obtain ⟨d, hd, hid⟩ := List.mem_flatMap.1 hexpanded
    exact validId_expandLocal db (validId_fromMime _ _ d hd) id hid
  have hlocal : ∀ id ∈ kept, bridgeLocalAsterId id = none := by
    intro id hid
    have hkeeps := (List.mem_filter.1 (List.mem_dedup.1 hid)).2
    exact Option.isNone_iff_eq_none.1 hkeeps
  have hnodup : kept.Nodup := List.nodup_dedup _
  refine ⟨?_, ?_, chain_nodup, fun id hid => (mem_chain id).2 hid, chain_getLast?⟩
  · rw [← sentIds_eq_nil_iff, hreply]
    by_cases hnil : sentIds kept = []
    · rw [if_pos hnil]
      exact iff_of_true rfl hnil
    · rw [if_neg hnil]
      exact iff_of_false (Option.some_ne_none _) hnil
  · intro text htext
    rw [hreply] at htext
    split at htext
    case isTrue => exact absurd htext (nomatch ·)
    case isFalse hne =>
      obtain rfl : written (sentIds kept) = text := Option.some.inj htext
      have hsub := (@sentIds_isSuffix kept).subset
      have hsent := hnodup.sublist sentIds_isSuffix.sublist
      exact ⟨sentIds kept, rfl, hne, utf8Len_sentIds hne, hsent,
        fun id hid => hlocal id (hsub hid), sentIds_isSuffix,
        fun more hmore hfits => isSuffix_sentIds hmore hfits,
        messageIds_written hne (fun id hid => hvalid id (hsub hid)) hsent⟩

end Reply

end ReplyThread
end AsterBridge.Smtp
