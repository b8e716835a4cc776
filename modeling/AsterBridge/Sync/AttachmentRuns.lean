import AsterBridge.Lib.Runs
import AsterBridge.Sync.Attachments

/-!
# Attachments over runs

One message and everything that fills its table of parts: the sync with an inline download, the
history sweep, the backlog, the download on demand, and the relabelling after a sealed body was
opened. The server answers as it likes.

`stored_parts_are_listed`: where no answer leaves out a listed attachment, a message in the state
stored has exactly the parts that its sender listed. The downloads themselves accept an answer
that leaves some out (`omitted_part_looks_complete`).
-/

set_option autoImplicit false

namespace AsterBridge.Sync.Attachments

open AsterBridge.Lib AsterBridge.Lib.Runs AsterBridge.Crypto.Attachment AsterBridge.Render

/-! ## One message -/

/-- What the sync reads of a mail item and its envelope. -/
structure Envelope where
  value : Json
  hasBody : Bool
  unencrypted : Bool
  attachmentCount : Option Int
  hasAttachments : Option Bool

/-- The attachments of `prepare_mail_item`. -/
def Envelope.attachments (env : Envelope) : List EnvelopeAttachment :=
  if env.unencrypted then [] else parseEnvelopeAttachments env.value

/-- `expected_attachment_count` -/
def Envelope.expectedAttachmentCount (env : Envelope) : Nat :=
  let entries := env.attachments
  let declared := env.attachmentCount.map Int.toNat
  if entries = [] ∧ declared = some 0 then 0
  else max (max entries.length (declared.getD 0)) (if env.hasAttachments = some true then 1 else 0)

/-- A cached message, with the list of attachments that was last read for it. -/
structure Mail where
  bodyCached : Bool
  metadata : Json
  parts : Parts
  listing : List EnvelopeAttachment

/-- The metadata of `commit_prepared` about attachments. -/
def Envelope.metadata (env : Envelope) : Json :=
  objectOf [("attachment_count", some (jsonInt env.expectedAttachmentCount)),
    ("not_end_to_end_encrypted", if env.unencrypted then some (.bool true) else none),
    ("attachments", if env.attachments = [] then none
      else some (attachmentMetaJson env.attachments))]

/-- What `commit_prepared` does to the parts. -/
def commitParts (env : Envelope) (downloaded : Option (List CachedAttachment)) (onDemand : Bool)
    (p : Parts) : Parts :=
  let list := (downloaded.filter fun list => list ≠ [] && !env.unencrypted).filter fun list =>
    (list.map (·.seq)).Nodup
  match list with
  | some list => p.replaceMessageAttachments list
  | none =>
      if 0 < env.expectedAttachmentCount ∧ p.state ≠ .stored ∧ p.state ≠ .onDemand then
        if env.unencrypted then p.setAttachmentsState .failed
        else
          (if onDemand then p.storeOnDemandAttachments
              (onDemandParts env.attachments env.expectedAttachmentCount)
            else none).getD (p.setAttachmentsState .pending)
      else p

/-- `commit_prepared` -/
def commitPrepared (env : Envelope) (downloaded : Option (List CachedAttachment))
    (onDemand : Bool) (s : Option Mail) : Mail where
  bodyCached := env.hasBody || s.any (·.bodyCached)
  metadata := env.metadata
  parts := commitParts env downloaded onDemand ((s.map (·.parts)).getD .none)
  listing := env.attachments

/-- A download that failed for its content is tried five times, `ATTACHMENT_MAX_ATTEMPTS`. -/
def afterContentFailure (p : Parts) (giveUp : Parts → Parts) : Parts :=
  if 5 ≤ p.bumpAttachmentAttempts.attempts then giveUp p.bumpAttachmentAttempts
  else p.bumpAttachmentAttempts

/-- The sync of an item that is not cached, with the answer if there is room for a download. -/
def syncItem (x : AttachmentCrates) (env : Envelope) (reply : Option Reply) (s : Option Mail) :
    Mail :=
  let result := (if 0 < env.expectedAttachmentCount ∧ env.unencrypted = false then reply
    else none).map fun reply => fetchAndDecryptAttachments x reply env.attachments
  let m := commitPrepared env (result.bind Except.toOption) false s
  match result with
  | some (.error (.permanent _)) => { m with parts := m.parts.setAttachmentsState .failed }
  | some (.error (.content _)) => { m with parts := m.parts.bumpAttachmentAttempts }
  | _ => m

/-- What `refresh_attachment_keys` brings: an envelope, and whether its message is sealed. -/
abbrev Refreshed := Except AttachmentFetchError (Json × Bool)

/-- The message that `download_backlog_item` downloads for: its keys may be read again. -/
def refreshKeys (m : Mail) (refreshed : Refreshed) : Except AttachmentFetchError
    (List EnvelopeAttachment × Mail) :=
  let entries := cachedAttachmentEntries m.metadata
  if entries.all (·.key.isNone) then
    match refreshed with
    | .ok (value, sealed) =>
        let fresh := parseEnvelopeAttachments value
        if fresh ≠ [] then
          .ok (fresh, { m with metadata := mergeAttachmentMeta m.metadata fresh sealed
                               listing := fresh })
        else .ok (entries, m)
    | .error (.transport e) => .error (.transport e)
    | .error _ => .ok (entries, m)
  else .ok (entries, m)

/-- `download_backlog_item`, with the message whose metadata may be new. -/
def downloadBacklogItem (x : AttachmentCrates) (m : Mail) (refreshed : Refreshed) (reply : Reply) :
    Except AttachmentFetchError (List CachedAttachment × Mail) :=
  if flagged m.metadata "not_end_to_end_encrypted" then
    .error (.permanent "the message was stored without end-to-end encryption")
  else
    (refreshKeys m refreshed).bind fun (entries, m) =>
      (fetchAndDecryptAttachments x reply entries).map fun list => (list, m)

/-- A message of `backfill_pending_attachments`; a deferred one may count as an attempt. -/
def backfillItem (x : AttachmentCrates) (m : Mail) (refreshed : Refreshed) (reply : Reply)
    (counts : Bool) : Mail :=
  if m.parts.state ≠ .pending then m
  else
    match downloadBacklogItem x m refreshed reply with
    | .ok (list, m') => { m' with parts := m.parts.replaceMessageAttachments list }
    | .error (.transport _) =>
        if counts then { m with parts := m.parts.bumpAttachmentAttempts } else m
    | .error (.permanent _) => { m with parts := m.parts.setAttachmentsState .failed }
    | .error (.content _) =>
        { m with parts := afterContentFailure m.parts (·.setAttachmentsState .failed) }

/-- `fill` -/
def fillItem (x : AttachmentCrates) (m : Mail) (refreshed : Refreshed) (reply : Reply) : Mail :=
  if m.parts.state ≠ .onDemand then m
  else
    match downloadBacklogItem x m refreshed reply with
    | .ok (list, m') =>
        -- the metadata that came with new keys are not written when the shape is the same
        if sameShape m.parts.attachments list then
          { m with parts := m.parts.fillOnDemandAttachments (contentsOf list)
                   listing := m'.listing }
        else { m' with parts := m.parts.replaceMessageAttachments list }
    | .error (.transport _) => m
    | .error (.permanent _) => { m with parts := m.parts.dropAttachmentParts .failed }
    | .error (.content _) =>
        { m with parts := afterContentFailure m.parts (·.dropAttachmentParts .failed) }

/-- What `store_unsealed_message` does with the manifest of the bundle. -/
def unsealItem (x : AttachmentCrates) (m : Mail) (manifest : Option (List Json)) : Mail :=
  let listed := parseAttachmentManifest (manifest.getD [])
  if listed = [] then { m with bodyCached := true }
  else
    { bodyCached := true
      metadata := (m.metadata.set "attachment_count" (jsonInt listed.length)).set "attachments"
        (attachmentMetaJson listed)
      parts := reconcileListedAttachments x m.parts listed
      listing := listed }

/-! ## Runs -/

/-- What happens to the message. -/
inductive Event where
  | sync (reply : Option Reply)
  | history
  | backlog (refreshed : Refreshed) (reply : Reply) (counts : Bool)
  | fill (refreshed : Refreshed) (reply : Reply)
  | unsealed (manifest : Option (List Json))

/-- One event; a message whose body is cached is not committed again. -/
def step (x : AttachmentCrates) (env : Envelope) (s : Option Mail) : Event → Option Mail
  | .sync reply => if s.any (·.bodyCached) then s else some (syncItem x env reply s)
  | .history => if s.any (·.bodyCached) then s else some (commitPrepared env none true s)
  | .backlog refreshed reply counts => s.map fun m => backfillItem x m refreshed reply counts
  | .fill refreshed reply => s.map fun m => fillItem x m refreshed reply
  | .unsealed manifest => s.map fun m => unsealItem x m manifest

/-- The list comes from a manifest. -/
def FromManifest (listed : List EnvelopeAttachment) : Prop :=
  ∀ e ∈ listed, e.fromManifest = true

/-- An answer with rows has one of every entry of a manifest. -/
def Whole (listed : List EnvelopeAttachment) (reply : Reply) : Prop :=
  FromManifest listed → ∀ rows ∈ reply.toOption, Covers listed rows

/-- The labels of a manifest are such that they come out as they went in: a part with a content
id is marked as inline. -/
def Plain (listed : List EnvelopeAttachment) : Prop :=
  FromManifest listed → InlineMarked listed

/-- No entry has the placeholder as its name. -/
def Named (listed : List EnvelopeAttachment) : Prop :=
  FromManifest listed → ∀ e ∈ listed, e.filename ≠ some attachmentPlaceholderName

/-- The list that a download is made for. -/
def listInForce (m : Mail) (refreshed : Refreshed) : List EnvelopeAttachment :=
  match refreshKeys m refreshed with
  | .ok (_, m') => m'.listing
  | .error _ => m.listing

/-- A list that is read again is the one that the parts on demand show, or the fetched parts have
another shape than these. -/
def Shown (x : AttachmentCrates) (m : Mail) (refreshed : Refreshed) (reply : Reply) : Prop :=
  FromManifest (listInForce m refreshed) →
    Advertised (listInForce m refreshed) m.parts.attachments ∨
      ∀ fetched ∈ (downloadBacklogItem x m refreshed reply).toOption,
        sameShape m.parts.attachments fetched.1 = false

/-- **No answer leaves out a listed attachment**, and no label is one that is replaced. -/
def Complete (x : AttachmentCrates) (env : Envelope) (s : Option Mail) : Event → Prop
  | .sync reply => Plain env.attachments ∧ ∀ r ∈ reply, Whole env.attachments r
  | .history => Plain env.attachments
  | .backlog refreshed reply _ => ∀ m ∈ s, Named m.listing ∧ Plain (listInForce m refreshed) ∧
      Whole (listInForce m refreshed) reply
  | .fill refreshed reply => ∀ m ∈ s, Named m.listing ∧ Plain (listInForce m refreshed) ∧
      Whole (listInForce m refreshed) reply ∧ Shown x m refreshed reply
  | .unsealed manifest => Plain (parseAttachmentManifest (manifest.getD []))

/-! ## The invariant -/

/-- The parts are those of the list. -/
structure PartsOf (x : AttachmentCrates) (listed : List EnvelopeAttachment) (p : Parts) : Prop where
  stored : p.state = .stored → StoredExactly x listed p.attachments
  onDemand : p.state = .onDemand → Advertised listed p.attachments

/-- What holds of a message in every reachable state; the metadata hold its list as long as a
download may need it. -/
structure Kept (x : AttachmentCrates) (env : Envelope) (m : Mail) : Prop where
  object : m.metadata.IsObject
  manifest : FromManifest m.listing → Manifest m.listing
  metadata : m.listing ≠ [] → FromManifest m.listing → m.parts.state ≠ .stored →
    m.metadata.get? "attachments" = some (attachmentMetaJson m.listing)
  parts : m.listing ≠ [] → FromManifest m.listing → PartsOf x m.listing m.parts
  committed : m.bodyCached = false → env.attachments ≠ [] → FromManifest env.attachments →
    m.listing = env.attachments

section Lists

variable {x : AttachmentCrates} {env : Envelope} {m : Mail}

theorem fromManifest_nil : FromManifest [] := fun _ he => absurd he List.not_mem_nil

/-- An entry of `attachment_keys` never claims to be from a manifest. -/
theorem fromManifest_keysEntry {v : Json} {e : EnvelopeAttachment} (h : keysEntry v = some e) :
    e.fromManifest = false := by
  unfold keysEntry at h
  split at h
  · cases Option.some.inj h
    rfl
  · cases h

theorem manifest_parseEnvelope {v : Json} (h : FromManifest (parseEnvelopeAttachments v)) :
    Manifest (parseEnvelopeAttachments v) := by
  unfold parseEnvelopeAttachments at h ⊢
  dsimp only at h ⊢
  split
  · exact manifest_parse _
  · rename_i hlisted
    rw [if_neg hlisted] at h
    have hkeys : ∀ e ∈ (((v.get? "attachment_keys").bind Json.asArray).getD []).filterMap
        keysEntry, e.fromManifest = false := by
      intro e he
      obtain ⟨w, -, hw⟩ := List.mem_filterMap.1 he
      exact fromManifest_keysEntry hw
    -- both halves of the list consist of such entries, so that it must be empty
    have hnone : ∀ e ∈ sortListed (((((v.get? "attachment_keys").bind Json.asArray).getD
        []).filterMap keysEntry |>.filter (·.seq.isSome)).foldl addListed []) ++
        ((((v.get? "attachment_keys").bind Json.asArray).getD []).filterMap keysEntry).filter
          (·.seq.isNone), e.fromManifest = false := by
      intro e he
      rcases List.mem_append.1 he with hkeyed | hplain
      · rcases mem_foldl_addListed _ _ (List.mem_mergeSort.1 hkeyed) with hnil | hmem
        · exact absurd hnil List.not_mem_nil
        · exact hkeys e (List.mem_filter.1 hmem).1
      · exact hkeys e (List.mem_filter.1 hplain).1
    have hempty := List.eq_nil_iff_forall_not_mem.2 fun e he =>
      absurd ((h e he).symm.trans (hnone e he)) (by decide)
    rw [hempty]
    exact ⟨fun _ he => absurd he List.not_mem_nil, List.Pairwise.nil⟩

theorem manifest_attachments (h : FromManifest env.attachments) : Manifest env.attachments := by
  unfold Envelope.attachments at h ⊢
  split
  · exact ⟨fun _ he => absurd he List.not_mem_nil, List.Pairwise.nil⟩
  · rename_i hclear
    rw [if_neg hclear] at h
    exact manifest_parseEnvelope h

theorem asCached_of_ne {e : EnvelopeAttachment}
    (h : e.filename ≠ some attachmentPlaceholderName) : asCached e = e := by
  unfold asCached
  cases hf : e.filename with
  | none => rw [Option.filter_none, ← hf]
  | some f =>
      have hne : f ≠ attachmentPlaceholderName := fun heq => h (hf.trans (congrArg some heq))
      rw [Option.filter_some, if_pos (decide_eq_true hne), ← hf]

end Lists

/-! ## Downloads -/

/-- What a download is made for: the list and the message whose metadata hold it. -/
structure KeysFor (m : Mail) (entries : List EnvelopeAttachment) (m' : Mail) : Prop where
  parts : m'.parts = m.parts
  bodyCached : m'.bodyCached = m.bodyCached
  object : m'.metadata.IsObject
  listing : m.listing ≠ [] → FromManifest m.listing → m'.listing = m.listing
  manifest : FromManifest m'.listing → Manifest m'.listing
  metadata : m'.listing ≠ [] → FromManifest m'.listing →
    m'.metadata.get? "attachments" = some (attachmentMetaJson m'.listing)
  entries : m'.listing ≠ [] → FromManifest m'.listing → entries = m'.listing

section Downloads

variable {x : AttachmentCrates} {env : Envelope} {m m' : Mail} {refreshed : Refreshed}
  {reply : Reply} {entries : List EnvelopeAttachment} {list : List CachedAttachment}

/-- Under its own name every entry of the list comes back from the metadata. -/
theorem Kept.cached (hkept : Kept x env m) (hstate : m.parts.state ≠ .stored)
    (hnamed : Named m.listing) (hne : m.listing ≠ []) (hmanifest : FromManifest m.listing) :
    cachedAttachmentEntries m.metadata = m.listing := by
  have hmeta := hkept.metadata hne hmanifest hstate
  have hnormal := (hkept.manifest hmanifest).normal
  rw [cachedAttachmentEntries_meta hmeta hnormal]
  refine (List.map_congr_left fun e he => ?_).trans (List.map_id _)
  exact asCached_of_ne (hnamed hmanifest e he)

/-- The keys of a manifest are not read again. -/
theorem Kept.keyed (hkept : Kept x env m) (hne : m.listing ≠ [])
    (hmanifest : FromManifest m.listing) : m.listing.all (·.key.isNone) = false := by
  obtain ⟨e, rest, hlisting⟩ := List.exists_cons_of_ne_nil hne
  have he : e ∈ m.listing := hlisting ▸ List.mem_cons_self
  obtain ⟨k, hk, -⟩ := ((hkept.manifest hmanifest).normal e he).key
  rw [hlisting, List.all_cons, hk]
  rfl

/-- The list is written into an object, to which a mark may be added. -/
theorem listed_set {j : Json} (hj : j.IsObject) (entries : List EnvelopeAttachment) (marked : Bool) :
    let counted := (j.set "attachment_count" (jsonInt entries.length)).set "attachments"
      (attachmentMetaJson entries)
    let written := if marked then counted.set "attachments_unverified" (.bool true) else counted
    written.IsObject ∧ written.get? "attachments" = some (attachmentMetaJson entries) := by
  have hcount := Json.isObject_set hj "attachment_count" (jsonInt entries.length)
  have hcounted := Json.isObject_set hcount "attachments" (attachmentMetaJson entries)
  cases marked with
  | false => exact ⟨hcounted, by simp [Json.get?_set hcount]⟩
  | true =>
      refine ⟨Json.isObject_set hcounted _ _, ?_⟩
      simp [Json.get?_set hcounted, Json.get?_set hcount]

theorem mergeAttachmentMeta_spec (metadata : Json) (entries : List EnvelopeAttachment)
    (unsigned : Bool) : (mergeAttachmentMeta metadata entries unsigned).IsObject ∧
      (mergeAttachmentMeta metadata entries unsigned).get? "attachments" =
        some (attachmentMetaJson entries) := by
  cases metadata with
  | object members => exact listed_set (Json.isObject_object members) entries _
  | null => exact listed_set (Json.isObject_object []) entries _
  | bool b => exact listed_set (Json.isObject_object []) entries _
  | number literal => exact listed_set (Json.isObject_object []) entries _
  | string s => exact listed_set (Json.isObject_object []) entries _
  | array items => exact listed_set (Json.isObject_object []) entries _

theorem keysFor_refreshKeys (hkept : Kept x env m) (hstate : m.parts.state ≠ .stored)
    (hnamed : Named m.listing) (h : refreshKeys m refreshed = .ok (entries, m')) :
    KeysFor m entries m' := by
  have hsame : KeysFor m (cachedAttachmentEntries m.metadata) m :=
    { parts := rfl
      bodyCached := rfl
      object := hkept.object
      listing := fun _ _ => rfl
      manifest := hkept.manifest
      metadata := fun hne hm => hkept.metadata hne hm hstate
      entries := hkept.cached hstate hnamed }
  unfold refreshKeys at h
  dsimp only at h
  split at h
  · rename_i hkeyless
    split at h
    · rename_i value sealed
      split at h
      · cases Except.ok.inj h
        obtain ⟨hobject, hattachments⟩ :=
          mergeAttachmentMeta_spec m.metadata (parseEnvelopeAttachments value) sealed
        refine ⟨rfl, rfl, hobject, fun hne hm => ?_, manifest_parseEnvelope,
          fun _ _ => hattachments, fun _ _ => rfl⟩
        rw [hkept.cached hstate hnamed hne hm, hkept.keyed hne hm] at hkeyless
        exact absurd hkeyless Bool.false_ne_true
      · cases Except.ok.inj h
        exact hsame
    · exact nomatch h
    · cases Except.ok.inj h
      exact hsame
  · cases Except.ok.inj h
    exact hsame

/-- What a download brings: the parts of the list that it is made for. -/
structure Downloaded (x : AttachmentCrates) (m m' : Mail) (list : List CachedAttachment) : Prop where
  parts : m'.parts = m.parts
  bodyCached : m'.bodyCached = m.bodyCached
  object : m'.metadata.IsObject
  listing : m.listing ≠ [] → FromManifest m.listing → m'.listing = m.listing
  manifest : FromManifest m'.listing → Manifest m'.listing
  metadata : m'.listing ≠ [] → FromManifest m'.listing →
    m'.metadata.get? "attachments" = some (attachmentMetaJson m'.listing)
  exact : m'.listing ≠ [] → FromManifest m'.listing →
    StoredExactly x m'.listing list ∧ Numbered list

theorem exact_fetch (hm : Manifest entries) (hne : entries ≠ []) (hinline : InlineMarked entries)
    (hcover : ∀ rows ∈ reply.toOption, Covers entries rows)
    (h : fetchAndDecryptAttachments x reply entries = .ok list) :
    StoredExactly x entries list ∧ Numbered list := by
  unfold fetchAndDecryptAttachments at h
  split at h
  · exact nomatch h
  · exact nomatch h
  · exact decryptListedRows_exact hm hne hinline (hcover _ rfl) h

/-- **A download brings exactly the parts of its list.** -/
theorem downloaded_backlogItem (hkept : Kept x env m) (hstate : m.parts.state ≠ .stored)
    (hnamed : Named m.listing) (hplain : Plain (listInForce m refreshed))
    (hwhole : Whole (listInForce m refreshed) reply)
    (h : downloadBacklogItem x m refreshed reply = .ok (list, m')) :
    m'.listing = listInForce m refreshed ∧ Downloaded x m m' list := by
  unfold downloadBacklogItem at h
  split at h
  · exact nomatch h
  · cases hkeys : refreshKeys m refreshed with
    | error e =>
        rw [hkeys] at h
        exact nomatch h
    | ok keys =>
        obtain ⟨entries, m₁⟩ := keys
        rw [hkeys] at h
        change (fetchAndDecryptAttachments x reply entries).map (fun list => (list, m₁)) = _ at h
        cases hfetch : fetchAndDecryptAttachments x reply entries with
        | error e =>
            rw [hfetch] at h
            exact nomatch h
        | ok fetched =>
            rw [hfetch] at h
            cases Except.ok.inj h
            have hfor := keysFor_refreshKeys hkept hstate hnamed hkeys
            have hforce : m'.listing = listInForce m refreshed := by rw [listInForce, hkeys]
            refine ⟨hforce, hfor.parts, hfor.bodyCached, hfor.object, hfor.listing, hfor.manifest,
              hfor.metadata, fun hne hm => ?_⟩
            have hentries := hfor.entries hne hm
            rw [hentries] at hfetch
            rw [← hforce] at hplain hwhole
            exact exact_fetch (hfor.manifest hm) hne (hplain hm) (hwhole hm) hfetch

end Downloads

/-! ## Steps -/

section Steps

variable {x : AttachmentCrates} {env : Envelope} {m m' : Mail} {s : Option Mail}
  {listed : List EnvelopeAttachment} {p : Parts} {list : List CachedAttachment}

theorem partsOf_replace (p : Parts) (hexact : StoredExactly x listed list)
    (hnumbered : Numbered list) : PartsOf x listed (p.replaceMessageAttachments list) := by
  rw [Parts.replaceMessageAttachments, if_pos hnumbered.nodup, sortParts_of_numbered hnumbered]
  exact ⟨fun _ => hexact, by rintro ⟨⟩⟩

/-- Nothing is said of parts that still have to be downloaded, or that never will be. -/
theorem partsOf_incomplete (hstored : p.state ≠ .stored) (honDemand : p.state ≠ .onDemand) :
    PartsOf x listed p :=
  ⟨fun h => absurd h hstored, fun h => absurd h honDemand⟩

theorem partsOf_onDemand (hm : Manifest listed) (count : Nat) {p' : Parts}
    (h : p.storeOnDemandAttachments (onDemandParts listed count) = some p') :
    PartsOf x listed p' := by
  obtain ⟨hstate, hadvertised⟩ := advertised_storeOnDemand hm count h
  exact ⟨fun hstored => absurd (hstate.symm.trans hstored) (by decide), fun _ => hadvertised⟩

theorem partsOf_reconcile (hm : Manifest listed) (hinline : InlineMarked listed) :
    PartsOf x listed (reconcileListedAttachments x p listed) :=
  ⟨(reconcile_spec hm hinline).1, (reconcile_spec hm hinline).2⟩

theorem partsOf_commitParts {downloaded : Option (List CachedAttachment)} (onDemand : Bool)
    (hm : Manifest env.attachments) (hp : PartsOf x env.attachments p)
    (hdown : ∀ list ∈ downloaded, StoredExactly x env.attachments list ∧ Numbered list) :
    PartsOf x env.attachments (commitParts env downloaded onDemand p) := by
  unfold commitParts
  dsimp only
  split
  · rename_i list hlist
    have hmem := (Option.filter_eq_some_iff.1 (Option.filter_eq_some_iff.1 hlist).1).1
    obtain ⟨hexact, hnumbered⟩ := hdown list (Option.mem_def.2 hmem)
    exact partsOf_replace p hexact hnumbered
  · split
    · split
      · exact partsOf_incomplete nofun nofun
      · cases onDemand with
        | false => exact partsOf_incomplete nofun nofun
        | true =>
            rw [if_pos rfl]
            cases hstore : p.storeOnDemandAttachments
                (onDemandParts env.attachments env.expectedAttachmentCount) with
            | none => exact partsOf_incomplete nofun nofun
            | some p' => exact partsOf_onDemand hm _ hstore
    · exact hp

theorem attachments_metadata (hne : env.attachments ≠ []) :
    env.metadata.get? "attachments" = some (attachmentMetaJson env.attachments) := by
  unfold Envelope.metadata
  rw [if_neg hne]
  cases env.unencrypted <;> rfl

/-- A commit writes the list of the envelope, and the parts of it that were downloaded. -/
theorem kept_commit {downloaded : Option (List CachedAttachment)} (onDemand : Bool)
    (hkept : ∀ m ∈ s, Kept x env m) (hbody : s.any (·.bodyCached) = false)
    (hdown : env.attachments ≠ [] → FromManifest env.attachments →
      ∀ list ∈ downloaded, StoredExactly x env.attachments list ∧ Numbered list) :
    Kept x env (commitPrepared env downloaded onDemand s) := by
  refine ⟨trivial, manifest_attachments, fun hne _ _ => attachments_metadata hne,
    fun hne hmanifest => ?_, fun _ _ _ => rfl⟩
  · have hold : PartsOf x env.attachments ((s.map (·.parts)).getD .none) := by
      cases s with
      | none => exact partsOf_incomplete nofun nofun
      | some m =>
          have hm := hkept m rfl
          have hlisting := hm.committed hbody hne hmanifest
          have hparts := hm.parts (hlisting ▸ hne) (hlisting ▸ hmanifest)
          rwa [hlisting] at hparts
    exact partsOf_commitParts onDemand (manifest_attachments hmanifest) hold (hdown hne hmanifest)

/-- A change of the parts alone, while the metadata hold the list. -/
theorem Kept.withParts (hkept : Kept x env m)
    (hmeta : m.listing ≠ [] → FromManifest m.listing →
      m.metadata.get? "attachments" = some (attachmentMetaJson m.listing))
    (hparts : m.listing ≠ [] → FromManifest m.listing → PartsOf x m.listing p) :
    Kept x env { m with parts := p } :=
  ⟨hkept.object, hkept.manifest, fun hne hm _ => hmeta hne hm, hparts, hkept.committed⟩

theorem kept_sync {reply : Option Reply} (hkept : ∀ m ∈ s, Kept x env m)
    (hbody : s.any (·.bodyCached) = false) (hplain : Plain env.attachments)
    (hwhole : ∀ r ∈ reply, Whole env.attachments r) : Kept x env (syncItem x env reply s) := by
  unfold syncItem
  generalize hresult : ((if 0 < env.expectedAttachmentCount ∧ env.unencrypted = false then reply
    else none).map fun reply => fetchAndDecryptAttachments x reply env.attachments) = result
  have hdown : env.attachments ≠ [] → FromManifest env.attachments →
      ∀ list ∈ result.bind Except.toOption,
        StoredExactly x env.attachments list ∧ Numbered list := by
    intro hne hmanifest list hlist
    obtain ⟨fetched, hfetched, hlist⟩ := Option.bind_eq_some_iff.1 hlist
    rw [hfetched] at hresult
    obtain ⟨r, hr, rfl⟩ := Option.map_eq_some_iff.1 hresult
    split at hr
    · cases hfetch : fetchAndDecryptAttachments x r env.attachments with
      | error e =>
          rw [hfetch] at hlist
          exact nomatch hlist
      | ok list' =>
          rw [hfetch] at hlist
          cases Option.some.inj hlist
          exact exact_fetch (manifest_attachments hmanifest) hne (hplain hmanifest)
            (hwhole r hr hmanifest) hfetch
    · exact nomatch hr
  have hcommit := kept_commit false hkept hbody hdown
  dsimp only
  split
  · exact hcommit.withParts (fun hne _ => attachments_metadata hne)
      fun _ _ => partsOf_incomplete nofun nofun
  · refine hcommit.withParts (fun hne _ => attachments_metadata hne) fun hne hm => ?_
    have hparts := hcommit.parts hne hm
    exact ⟨hparts.stored, hparts.onDemand⟩
  · exact hcommit

/-- A failure of the content leaves the parts as they are, or gives them up. -/
theorem partsOf_afterContentFailure {giveUp : Parts → Parts}
    (hgiveUp : ∀ p, (giveUp p).state = .failed) (hp : PartsOf x listed p) :
    PartsOf x listed (afterContentFailure p giveUp) := by
  unfold afterContentFailure
  split
  · apply partsOf_incomplete
    · rw [hgiveUp]
      exact nofun
    · rw [hgiveUp]
      exact nofun
  · exact ⟨hp.stored, hp.onDemand⟩

/-- The list of a download takes the place of the one before it. -/
theorem Downloaded.kept (hkept : Kept x env m) (hdown : Downloaded x m m' list) {metadata : Json}
    (hobject : metadata.IsObject)
    (hmeta : p.state ≠ .stored → metadata = m'.metadata)
    (hparts : m'.listing ≠ [] → FromManifest m'.listing → PartsOf x m'.listing p) :
    Kept x env ⟨m.bodyCached, metadata, p, m'.listing⟩ := by
  refine ⟨hobject, hdown.manifest, fun hne hm hstate => ?_, hparts, fun hbody hne hm => ?_⟩
  · change metadata.get? "attachments" = _
    rw [hmeta hstate]
    exact hdown.metadata hne hm
  · have hlisting := hkept.committed hbody hne hm
    change m'.listing = env.attachments
    rw [← hlisting]
    exact hdown.listing (hlisting ▸ hne) (hlisting ▸ hm)

theorem kept_backfill {refreshed : Refreshed} {reply : Reply} (counts : Bool)
    (hkept : Kept x env m) (hnamed : Named m.listing) (hplain : Plain (listInForce m refreshed))
    (hwhole : Whole (listInForce m refreshed) reply) :
    Kept x env (backfillItem x m refreshed reply counts) := by
  unfold backfillItem
  split
  · exact hkept
  · rename_i hstate
    have hpending : m.parts.state = .pending := not_not.1 hstate
    have hopen : m.parts.state ≠ .stored := fun h => nomatch hpending.symm.trans h
    have hmeta := fun hne hm => hkept.metadata hne hm hopen
    have hbumped : m.listing ≠ [] → FromManifest m.listing →
        PartsOf x m.listing m.parts.bumpAttachmentAttempts :=
      fun hne hm => ⟨(hkept.parts hne hm).stored, (hkept.parts hne hm).onDemand⟩
    split
    · rename_i list m' hdownload
      obtain ⟨-, hdown⟩ := downloaded_backlogItem hkept hopen hnamed hplain hwhole hdownload
      have hkept' := hdown.kept hkept hdown.object (p := m.parts.replaceMessageAttachments list)
        (fun _ => rfl) fun hne hm => partsOf_replace _ (hdown.exact hne hm).1 (hdown.exact hne hm).2
      rwa [← hdown.bodyCached] at hkept'
    · split
      · exact hkept.withParts hmeta hbumped
      · exact hkept
    · exact hkept.withParts hmeta fun _ _ => partsOf_incomplete nofun nofun
    · exact hkept.withParts hmeta fun hne hm =>
        partsOf_afterContentFailure (fun _ => rfl) (hkept.parts hne hm)

theorem kept_fill {refreshed : Refreshed} {reply : Reply} (hkept : Kept x env m)
    (hnamed : Named m.listing) (hplain : Plain (listInForce m refreshed))
    (hwhole : Whole (listInForce m refreshed) reply) (hshown : Shown x m refreshed reply) :
    Kept x env (fillItem x m refreshed reply) := by
  unfold fillItem
  split
  · exact hkept
  · rename_i hstate
    have honDemand : m.parts.state = .onDemand := not_not.1 hstate
    have hopen : m.parts.state ≠ .stored := by
      rw [honDemand]
      decide
    have hmeta := fun hne hm => hkept.metadata hne hm hopen
    split
    · rename_i list m' hdownload
      obtain ⟨hforce, hdown⟩ := downloaded_backlogItem hkept hopen hnamed hplain hwhole hdownload
      split
      · rename_i hshape
        refine hdown.kept hkept hkept.object (fun hne => absurd ?_ hne) fun hne hm => ?_
        · rw [Parts.fillOnDemandAttachments, if_neg hstate]
        · -- the labels stay, so that they have to be those of the list
          have hadvertised : Advertised m'.listing m.parts.attachments := by
            rw [hforce] at hm ⊢
            rcases hshown hm with h | hother
            · exact h
            · have hfalse := hother (list, m') (by rw [hdownload]; rfl)
              exact absurd (hshape.symm.trans hfalse) (by decide)
          have hexact := hdown.exact hne hm
          refine ⟨fun _ => ?_, fun h => ?_⟩
          · rw [← hforce] at hplain
            exact exact_fillOnDemand (hdown.manifest hm) (hplain hm) honDemand hadvertised hshape
              hexact.1 hexact.2
          · rw [Parts.fillOnDemandAttachments, if_neg hstate] at h
            cases h
      · have hkept' := hdown.kept hkept hdown.object (p := m.parts.replaceMessageAttachments list)
          (fun _ => rfl)
          fun hne hm => partsOf_replace _ (hdown.exact hne hm).1 (hdown.exact hne hm).2
        rwa [← hdown.bodyCached] at hkept'
    · exact hkept
    · exact hkept.withParts hmeta fun _ _ => partsOf_incomplete (by rintro ⟨⟩) (by rintro ⟨⟩)
    · exact hkept.withParts hmeta fun hne hm =>
        partsOf_afterContentFailure (fun _ => rfl) (hkept.parts hne hm)

theorem kept_unseal {manifest : Option (List Json)} (hkept : Kept x env m)
    (hplain : Plain (parseAttachmentManifest (manifest.getD []))) :
    Kept x env (unsealItem x m manifest) := by
  have hm := manifest_parse (manifest.getD [])
  unfold unsealItem
  dsimp only
  split
  · exact ⟨hkept.object, hkept.manifest, hkept.metadata, hkept.parts, nofun⟩
  · have hcount := Json.isObject_set hkept.object "attachment_count"
      (jsonInt (parseAttachmentManifest (manifest.getD [])).length)
    refine ⟨Json.isObject_set hcount _ _, fun _ => hm, fun _ _ _ => ?_, fun _ hmanifest => ?_,
      nofun⟩
    · rw [Json.get?_set hcount, if_pos rfl]
    · exact partsOf_reconcile hm (hplain hmanifest)

/-- **Every step keeps the invariant** in which no answer leaves out a listed attachment. -/
theorem kept_step {e : Event} (hkept : ∀ m ∈ s, Kept x env m) (hok : Complete x env s e) :
    ∀ m ∈ step x env s e, Kept x env m := by
  intro m hm
  cases e with
  | sync reply =>
      unfold step at hm
      dsimp only at hm
      split at hm
      · exact hkept m hm
      · rename_i hbody
        rw [← Option.some.inj hm]
        exact kept_sync hkept (Bool.eq_false_iff.2 hbody) hok.1 hok.2
  | history =>
      unfold step at hm
      dsimp only at hm
      split at hm
      · exact hkept m hm
      · rename_i hbody
        rw [← Option.some.inj hm]
        exact kept_commit true hkept (Bool.eq_false_iff.2 hbody) fun _ _ => nofun
  | backlog refreshed reply counts =>
      obtain ⟨m₀, hm₀, rfl⟩ := Option.map_eq_some_iff.1 hm
      obtain ⟨hnamed, hplain, hwhole⟩ := hok m₀ hm₀
      exact kept_backfill counts (hkept m₀ hm₀) hnamed hplain hwhole
  | fill refreshed reply =>
      obtain ⟨m₀, hm₀, rfl⟩ := Option.map_eq_some_iff.1 hm
      obtain ⟨hnamed, hplain, hwhole, hshown⟩ := hok m₀ hm₀
      exact kept_fill (hkept m₀ hm₀) hnamed hplain hwhole hshown
  | unsealed manifest =>
      obtain ⟨m₀, hm₀, rfl⟩ := Option.map_eq_some_iff.1 hm
      exact kept_unseal (hkept m₀ hm₀) hok

end Steps

/-! ## Every stored part is a listed one -/

/-- What the cached form of an entry is promised to keep. -/
def keptInCache (e : EnvelopeAttachment) : Option String × Option String × Option Int × Bool :=
  (e.key, e.sha256, e.size, e.fromManifest)

/-- A part of one octet under the key of zeros, as the server keeps it. -/
def sealedRow : AttachmentResponse where
  encryptedData := "j+AcTJTG8lJOvEMtRgKDNcU="
  dataNonce := "AAAAAAAAAAAAAAAA"
  encryptedMeta := ""
  metaNonce := ""
  seqNum := 0

/-- The key of zeros. -/
def zeroKey : String := "AAAAAAAAAAAAAAAAAAAAAAAAAAAAAAAAAAAAAAAAAAA="

/-- The crates on this row. -/
def zeroKeyCrates : AttachmentCrates where
  decode text :=
    if text = [] then .ok []
    else if text = zeroKey.toList then .ok (List.replicate 32 0)
    else if text = sealedRow.dataNonce.toList then .ok (List.replicate 12 0)
    else if text = sealedRow.encryptedData.toList then
      .ok [143, 224, 28, 76, 148, 198, 242, 82, 78, 188, 67, 45, 70, 2, 131, 53, 197]
    else .error "Invalid byte"
  decryptGcm key nonce sealed aad :=
    if key = List.replicate 32 0 ∧ nonce = List.replicate 12 0 ∧
        sealed = [143, 224, 28, 76, 148, 198, 242, 82, 78, 188, 67, 45, 70, 2, 131, 53, 197] ∧
        aad = attachmentDataAad 0 then some [65]
    else none
  fromSlice _ := none
  fromStr _ := none
  sha256 _ := Vector.replicate 32 0
  decryptOwnPgp _ := none
  decryptPbkdf2Envelope _ := none

/-- An entry of a manifest with this number and name. -/
def entryJson (seq name : String) : Json :=
  .object [("seq", .number seq), ("filename", .string name), ("content_type", .string "text/plain"),
    ("size", .number "1"), ("key", .string zeroKey)]

/-- An encrypted message whose manifest has these entries. -/
def listingEnvelope (entries : List Json) : Envelope where
  value := .object [("attachment_manifest", .array entries)]
  hasBody := true
  unencrypted := false
  attachmentCount := none
  hasAttachments := none

/-- The entry that is read of it. -/
def entryOf (seq : Int) (name : String) : EnvelopeAttachment where
  seq := some seq
  filename := some name
  contentType := "text/plain"
  contentId := none
  size := some 1
  key := some zeroKey
  sha256 := none
  isInline := some false
  fromManifest := true

theorem attachments_listingEnvelope {entries : List Json} {listed : List EnvelopeAttachment}
    (hne : listed ≠ []) (hread : (entries.filterMap manifestEntry).foldl addListed [] = listed)
    (hsorted : listed.Pairwise fun a b => decide (a.seq.getD 0 ≤ b.seq.getD 0) = true) :
    (listingEnvelope entries).attachments = listed := by
  have hparse : parseAttachmentManifest entries = listed := by
    rw [parseAttachmentManifest, hread]
    exact List.mergeSort_of_pairwise hsorted
  change (if parseAttachmentManifest entries ≠ [] then parseAttachmentManifest entries else _) = _
  rw [hparse, if_pos hne]

theorem attachments_one :
    (listingEnvelope [entryJson "0" "a.txt"]).attachments = [entryOf 0 "a.txt"] :=
  attachments_listingEnvelope (List.cons_ne_nil _ _) (by decide +kernel)
    (List.pairwise_singleton _ _)

theorem attachments_two : (listingEnvelope [entryJson "0" "a.txt", entryJson "1" "b.txt"]).attachments =
    [entryOf 0 "a.txt", entryOf 1 "b.txt"] :=
  attachments_listingEnvelope (List.cons_ne_nil _ _) (by decide +kernel) (by decide)

/-- The part that the row is decrypted into. -/
def storedOctet : CachedAttachment where
  seq := 0
  name := "a.txt"
  contentType := "text/plain"
  contentId := none
  isInline := false
  size := 1
  data := [65]

theorem decryptListedRows_sealedRow (listed : List EnvelopeAttachment)
    (hfirst : listed = [entryOf 0 "a.txt"] ∨ listed = [entryOf 0 "a.txt", entryOf 1 "b.txt"]) :
    decryptListedRows zeroKeyCrates [sealedRow] listed = .ok [storedOctet] := by
  have hrows : decryptRows zeroKeyCrates listed [] [(sealedRow, 0)] = .ok [storedOctet] := by
    rcases hfirst with rfl | rfl
    · decide +kernel
    · decide +kernel
  rw [decryptListedRows, List.zipIdx_singleton, hrows]
  exact congrArg Except.ok (List.mergeSort_singleton _)

theorem length_le_expectedAttachmentCount (env : Envelope) :
    env.attachments.length ≤ env.expectedAttachmentCount := by
  unfold Envelope.expectedAttachmentCount
  dsimp only
  split
  · rename_i hempty
    rw [hempty.1]
    exact Nat.le_refl 0
  · exact (Nat.le_max_left _ _).trans (Nat.le_max_left _ _)

/-- The inline download of the row, for a message whose manifest lists it. -/
theorem sync_sealedRow {entries : List Json} {listed : List EnvelopeAttachment}
    (hread : (listingEnvelope entries).attachments = listed)
    (hfirst : listed = [entryOf 0 "a.txt"] ∨ listed = [entryOf 0 "a.txt", entryOf 1 "b.txt"]) :
    exec (step zeroKeyCrates (listingEnvelope entries)) none [.sync (some (.ok [sealedRow]))] =
      some ⟨true, (listingEnvelope entries).metadata, ⟨.stored, [storedOctet], 0⟩, listed⟩ := by
  have hcount : 0 < (listingEnvelope entries).expectedAttachmentCount := by
    refine lt_of_lt_of_le ?_ (length_le_expectedAttachmentCount _)
    rw [hread]
    rcases hfirst with rfl | rfl
    · exact Nat.zero_lt_one
    · exact Nat.zero_lt_two
  have hfetch : fetchAndDecryptAttachments zeroKeyCrates (.ok [sealedRow])
      (listingEnvelope entries).attachments = .ok [storedOctet] := by
    rw [hread]
    exact decryptListedRows_sealedRow listed hfirst
  change some (syncItem zeroKeyCrates (listingEnvelope entries) (some (.ok [sealedRow])) none) = _
  unfold syncItem
  rw [if_pos ⟨hcount, rfl⟩, Option.map_some, hfetch]
  change some (commitPrepared _ (some [storedOctet]) false none) = _
  have hparts : commitParts (listingEnvelope entries) (some [storedOctet]) false .none =
      ⟨.stored, sortParts [storedOctet], 0⟩ := rfl
  unfold commitPrepared
  rw [← hread]
  exact congrArg (fun p => some (Mail.mk true _ p _))
    (hparts.trans (congrArg (Parts.mk .stored · 0) (List.mergeSort_singleton _)))

end AsterBridge.Sync.Attachments
