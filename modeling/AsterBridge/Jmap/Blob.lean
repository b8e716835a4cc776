import AsterBridge.Pop3.Maildrop

/-!
# Blobs of messages

What JMAP serves of a cached message: `serialize_email` lists the message and its parts with blob
ids and sizes, and `download` gives the bytes of a blob id. IMAP serves the rendering of the same
message.

The body part is listed with the blob id of the whole message, so `body_part_is_the_message`: for
no message does every listed blob id give the octets it stands for. The other parts do
(`download_attachment`), and so does a message with attachments (`download_message`).
-/

set_option autoImplicit false

namespace AsterBridge.Jmap.Blob

open AsterBridge.Lib AsterBridge.Lib.Text AsterBridge.Lib.Lines AsterBridge.Render

/-! ## The writer of JMAP -/

/-- `looks_like_headers` -/
def looksLikeHeaders (s : String) : Bool :=
  let t := trimStart s.toList
  t.head? != some '\x7b' && (t.takeWhile (· != '\n')).contains ':'

/-- `parse_is_html` -/
def parseIsHtml (x : RenderCrates) (raw : Option String) : Bool :=
  (((raw.bind x.fromStr).bind (Json.get? · "is_html")).bind Json.asBool).getD false

/-- `parse_message_id` -/
def parseMessageId (x : RenderCrates) (raw : Option String) : Option String :=
  ((raw.bind x.fromStr).bind (Json.get? · "message_id")).bind Json.asStr

/-- `sanitize_header_value` -/
def sanitizeHeaderValue (s : String) : List Char :=
  s.toList.filter fun c => c != '\r' && c != '\n' && c != '\x00'

/-- The line breaks of `sanitize_header_block`, each as one line feed. -/
def normalizeBreaks : List Char → List Char
  | '\r' :: '\n' :: rest => '\n' :: normalizeBreaks rest
  | '\r' :: rest => '\n' :: normalizeBreaks rest
  | c :: rest => c :: normalizeBreaks rest
  | [] => []

/-- `sanitize_header_block` -/
def sanitizeHeaderBlock (raw : String) : List Char :=
  let lines := ((normalizeBreaks raw.toList).splitOn '\n').takeWhile (· != [])
  lines.flatMap fun line => line.filter (· != '\x00') ++ crlf

/-- A header that `build_rfc5322` writes where the message has the field. -/
def headerOf (label : String) (value : Option String) : List Char :=
  optionalHeader label (value.map sanitizeHeaderValue)

/-- `build_rfc5322` -/
def buildRfc5322 (x : RenderCrates) (m : StoredMessage) (attachments : List CachedAttachment) :
    List Char :=
  match m.rawHeaders.filter looksLikeHeaders with
  | some h => sanitizeHeaderBlock h ++ crlf ++ m.body
  | none =>
      if attachments ≠ [] then renderText x m attachments
      else
        headerOf "Date" m.date ++ headerOf "From" m.sender ++ headerOf "To" m.recipients ++
          headerOf "Subject" m.subject ++
          optionalHeader "Message-ID" ((parseMessageId x m.rawHeaders).map fun id =>
            '<' :: sanitizeHeaderValue id ++ ['>']) ++
          headerLine "MIME-Version" "1.0".toList ++
          textContentType (parseIsHtml x m.rawHeaders) ++
          headerLine "Content-Transfer-Encoding" "8bit".toList ++ crlf ++ m.body

/-! ## Blob ids -/

/-- `rsplit_once` -/
def rsplitOnce (needle s : List Char) : Option (List Char × List Char) :=
  (find needle.reverse s.reverse).map fun i =>
    ((s.reverse.drop (i + needle.length)).reverse, (s.reverse.take i).reverse)

/-- `attachment_blob_id` -/
def attachmentBlobId (asterId : String) (seq : Int) : String :=
  asterId ++ "_att_" ++ toString seq

/-- `parse_attachment_blob_id` -/
def parseAttachmentBlobId (blobId : String) : Option (String × Int) :=
  (rsplitOnce "_att_".toList blobId.toList).bind fun (asterId, seq) =>
    if asterId = [] then none
    else ((parseInt (String.ofList seq)).filter fun n => -2 ^ 63 ≤ n ∧ n < 2 ^ 63).map fun n =>
      (String.ofList asterId, n)

/-! ## Download -/

/-- What `download` and `Email/get` read of the database: `jmap_blob_get`, `get_cached_message`
and `get_message_attachments`, whose rows have the key `(aster_id, seq)`. -/
structure MailDb where
  jmapBlobGet : String → Option (Bytes × Option String)
  getCachedMessage : String → Option StoredMessage
  getMessageAttachments : String → List CachedAttachment
  asterId_eq : ∀ id m, getCachedMessage id = some m → m.asterId = id
  seq_nodup : ∀ id, ((getMessageAttachments id).map (·.seq)).Nodup

/-- `AttachmentFill` -/
inductive AttachmentFill where
  | ready
  | replaced
  | unavailable
deriving DecidableEq, Repr

/-- The download of attachments on demand, with what it leaves in the database. -/
abbrev Fill := String → MailDb → MailDb × AttachmentFill

/-- `is_on_demand` -/
def isOnDemand (db : MailDb) (asterId : String) : Bool :=
  (db.getCachedMessage asterId).any fun m => m.attachmentsState = .onDemand

/-- `ensure_attachments` -/
def ensureAttachments (fill : Fill) (db : MailDb) (asterId : String) : MailDb × AttachmentFill :=
  if isOnDemand db asterId then fill asterId db else (db, .ready)

/-- `attachments_ready`, with the database after it. -/
def attachmentsReady (fill : Fill) (db : MailDb) (asterId : String) : MailDb × Bool :=
  let (db, outcome) := ensureAttachments fill db asterId
  (db, outcome ≠ .unavailable && !isOnDemand db asterId)

/-- A response of `download`. -/
inductive Response where
  | blob (data : Bytes) (contentType : String)
  | notFound
  | unavailable

/-- The content of a response. -/
def Response.data? : Response → Option Bytes
  | .blob data _ => some data
  | _ => none

/-- `download`, for the type that the request asks for. -/
def download (x : RenderCrates) (fill : Fill) (accept : Option String) (db : MailDb)
    (blobId : String) : Response :=
  let respond (data : Bytes) (storedType : String) := Response.blob data (accept.getD storedType)
  match db.jmapBlobGet blobId with
  | some (data, ctype) => respond data (ctype.getD "application/octet-stream")
  | none =>
      match parseAttachmentBlobId blobId with
      | some (asterId, seq) =>
          let (db, ready) := attachmentsReady fill db asterId
          if ready then
            match (db.getMessageAttachments asterId).find? (·.seq = seq) with
            | some a => respond a.data
                (if a.contentType.toList.contains '/' then a.contentType
                  else "application/octet-stream")
            | none => .notFound
          else .unavailable
      | none =>
          match db.getCachedMessage blobId with
          | none => .notFound
          | some m =>
              let (db, ready) := attachmentsReady fill db m.asterId
              if ready then
                match db.getCachedMessage blobId with
                | none => .notFound
                | some m =>
                    let attachments := if m.attachmentsState = .stored then
                      db.getMessageAttachments m.asterId else []
                    respond (Utf8.encode (String.ofList (buildRfc5322 x m attachments)))
                      "message/rfc822"
              else .unavailable

/-! ## Email/get -/

/-- A part that an Email lists. -/
structure EmailPart where
  partId : String
  blobId : String
  size : Int
  type : String
  disposition : Option String
  name : Option String
  cid : Option (List Char)

/-- What an Email says of its octets. -/
structure Email where
  id : String
  blobId : String
  size : Int
  body : EmailPart
  attachments : List EmailPart

/-- The body part of `serialize_email`. -/
def bodyPart (x : RenderCrates) (m : StoredMessage) : EmailPart where
  partId := "1"
  blobId := m.asterId
  size := m.size
  type := if parseIsHtml x m.rawHeaders then "text/html" else "text/plain"
  disposition := none
  name := none
  cid := none

/-- An attachment part of `serialize_email`. -/
def attachmentPart (asterId : String) (a : CachedAttachment) (i : Nat) : EmailPart where
  partId := toString (i + 2)
  blobId := attachmentBlobId asterId a.seq
  size := a.size
  type := a.contentType
  disposition := some (if a.isInline && a.contentId.isSome then "inline" else "attachment")
  name := some a.name
  cid := a.contentId.map fun c => (c.toList.dropWhile (· == '<')).rdropWhile (· == '>')

/-- `serialize_email` for the blob ids and sizes. -/
def serializeEmail (x : RenderCrates) (m : StoredMessage) (attachments : List CachedAttachment) :
    Email where
  id := m.asterId
  blobId := m.asterId
  size := if attachments = [] then m.size else renderedSize x m attachments
  body := bodyPart x m
  attachments := attachments.zipIdx.map fun (a, i) => attachmentPart m.asterId a i

/-- `Email/get` for a cached message, whose attachments are read without their data. -/
def emailOf (x : RenderCrates) (db : MailDb) (m : StoredMessage) : Email :=
  serializeEmail x m (if Pop3.attachmentPartsKnown m.attachmentsState then
    (db.getMessageAttachments m.asterId).map Pop3.listedAttachment else [])

/-! ## The same message -/

/-- The octets of a part of the rendering, as they stand there. -/
def content (r : Rendered) (p : RenderedPart) : Bytes :=
  ((Utf8.encode (String.ofList r.text)).take p.bodyEnd).drop p.bodyStart

/-- The blob of a listed part has its size and is `data`. -/
def Gives (x : RenderCrates) (fill : Fill) (accept : Option String) (db : MailDb)
    (part : EmailPart) (data : Bytes) : Prop :=
  (download x fill accept db part.blobId).data? = some data ∧ part.size = data.length

/-- **JMAP serves what IMAP serves**: the message is its rendering, the body part is the text
part of the rendering, which has no transfer encoding, and each attachment part is what one of the
other parts encodes. -/
structure SameMessage (x : RenderCrates) (fill : Fill) (accept : Option String) (db : MailDb)
    (m : StoredMessage) : Prop where
  message : (download x fill accept db (emailOf x db m).blobId).data? =
    some (Utf8.encode (String.ofList (renderText x m (db.getMessageAttachments m.asterId))))
  size : (emailOf x db m).size = utf8Len (renderText x m (db.getMessageAttachments m.asterId))
  body : ∃ p, (renderWith x m (db.getMessageAttachments m.asterId) true true).parts.head? = some p ∧
    Gives x fill accept db (emailOf x db m).body
      (content (renderWith x m (db.getMessageAttachments m.asterId) true true) p)
  attachments : ∀ part ∈ (emailOf x db m).attachments, ∃ data, Gives x fill accept db part data ∧
    ∃ p ∈ (renderWith x m (db.getMessageAttachments m.asterId) true true).parts,
      content (renderWith x m (db.getMessageAttachments m.asterId) true true) p =
        Utf8.encode (String.ofList (base64Lines (x.base64 data)))

/-! ## Parts start after the headers -/

/-- What a writer adds: text after the text there was, and parts after the parts there were. -/
structure Grows (c c' : Ctx) : Prop where
  buf : c.out.buf <+: c'.out.buf
  len : c.out.len ≤ c'.out.len
  parts : ∀ p ∈ c'.parts, p ∈ c.parts ∨ c.out.len ≤ p.bodyStart

section Writers

variable {x : RenderCrates} {t : TextPart} {c c' c'' : Ctx}

theorem Grows.refl (c : Ctx) : Grows c c :=
  ⟨List.prefix_refl _, Nat.le_refl _, fun _ hp => Or.inl hp⟩

theorem Grows.trans (h : Grows c c') (h' : Grows c' c'') : Grows c c'' where
  buf := h.buf.trans h'.buf
  len := h.len.trans h'.len
  parts := by
    intro p hp
    rcases h'.parts p hp with hold | hnew
    · exact h.parts p hold
    · exact Or.inr (h.len.trans hnew)

theorem Grows.push (h : Grows c c') (s : List Char) :
    Grows c { c' with out := c'.out.push s } := by
  refine h.trans ⟨?_, Nat.le_add_right _ _, fun _ hp => Or.inl hp⟩
  simp only [Out.push]
  split
  · exact List.prefix_append _ _
  · exact List.prefix_refl _

theorem Grows.pushBase64 (h : Grows c c') (x : RenderCrates) (data : Bytes) (hint : Nat) :
    Grows c { c' with out := c'.out.pushBase64 x data hint } := by
  refine h.trans ⟨?_, ?_, fun _ hp => Or.inl hp⟩
  · simp only [Out.pushBase64]
    split
    · exact List.prefix_refl _
    · split
      · exact List.prefix_append _ _
      · exact List.prefix_refl _
  · simp only [Out.pushBase64]
    split
    · exact Nat.le_add_right _ _
    · split
      · exact Nat.le_add_right _ _
      · exact Nat.le_add_right _ _

theorem Grows.text (h : Grows c c') (t : TextPart) :
    Grows c { c' with out := t.write c'.out } := by
  have hlonger : ∀ n, Grows c { c' with out := { c'.out with len := c'.out.len + n } } := by
    intro n
    exact h.trans ⟨List.prefix_refl _, Nat.le_add_right _ _, fun _ hp => Or.inl hp⟩
  unfold TextPart.write
  dsimp only
  cases t.body with
  | none => exact (hlonger _).push _
  | some b =>
      dsimp only
      split
      · exact (h.push _).push _
      · exact (hlonger _).push _

/-- A part is noted with a body that starts after what there was. -/
theorem Grows.note (h : Grows c c') {section_ : List Char} {headerStart headerEnd : Nat}
    (hend : c.out.len ≤ headerEnd) : Grows c (c'.note section_ headerStart headerEnd) where
  buf := h.buf
  len := h.len
  parts := by
    intro p hp
    rcases List.mem_append.1 hp with hold | hnew
    · exact h.parts p hold
    · rw [List.mem_singleton.1 hnew]
      exact Or.inr hend

theorem grows_textPart (c : Ctx) (section_ header : List Char) :
    Grows c (c.writeTextPart t section_ header).1 := by
  have hheader := (Grows.refl c).push header
  exact (hheader.text t).note hheader.len

theorem grows_attachment (c : Ctx) (section_ : List Char) (a : CachedAttachment) (inline : Bool) :
    Grows c (c.writeAttachment x section_ a inline).1 := by
  have hheader := (Grows.refl c).push (attachmentHeaders x a inline)
  exact (hheader.pushBase64 x _ _).note hheader.len

theorem Grows.close (h : Grows c c') {section_ boundary : List Char} {subtype : String}
    {headerStart headerEnd : Nat} {structures : List (List Char)} (hend : c.out.len ≤ headerEnd) :
    Grows c (c'.closeMultipart section_ subtype boundary headerStart headerEnd structures).1 := by
  have hclosed := h.push (Ctx.closingLine boundary)
  unfold Ctx.closeMultipart
  dsimp only
  split
  · exact hclosed
  · exact hclosed.note hend

mutual

theorem grows_child (c : Ctx) (section_ : List Char) (child : Child) :
    Grows c (c.writeChild x t section_ child).1 := by
  cases child with
  | text header =>
      rw [Ctx.writeChild]
      exact grows_textPart c section_ header
  | attachment a inline =>
      rw [Ctx.writeChild]
      exact grows_attachment c section_ a inline
  | related boundary children =>
      have hheader := (Grows.refl c).push (Ctx.relatedHeader boundary)
      have hchildren := grows_children
        { c with out := c.out.push (Ctx.relatedHeader boundary) } section_ boundary 0 children
      rw [Ctx.writeChild]
      exact (hheader.trans hchildren).close hheader.len

/-- The children of a multipart only add. -/
theorem grows_children (c : Ctx) (section_ boundary : List Char) (idx : Nat)
    (children : List Child) :
    Grows c (c.writeChildren x t section_ boundary idx children).1 := by
  cases children with
  | nil =>
      rw [Ctx.writeChildren]
      exact Grows.refl c
  | cons child rest =>
      have hline := (Grows.refl c).push (Ctx.boundaryLine boundary)
      have hchild := hline.trans (grows_child
        { c with out := c.out.push (Ctx.boundaryLine boundary) } (Ctx.childSection section_ idx)
        child)
      rw [Ctx.writeChildren]
      exact (hchild.push crlf).trans (grows_children _ section_ boundary (idx + 1) rest)

end

end Writers

section Rendering

variable {x : RenderCrates} {m : StoredMessage} {attachments : List CachedAttachment}

/-- **The message starts with headers that no part has in its body.** -/
theorem renderWith_headers : ∃ header, header ≠ [] ∧
    header <+: (renderWith x m attachments true true).text ∧
    ∀ p ∈ (renderWith x m attachments true true).parts, utf8Len header ≤ p.bodyStart := by
  have hne : ∀ s, topHeaders x m (metadataOf x m) ++ s ≠ [] := by
    intro s hnil
    have htop := (List.append_eq_nil_iff.1 hnil).1
    unfold topHeaders headerLine at htop
    exact absurd (List.append_eq_nil_iff.1 htop).2 (by simp [crlf])
  by_cases hparts : attachments = []
  · let header := topHeaders x m (metadataOf x m) ++ textHeader (m.isHtml x)
    let start : Ctx := ⟨(m.writer true).push header, []⟩
    have hlen : start.out.len = utf8Len header := Nat.zero_add _
    have hgrows := @Grows.note _ _ ((Grows.refl start).text (m.textPart x true)) ['1'] 0 _
      (Nat.le_refl _)
    refine ⟨header, hne _, ?_⟩
    unfold renderWith
    extract_lets metadata bodyPresent isHtml note text ctx top
    rw [if_pos hparts]
    refine ⟨hgrows.buf, fun p hp => ?_⟩
    rcases hgrows.parts p hp with hold | hnew
    · exact absurd hold List.not_mem_nil
    · exact hlen ▸ hnew
  · let parts := outerParts x m.asterId (m.isHtml x) attachments
    let boundary := boundaryFor x m.asterId 0
    let header := topHeaders x m (metadataOf x m) ++ multipartHeader parts.1 boundary
    let start : Ctx := ⟨(m.writer true).push header, []⟩
    have hlen : start.out.len = utf8Len header := Nat.zero_add _
    have hgrows := (@grows_children x (m.textPart x true) start [] boundary 0 parts.2).push
      (Ctx.closingLine boundary)
    refine ⟨header, hne _, ?_⟩
    unfold renderWith
    extract_lets metadata bodyPresent isHtml note text ctx top
    rw [if_neg hparts]
    refine ⟨hgrows.buf, fun p hp => ?_⟩
    rcases hgrows.parts p hp with hold | hnew
    · exact absurd hold List.not_mem_nil
    · exact hlen ▸ hnew

theorem length_encode (s : List Char) : (Utf8.encode (String.ofList s)).length = utf8Len s := by
  rw [Utf8.encode_eq_flatMap, String.toList_ofList, utf8Len]
  induction s with
  | nil => rfl
  | cons c s ih =>
      rw [List.flatMap_cons, List.length_append, ih, List.map_cons, List.sum_cons,
        String.length_utf8EncodeChar]

/-- A part of the rendering is shorter than the message. -/
theorem length_content_lt {p : RenderedPart}
    (hp : p ∈ (renderWith x m attachments true true).parts) :
    (content (renderWith x m attachments true true) p).length <
      (Utf8.encode (String.ofList (renderText x m attachments))).length := by
  obtain ⟨header, hne, hprefix, hstart⟩ := @renderWith_headers x m attachments
  have hpos : 0 < utf8Len header := (List.length_pos_iff.2 hne).trans_le (le_utf8Len header)
  have hlen : utf8Len header ≤ utf8Len (renderText x m attachments) := by
    obtain ⟨rest, hrest⟩ := hprefix
    rw [renderText, ← hrest, utf8Len_append]
    exact Nat.le_add_right _ _
  have hbody := hstart p hp
  rw [content, List.length_drop, List.length_take, length_encode, length_encode]
  unfold renderText at hlen ⊢
  omega

end Rendering

/-- **The body part is the message**: it has the blob id of the Email, so one of the two gets the
octets of the other, whatever the database holds. -/
theorem body_part_is_the_message (x : RenderCrates) (fill : Fill) (accept : Option String)
    (db : MailDb) (m : StoredMessage) : ¬ SameMessage x fill accept db m := by
  intro h
  obtain ⟨p, hp, hgives, _⟩ := h.body
  have hboth := Option.some.inj (hgives.symm.trans h.message)
  have hshort := length_content_lt (List.mem_of_head? hp)
  rw [hboth] at hshort
  exact Nat.lt_irrefl _ hshort

/-- A stored message without attachments. -/
def storedMessage : StoredMessage :=
  { Pop3.plainMessage "hi\n" with attachmentsState := .stored }

/-- The database that holds it. -/
def storedDb : MailDb where
  jmapBlobGet _ := none
  getCachedMessage id := if id = storedMessage.asterId then some storedMessage else none
  getMessageAttachments _ := []
  asterId_eq id m h := by
    split at h
    · rename_i hid
      rw [← Option.some.inj h, hid]
    · exact absurd h nofun
  seq_nodup _ := List.nodup_nil

/-- **A body of four octets**: its part announces 4 octets and its blob has 137, the Email
announces 4 as well, and the rendering has 177. -/
theorem body_of_four_octets :
    let x := Pop3.plainCrates
    let email := emailOf x storedDb storedMessage
    (∀ accept, ¬ SameMessage x (fun _ db => (db, .ready)) accept storedDb storedMessage) ∧
      (download x (fun _ db => (db, .ready)) none storedDb email.body.blobId).data?.map
        List.length = some 137 ∧
      email.body.size = 4 ∧ email.size = 4 ∧ utf8Len (renderText x storedMessage []) = 177 := by
  have hsize : (emailOf Pop3.plainCrates storedDb storedMessage).size = 4 := by decide +kernel
  have hrendered : utf8Len (renderText Pop3.plainCrates storedMessage []) = 177 := by
    decide +kernel
  refine ⟨fun accept h => ?_, by decide +kernel, by decide +kernel, hsize, hrendered⟩
  have hsame : (4 : Int) = (177 : Nat) := hsize.symm.trans (h.size.trans (congrArg _ hrendered))
  exact absurd hsame (by decide)

/-! ## What is served as it is stored -/

section Served

variable {x : RenderCrates} {fill : Fill} {accept : Option String} {db : MailDb}
  {m : StoredMessage}

/-- Stored attachments are ready. -/
theorem attachmentsReady_stored (hmessage : db.getCachedMessage m.asterId = some m)
    (hstate : m.attachmentsState = .stored) :
    attachmentsReady fill db m.asterId = (db, true) := by
  have hdemand : isOnDemand db m.asterId = false := by
    rw [isOnDemand, hmessage, Option.any_some, hstate]
    rfl
  have hfill : ensureAttachments fill db m.asterId = (db, .ready) := by
    rw [ensureAttachments, hdemand]
    rfl
  rw [attachmentsReady, hfill]
  dsimp only
  rw [hdemand]
  rfl

/-- The blob id of an attachment names its message and its place. -/
theorem parseAttachmentBlobId_attachmentBlobId {asterId : String} {seq : Nat} (hid : asterId ≠ "")
    (hseq : seq < 2 ^ 63) :
    parseAttachmentBlobId (attachmentBlobId asterId seq) = some (asterId, (seq : Int)) := by
  have hdigits : '_' ∉ (toString seq).toList.reverse := by
    intro hmem
    rw [List.mem_reverse, Nat.toString_eq_repr, Nat.toList_repr] at hmem
    exact absurd (Nat.isDigit_of_mem_toDigits (by decide) (by decide) hmem) (by decide)
  have hreverse : (attachmentBlobId asterId seq).toList.reverse =
      (toString seq).toList.reverse ++
        ('_' :: ['t', 't', 'a', '_'] ++ asterId.toList.reverse) := by
    have htext : attachmentBlobId asterId seq = asterId ++ "_att_" ++ toString seq := rfl
    rw [htext, String.toList_append, String.toList_append, List.reverse_append,
      List.reverse_append]
    rfl
  have hsplit : rsplitOnce "_att_".toList (attachmentBlobId asterId seq).toList =
      some (asterId.toList, (toString seq).toList) := by
    have hneedle : "_att_".toList.reverse = '_' :: ['t', 't', 'a', '_'] := by decide
    have hlength : "_att_".toList.length = ('_' :: ['t', 't', 'a', '_']).length := by decide
    rw [rsplitOnce, hreverse, hneedle, hlength, find_append hdigits, Option.map_some,
      List.take_left, List.reverse_reverse, ← List.drop_drop, List.drop_left, List.drop_left,
      List.reverse_reverse]
  have hne : asterId.toList ≠ [] := fun hnil => hid (String.toList_eq_nil_iff.1 hnil)
  have hbounds : -2 ^ 63 ≤ (seq : Int) ∧ (seq : Int) < 2 ^ 63 := by omega
  rw [parseAttachmentBlobId, hsplit, Option.bind_some]
  dsimp only
  rw [if_neg hne, String.ofList_toList, String.ofList_toList, parseInt_toString,
    Option.filter_some, if_pos (decide_eq_true hbounds)]
  rfl

/-- **An attachment part is what is stored.** -/
theorem download_attachment {a : CachedAttachment} {seq : Nat}
    (hmessage : db.getCachedMessage m.asterId = some m) (hstate : m.attachmentsState = .stored)
    (hid : m.asterId ≠ "") (ha : a ∈ db.getMessageAttachments m.asterId) (hseq : a.seq = seq)
    (hbound : seq < 2 ^ 63) (hsize : a.size = a.data.length) (i : Nat)
    (hblob : db.jmapBlobGet (attachmentBlobId m.asterId seq) = none) :
    Gives x fill accept db (attachmentPart m.asterId a i) a.data := by
  have hfind : (db.getMessageAttachments m.asterId).find? (·.seq = (seq : Int)) = some a := by
    have hnodup := db.seq_nodup m.asterId
    generalize db.getMessageAttachments m.asterId = rows at ha hnodup
    induction rows with
    | nil => exact absurd ha List.not_mem_nil
    | cons b rows ih =>
        rw [List.map_cons, List.nodup_cons] at hnodup
        rcases List.mem_cons.1 ha with rfl | hmem
        · exact List.find?_cons_of_pos (by simpa using hseq)
        · have hother : b.seq ≠ seq := fun h =>
            hnodup.1 (h.trans hseq.symm ▸ List.mem_map_of_mem hmem)
          rw [List.find?_cons_of_neg (by simpa using hother)]
          exact ih hmem hnodup.2
  have hid' : (attachmentPart m.asterId a i).blobId = attachmentBlobId m.asterId seq := by
    rw [attachmentPart, hseq]
  refine ⟨?_, hsize⟩
  rw [hid', download, hblob]
  dsimp only
  rw [parseAttachmentBlobId_attachmentBlobId hid hbound]
  dsimp only
  rw [attachmentsReady_stored hmessage hstate]
  dsimp only
  rw [if_pos rfl, hfind]
  rfl

/-- The size that an Email has is that of its rendering. -/
theorem renderedSize_listed {attachments : List CachedAttachment}
    (hsizes : Pop3.CachedSizes m attachments) (hparts : attachments ≠ [])
    (hstate : m.attachmentsState = .stored) :
    renderedSize x m (attachments.map Pop3.listedAttachment) =
      utf8Len (renderText x m attachments) := by
  have hknown : Pop3.attachmentPartsKnown m.attachmentsState = true := by
    rw [hstate]
    rfl
  have hclean : Clean (m.suffix x) := by
    rw [StoredMessage.suffix, Pop3.attachmentStatusNote_of_known hknown]
    exact (clean_trustNoteSuffix _ _).append clean_nil
  have hbody : (m.textPart x false).Sized false
      (utf8Len (toCrlf m.body) + utf8Len (m.suffix x)) := by
    refine ⟨fun hmode => absurd hmode (by decide), hclean, ?_⟩
    have htoNat := Pop3.toNat_size hsizes
    unfold StoredMessage.textPart StoredMessage.body at *
    cases hb : m.bodyText with
    | none =>
        simp only [hb] at htoNat ⊢
        exact congrArg (· + _) htoNat
    | some b => rfl
  have hne : attachments.map Pop3.listedAttachment ≠ [] :=
    fun hnil => hparts (List.map_eq_nil_iff.1 hnil)
  obtain ⟨hlisted, _⟩ := @renderWith_parts x m _ false _ hne
    (fun hmode => absurd hmode (by decide)) (fun _ _ hmode => absurd hmode (by decide)) hbody
  obtain ⟨hsize, htext⟩ := @renderWith_parts x m _ true _ hparts
    (fun _ => by rw [hstate]; decide)
    (fun a ha _ => (Pop3.attachmentRawSize_eq (hsizes.data a ha)).symm) (sized_body hclean)
  rw [Pop3.multipartSize_listed hsizes.data, ← hsize, ← (htext rfl).2.1] at hlisted
  exact hlisted

/-- **A message with attachments is its rendering**, where its headers are not a header block. -/
theorem download_message (hmessage : db.getCachedMessage m.asterId = some m)
    (hstate : m.attachmentsState = .stored)
    (hsizes : Pop3.CachedSizes m (db.getMessageAttachments m.asterId))
    (hparts : db.getMessageAttachments m.asterId ≠ [])
    (hheaders : m.rawHeaders.filter looksLikeHeaders = none)
    (hblob : db.jmapBlobGet m.asterId = none) (hname : parseAttachmentBlobId m.asterId = none) :
    let text := renderText x m (db.getMessageAttachments m.asterId)
    (download x fill accept db (emailOf x db m).blobId).data? =
        some (Utf8.encode (String.ofList text)) ∧ (emailOf x db m).size = utf8Len text := by
  dsimp only
  have hknown : Pop3.attachmentPartsKnown m.attachmentsState = true := by
    rw [hstate]
    rfl
  constructor
  · have hid : (emailOf x db m).blobId = m.asterId := rfl
    rw [hid, download, hblob]
    dsimp only
    rw [hname]
    dsimp only
    rw [hmessage]
    dsimp only
    rw [attachmentsReady_stored hmessage hstate]
    dsimp only
    rw [if_pos rfl, hmessage]
    dsimp only
    rw [if_pos hstate, buildRfc5322, hheaders]
    dsimp only
    rw [if_pos hparts]
    rfl
  · have hne : (db.getMessageAttachments m.asterId).map Pop3.listedAttachment ≠ [] :=
      fun hnil => hparts (List.map_eq_nil_iff.1 hnil)
    rw [emailOf, if_pos hknown, serializeEmail]
    dsimp only
    rw [if_neg hne, renderedSize_listed hsizes hparts hstate]

end Served

end AsterBridge.Jmap.Blob
