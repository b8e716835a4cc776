import AsterBridge.Address
import AsterBridge.Lib.Lines
import AsterBridge.Lib.Utf8

/-!
# The texts of a rendered message

The headers and notes of `message_render.rs`: what `render_with` puts around the body and
the attachments of a cached message.
-/

set_option autoImplicit false

namespace AsterBridge.Render

open AsterBridge.Lib AsterBridge.Lib.Text AsterBridge.Lib.Lines AsterBridge.Address

/-- `Vec<u8>` -/
abbrev Bytes := List UInt8

/-- A character of base64 text. -/
def isBase64 (c : Char) : Bool := c.isAlphanum || c == '+' || c == '/' || c == '='

/-- Third-party code and floats: the JSON reader, SHA-256, the base64 engine `STANDARD`, the
date readers of `chrono`, which give the date as `%a, %d %b %Y %H:%M:%S %z` shows it, and the
arithmetic of `format_bytes`. -/
structure RenderCrates where
  fromStr : String → Option Json
  sha256 : Bytes → Vector UInt8 32
  base64 : Bytes → List Char
  rfc3339 : List Char → Option (List Char)
  rfc2822 : List Char → Option (List Char)
  fromFormat : List Char → String → Option (List Char)
  formatBytes : Int → List Char
  base64_length : ∀ data, (base64 data).length = (data.length + 2) / 3 * 4
  base64_chars : ∀ data, ∀ c ∈ base64 data, isBase64 c = true

/-! ## Stored messages -/

/-- `attachments_state` -/
inductive AttachmentsState where
  | none
  | pending
  | stored
  | failed
  | onDemand
deriving DecidableEq

/-- What rendering reads of `CachedMessage`. -/
structure StoredMessage where
  asterId : String
  subject : Option String
  sender : Option String
  recipients : Option String
  date : Option String
  size : Int
  bodyText : Option String
  rawHeaders : Option String
  attachmentsState : AttachmentsState

/-- `CachedAttachment` -/
structure CachedAttachment where
  seq : Int
  name : String
  contentType : String
  contentId : Option String
  isInline : Bool
  size : Int
  data : Bytes
deriving DecidableEq

/-- `len` of a text, in bytes. -/
def utf8Len (s : List Char) : Nat := (s.map Char.utf8Size).sum

/-! ## Header values -/

/-- `sanitize_header` -/
def sanitizeHeader (s : List Char) : List Char := s.filter fun c => !isHeaderBreak c

/-- `quote` -/
def quote (s : List Char) : List Char :=
  '"' :: (sanitizeHeader s).flatMap (fun c => if c = '\\' ∨ c = '"' then ['\\', c] else [c]) ++ ['"']

/-- `safe_filename` -/
def safeFilename (name : String) : List Char :=
  let cleaned := (name.toList.filter fun c => !isControl c).map fun c =>
    if c = '"' then '\'' else if c = '\\' then '_' else c
  if trim cleaned = [] then "attachment".toList else (trim cleaned).take 200

/-- The digits of `:02x` and `:02X`. -/
def hexDigits (upper : Bool) (b : UInt8) : List Char :=
  let digit (n : Nat) : Char :=
    Char.ofNat (if n < 10 then n + 48 else n + (if upper then 55 else 87))
  [digit (b.toNat / 16), digit (b.toNat % 16)]

/-- `percent_encode` -/
def percentEncode (s : List Char) : List Char :=
  (Utf8.encode (String.ofList s)).flatMap fun b =>
    let c := Char.ofNat b.toNat
    if b < 0x80 ∧ (c.isAlphanum ∨ c = '.' ∨ c = '-' ∨ c = '_') then [c]
    else '%' :: hexDigits true b

/-- `header_name_params` -/
def headerNameParams (x : RenderCrates) (name : String) : List Char × List Char :=
  let safe := safeFilename name
  if safe.all fun c => c.toNat < 0x80 then
    ("name=\"".toList ++ safe ++ ['"'], "filename=\"".toList ++ safe ++ ['"'])
  else
    let word := "=?UTF-8?B?".toList ++ x.base64 (Utf8.encode (String.ofList safe)) ++ "?=".toList
    ("name=\"".toList ++ word ++ ['"'],
      "filename=\"".toList ++ word ++ "\"; filename*=UTF-8''".toList ++ percentEncode safe)

/-- `clean_content_id` -/
def cleanContentId (cid : String) : List Char :=
  ((trim (sanitizeHeader cid.toList)).dropWhile (· == '<')).rdropWhile (· == '>')

/-- The type of a content type, without its parameters. -/
def mainType (ct : String) : List Char :=
  trim ((sanitizeHeader ct.toList).takeWhile (· != ';'))

/-- `split_content_type` -/
def splitContentType (ct : String) : List Char × List Char :=
  let main := mainType ct
  let type := main.takeWhile (· != '/')
  let subtype := main.drop (type.length + 1)
  if main.contains '/' ∧ type ≠ [] ∧ subtype ≠ [] then
    (type.map Char.toUpper, subtype.map Char.toUpper)
  else ("APPLICATION".toList, "OCTET-STREAM".toList)

/-- `clean_content_type` -/
def cleanContentType (ct : String) : List Char :=
  if (mainType ct).contains '/' then (mainType ct).map Char.toLower
  else "application/octet-stream".toList

/-- `boundary_for` -/
def boundaryFor (x : RenderCrates) (asterId : String) (level : Nat) : List Char :=
  "=_aster_".toList ++
    ((x.sha256 (Utf8.encode asterId)).toList.take 8).flatMap (hexDigits false) ++
      '_' :: (toString level).toList

/-- `escape_html_text` -/
def escapeHtmlText (s : List Char) : List Char :=
  s.flatMap fun c => match c with
    | '&' => "&amp;".toList
    | '<' => "&lt;".toList
    | '>' => "&gt;".toList
    | '"' => "&quot;".toList
    | c => [c]

/-! ## Notes -/

/-- `LEGACY_NOTE_PREFIX` -/
def legacyNotePrefix : String := "[This message has "

/-- The text of an entry in `described_attachments`. -/
def describedAttachment (x : RenderCrates) (e : Json) : List Char :=
  let name := (((e.get? "name").bind Json.asStr).filter fun s => trim s.toList ≠ []).getD "Attachment"
  let type := ((e.get? "type").bind Json.asStr).getD "application/octet-stream"
  match (e.get? "size").bind Json.asI64 with
  | some size =>
      name.toList ++ " (".toList ++ type.toList ++ ", ".toList ++ x.formatBytes size ++ [')']
  | none => name.toList ++ " (".toList ++ type.toList ++ [')']

/-- `described_attachments` -/
def describedAttachments (x : RenderCrates) (metadata : Json) : Nat × List (List Char) :=
  let entries := ((metadata.get? "attachments").bind Json.asArray).getD []
  let count := ((metadata.get? "attachment_count").bind Json.asU64).getD entries.length
  (max count entries.length, entries.map (describedAttachment x))

/-- The JSON of the stored headers. -/
def metadataOf (x : RenderCrates) (msg : StoredMessage) : Json :=
  (msg.rawHeaders.bind x.fromStr).getD .null

/-- `replace("They appears", "They appear")` -/
def replaceTheyAppears : List Char → List Char
  | [] => []
  | c :: rest =>
      if "They appears".toList.isPrefixOf (c :: rest) then
        "They appear".toList ++ replaceTheyAppears ((c :: rest).drop "They appears".toList.length)
      else c :: replaceTheyAppears rest
termination_by s => s.length
decreasing_by
  all_goals simp_wf
  all_goals simp [String.length]
  all_goals omega

/-- `attachment_status_note` -/
def attachmentStatusNote (x : RenderCrates) (msg : StoredMessage) : Option (List Char) :=
  if msg.attachmentsState ≠ .pending ∧ msg.attachmentsState ≠ .failed then none
  else if msg.bodyText.any fun b => contains b.toList legacyNotePrefix.toList then none
  else
    let (count, described) := describedAttachments x (metadataOf x msg)
    if count = 0 then none
    else
      let noun := if count = 1 then "attachment" else "attachments"
      let list := if described.length = count then
        ": ".toList ++ [',', ' '].intercalate described else []
      let listed := (toString count).toList ++ ' ' :: noun.toList ++ list
      if msg.attachmentsState = .pending then
        let pronoun := if count = 1 then "It" else "They"
        some (replaceTheyAppears ("[Aster Bridge is still downloading ".toList ++ listed ++
          ". ".toList ++ pronoun.toList ++
            " appears in this message after the download finishes.]".toList))
      else
        let pronoun := if count = 1 then "it" else "them"
        some ("[Aster Bridge could not download ".toList ++ listed ++ ". To get ".toList ++
          pronoun.toList ++ ", open the message in the Aster web or mobile app.]".toList)

/-- `SENDER_UNVERIFIED_NOTE` -/
def senderUnverifiedNote : String :=
  "[Aster Bridge could not confirm that this message comes from the sender shown. Before you act on it, check with the sender another way.]"

/-- `ATTACHMENTS_UNVERIFIED_NOTE` -/
def attachmentsUnverifiedNote : String :=
  "[Aster Bridge could not confirm that the attachments on this message come from the sender shown. Before you open them, check with the sender another way.]"

/-- `NOT_END_TO_END_ENCRYPTED_NOTE` -/
def notEndToEndEncryptedNote : String :=
  "[Aster stored this message without end-to-end encryption, so Aster Bridge could not confirm that its content is unchanged. Before you act on it, check with the sender another way.]"

/-- A flag of the metadata. -/
def flagged (metadata : Json) (flag : String) : Bool :=
  ((metadata.get? flag).bind Json.asBool).getD false

/-- `sender_unverified` -/
def senderUnverified (metadata : Json) : Bool := flagged metadata "sender_unverified"

/-- `attachments_unverified` -/
def attachmentsUnverified (metadata : Json) : Bool := flagged metadata "attachments_unverified"

/-- `not_end_to_end_encrypted` -/
def notEndToEndEncrypted (metadata : Json) : Bool := flagged metadata "not_end_to_end_encrypted"

/-- `note_suffix` -/
def noteSuffix (note : Option (List Char)) (isHtml : Bool) : List Char :=
  match note with
  | some n =>
      if isHtml then crlf ++ "<p>".toList ++ escapeHtmlText n ++ "</p>".toList
      else crlf ++ crlf ++ n
  | none => []

/-- `then_some` -/
def thenSome (flag : Bool) (note : String) : Option (List Char) :=
  if flag then some note.toList else none

/-- `trust_note_suffix` -/
def trustNoteSuffix (metadata : Json) (isHtml : Bool) : List Char :=
  noteSuffix (thenSome (notEndToEndEncrypted metadata) notEndToEndEncryptedNote) isHtml ++
    noteSuffix (thenSome (senderUnverified metadata) senderUnverifiedNote) isHtml ++
    noteSuffix (thenSome (attachmentsUnverified metadata) attachmentsUnverifiedNote) isHtml

/-- `detect_html` -/
def detectHtml (metadata : Json) (body : List Char) : Bool :=
  ((metadata.get? "is_html").bind Json.asBool).getD
    (["</", "<html", "<body", "<div", "<p ", "<!DOCTYPE"].any fun mark => contains body mark.toList)

/-! ## Headers -/

/-- A header line. -/
def headerLine (name : String) (value : List Char) : List Char :=
  name.toList ++ ": ".toList ++ value ++ crlf

/-- A text of the metadata, sanitized, unless it is empty. -/
def metadataText (metadata : Json) (key : String) : Option (List Char) :=
  (((metadata.get? key).bind Json.asStr).map fun s => sanitizeHeader s.toList).filter (· ≠ [])

/-- `message_id_header` -/
def messageIdHeader (metadata : Json) (asterId : String) : List Char :=
  match metadataText metadata "message_id" with
  | some mid =>
      if mid.head? = some '<' then headerLine "Message-ID" mid
      else headerLine "Message-ID" ('<' :: mid ++ ['>'])
  | none => headerLine "Message-ID"
      ('<' :: sanitizeHeader asterId.toList ++ "@aster-bridge>".toList)

/-- `reference_header` -/
def referenceHeader (metadata : Json) (key label : String) : List Char :=
  match metadataText metadata key with
  | some value => headerLine label value
  | none => []

/-- `date_header_rfc2822`, with `parse_datetime_lenient`. -/
def dateHeaderRfc2822 (x : RenderCrates) (s : List Char) : List Char :=
  let t := trim s
  let noWeekday := match find [','] t with
    | some pos => trim (t.drop (pos + 1))
    | none => t
  ((x.rfc3339 t).orElse fun _ => (x.rfc2822 t).orElse fun _ =>
    (x.fromFormat noWeekday "%d %b %Y %H:%M:%S %z").orElse fun _ =>
      x.fromFormat noWeekday "%d %b %Y %H:%M %z").getD s

/-- An optional header of `top_headers`. -/
def optionalHeader (label : String) (value : Option (List Char)) : List Char :=
  match value with
  | some v => headerLine label v
  | none => []

/-- `top_headers` -/
def topHeaders (x : RenderCrates) (msg : StoredMessage) (metadata : Json) : List Char :=
  let recipients := sanitizeHeader (msg.recipients.getD "").toList
  let address (key : String) := (metaAddressText metadata key).map sanitizeHeader
  headerLine "Date" (sanitizeHeader (dateHeaderRfc2822 x (msg.date.getD "").toList)) ++
    headerLine "From" (sanitizeHeader (msg.sender.getD "unknown@astermail.org").toList) ++
    optionalHeader "To" (if recipients = [] then none else some recipients) ++
    optionalHeader "Cc" (address "cc") ++
    optionalHeader "Bcc" (address "bcc") ++
    optionalHeader "Reply-To" (address "reply_to") ++
    headerLine "Subject" (sanitizeHeader (msg.subject.getD "").toList) ++
    messageIdHeader metadata msg.asterId ++
    referenceHeader metadata "in_reply_to" "In-Reply-To" ++
    referenceHeader metadata "references" "References" ++
    headerLine "MIME-Version" "1.0".toList

/-- `text_content_type` -/
def textContentType (isHtml : Bool) : List Char :=
  headerLine "Content-Type"
    (if isHtml then "text/html; charset=utf-8".toList else "text/plain; charset=utf-8".toList)

/-- The size that an attachment shows in its header. -/
def CachedAttachment.shownSize (a : CachedAttachment) : Int :=
  if a.data = [] then a.size else a.data.length

/-- `attachment_headers` -/
def attachmentHeaders (x : RenderCrates) (a : CachedAttachment) (inline : Bool) : List Char :=
  let (nameParam, filenameParams) := headerNameParams x a.name
  headerLine "Content-Type" (cleanContentType a.contentType ++ "; ".toList ++ nameParam) ++
    headerLine "Content-Transfer-Encoding" "base64".toList ++
    headerLine "Content-Disposition"
      ((if inline then "inline" else "attachment").toList ++ "; ".toList ++ filenameParams ++
        "; size=".toList ++ (toString (max a.shownSize 0).toNat).toList) ++
    optionalHeader "Content-ID"
      (((a.contentId.map cleanContentId).filter (· ≠ [])).map fun cid => '<' :: cid ++ ['>']) ++
    crlf

/-- `attachment_structure` -/
def attachmentStructure (a : CachedAttachment) (inline : Bool) (encodedSize : Nat) : List Char :=
  let (type, subtype) := splitContentType a.contentType
  let name := safeFilename a.name
  let cid := (((a.contentId.map cleanContentId).filter (· ≠ [])).map fun c =>
    quote ('<' :: c ++ ['>'])).getD "NIL".toList
  '(' :: quote type ++ ' ' :: quote subtype ++ " (\"NAME\" ".toList ++ quote name ++
    ") ".toList ++ cid ++ " NIL \"BASE64\" ".toList ++ (toString encodedSize).toList ++
    " NIL (".toList ++ (if inline then "\"INLINE\"" else "\"ATTACHMENT\"").toList ++
    " (\"FILENAME\" ".toList ++ quote name ++ ")) NIL)".toList

/-- `attachment_raw_size` -/
def attachmentRawSize (a : CachedAttachment) : Nat :=
  if a.data = [] then a.size.toNat else a.data.length

end AsterBridge.Render
