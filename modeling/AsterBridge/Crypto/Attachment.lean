import AsterBridge.Crypto.RecipientTrust
import AsterBridge.Error
import AsterBridge.Lib.Json
import AsterBridge.Lib.Utf8
import AsterBridge.Render.Headers

/-!
# Attachments of the server

`decrypt_attachment` of `crypto/attachment.rs`: the labels and the content of one row that the
server returned, under the entry that the sender listed for it. `decryptAttachment_listed` says
what a row is when the entry comes from a manifest.
-/

set_option autoImplicit false

namespace AsterBridge.Crypto.Attachment

open AsterBridge.Lib AsterBridge.Lib.Text AsterBridge.Render

/-- Third-party code and keys: the base64 engine, AES-GCM with its key, nonce, message and
associated data, the JSON readers, SHA-256, and the envelopes that the account can open. -/
structure AttachmentCrates where
  decode : List Char → Except String Bytes
  decryptGcm : Bytes → Bytes → Bytes → Bytes → Option Bytes
  fromSlice : Bytes → Option Json
  fromStr : String → Option Json
  sha256 : Bytes → Vector UInt8 32
  decryptOwnPgp : String → Option Bytes
  decryptPbkdf2Envelope : String → Option String

/-- `AttachmentKeyEntry` -/
structure AttachmentKeyEntry where
  key : Option String
  filename : Option String
  contentType : Option String
  contentId : Option String
  size : Option Int
  sha256 : Option String
  isInline : Option Bool
  fromManifest : Bool

/-- `DecryptedAttachment` -/
structure DecryptedAttachment where
  seq : Int
  filename : String
  contentType : String
  contentId : Option String
  isInline : Bool
  data : Bytes

/-- `RowMeta` -/
structure RowMeta where
  filename : Option String
  contentType : Option String
  sessionKey : Option String
  contentId : Option String
  isInline : Option Bool

/-- `AttachmentResponse`, as far as it is read. -/
structure AttachmentResponse where
  encryptedData : String
  dataNonce : String
  encryptedMeta : String
  metaNonce : String
  seqNum : Int

/-! ## Texts -/

/-- `str::trim` and `to_string`. -/
def trimmed (s : String) : String := String.ofList (trim s.toList)

/-- A text without its outer blanks, unless nothing is left. -/
def nonBlank (s : Option String) : Option String :=
  (s.map trimmed).filter (· ≠ "")

/-- `json_string`, `json_trimmed_string` -/
def jsonTrimmedString (v : Json) (key : String) : Option String :=
  nonBlank ((v.get? key).bind Json.asStr)

/-- `to_ascii_lowercase` -/
def toAsciiLowercase (s : String) : String := String.ofList (s.toList.map Char.toLower)

/-- `DEFAULT_ATTACHMENT_CONTENT_TYPE` -/
def defaultAttachmentContentType : String := "application/octet-stream"

/-- `normalize_content_type` -/
def normalizeContentType (raw : Option String) : String :=
  match (raw.map trimmed).filter (·.toList.contains '/') with
  | some s => toAsciiLowercase s
  | none => defaultAttachmentContentType

/-- `sha256_hex` -/
def sha256Hex (x : AttachmentCrates) (data : Bytes) : String :=
  String.ofList ((x.sha256 data).toList.flatMap (hexDigits false))

/-- `placeholder_filename` -/
def placeholderFilename (seq : Int) (contentType : String) : String :=
  let ext := match contentType with
    | "application/pdf" => "pdf"
    | "image/png" => "png"
    | "image/jpeg" => "jpg"
    | "image/gif" => "gif"
    | "image/webp" => "webp"
    | "text/plain" => "txt"
    | "text/html" => "html"
    | "application/zip" => "zip"
    | _ => "bin"
  "attachment-" ++ toString (seq + 1) ++ "." ++ ext

/-! ## The metadata of a row -/

/-- `is_sealed_meta_nonce` -/
def isSealedMetaNonce (nonce : Bytes) : Bool := nonce.length == 12 && nonce.any (· != 0)

/-- `is_plaintext_data_nonce` -/
def isPlaintextDataNonce (nonce : Bytes) : Bool := nonce.length == 12 && nonce.all (· == 0)

/-- `attachment_data_aad` -/
def attachmentDataAad (seq : Int) : Bytes :=
  Utf8.encode ("aster-attachment-v2|att=" ++ toString seq ++ "|part=data")

/-- `row_meta_from_json` -/
def rowMetaFromJson (v : Json) : Option RowMeta :=
  match v with
  | .object _ =>
      (jsonTrimmedString v "filename").map fun filename =>
        { filename := some filename
          contentType := jsonTrimmedString v "content_type"
          sessionKey := jsonTrimmedString v "session_key"
          contentId := jsonTrimmedString v "content_id"
          isInline := (v.get? "is_inline").bind Json.asBool }
  | _ => none

/-- `decode_session_key` -/
def decodeSessionKey (x : AttachmentCrates) (b64 : String) : Except BridgeError Bytes :=
  match x.decode (trim b64.toList) with
  | .error e => .error (.crypto ("attachment key decode: " ++ e))
  | .ok raw =>
      if raw.length = 32 then .ok raw
      else .error (.crypto "attachment key has the wrong length")

/-- `open_sealed_meta` -/
def openSealedMeta (x : AttachmentCrates) (encryptedMeta metaNonce : Bytes) (key : String) :
    Option RowMeta :=
  (decodeSessionKey x key).toOption.bind fun k =>
    (x.decryptGcm k metaNonce encryptedMeta []).bind fun plain =>
      ((x.fromSlice plain).bind rowMetaFromJson).map fun m => { m with sessionKey := some key }

/-- The metadata that stands in the row as JSON, when it brings a key. -/
def plainRowMeta (x : AttachmentCrates) (text : String) : Option RowMeta :=
  ((x.fromStr text).bind rowMetaFromJson).filter (·.sessionKey.isSome)

/-- `open_client_authored_meta` -/
def openClientAuthoredMeta (x : AttachmentCrates) (encryptedMetaB64 : String)
    (encryptedMeta : Bytes) : Option RowMeta :=
  let enveloped :=
    ((x.decryptPbkdf2Envelope encryptedMetaB64).bind x.fromStr).bind rowMetaFromJson
  match (Utf8.fromUtf8 encryptedMeta).map String.ofList with
  | none => enveloped
  | some text =>
      match plainRowMeta x text with
      | some m => some m
      | none =>
          if "-----BEGIN PGP MESSAGE-----".toList.isPrefixOf text.toList then
            ((x.decryptOwnPgp text).bind x.fromSlice).bind rowMetaFromJson
          else enveloped

/-- The metadata that `decrypt_attachment` opens; a row without any has the default. -/
def rowMetaOf (x : AttachmentCrates) (row : AttachmentResponse) (entryKey : Option String) :
    Except BridgeError RowMeta :=
  match x.decode (trim row.encryptedMeta.toList) with
  | .error e => .error (.crypto ("attachment meta decode: " ++ e))
  | .ok encryptedMeta =>
      let nonce := if trim row.metaNonce.toList = [] then Except.ok []
        else x.decode (trim row.metaNonce.toList)
      match nonce with
      | .error e => .error (.crypto ("attachment meta nonce decode: " ++ e))
      | .ok metaNonce =>
          let opened := if isSealedMetaNonce metaNonce then
            entryKey.bind (openSealedMeta x encryptedMeta metaNonce) else none
          let authored := if opened.isNone && encryptedMeta ≠ [] then
            openClientAuthoredMeta x (trimmed row.encryptedMeta) encryptedMeta else opened
          .ok (authored.getD ⟨none, none, none, none, none⟩)

/-! ## The content of a row -/

/-- `decrypt_data` -/
def decryptData (x : AttachmentCrates) (seq : Int) (encryptedData dataNonce : Bytes)
    (key : String) : Except BridgeError Bytes :=
  if dataNonce.length ≠ 12 then
    .error (.crypto "attachment data nonce has the wrong length")
  else
    match decodeSessionKey x key with
    | .error e => .error e
    | .ok k =>
        match (x.decryptGcm k dataNonce encryptedData (attachmentDataAad seq)).or
            (x.decryptGcm k dataNonce encryptedData []) with
        | some plain => .ok plain
        | none => .error (.crypto "attachment data decrypt failed")

/-- The content that `decrypt_attachment` opens. -/
def contentOf (x : AttachmentCrates) (row : AttachmentResponse) (sessionKey : Option String) :
    Except BridgeError Bytes :=
  match x.decode (trim row.encryptedData.toList) with
  | .error e => .error (.crypto ("attachment data decode: " ++ e))
  | .ok encryptedData =>
      match x.decode (trim row.dataNonce.toList) with
      | .error e => .error (.crypto ("attachment data nonce decode: " ++ e))
      | .ok dataNonce =>
          match sessionKey with
          | some key => decryptData x row.seqNum encryptedData dataNonce key
          | none =>
              if isPlaintextDataNonce dataNonce then .ok encryptedData
              else .error (.crypto "attachment key unavailable")

/-- What `decrypt_attachment` checks of the content. -/
def checkContent (x : AttachmentCrates) (entry : Option AttachmentKeyEntry) (data : Bytes) :
    Except BridgeError Bytes :=
  if data = [] then .error (.crypto "attachment payload is empty")
  else if (entry.bind (·.size)).any fun expected => expected ≠ (data.length : Int) then
    .error (.crypto "attachment size does not match the envelope")
  else if (entry.bind (·.sha256)).any fun expected =>
      !eqIgnoreAsciiCase (trim expected.toList) (sha256Hex x data).toList then
    .error (.crypto "attachment content does not match the envelope")
  else .ok data

/-- The labels of a row: those of the entry, or else of the row, which a manifest overrules. -/
def labeled (seq : Int) (entry : Option AttachmentKeyEntry) (row : RowMeta) (data : Bytes) :
    DecryptedAttachment :=
  let fromManifest := entry.any (·.fromManifest)
  let unlisted {α : Type} (v : Option α) : Option α := if fromManifest then none else v
  let contentType := normalizeContentType
    (((entry.bind (·.contentType)).filter (·.toList.contains '/')).or (unlisted row.contentType))
  { seq
    filename := ((nonBlank (entry.bind (·.filename))).or (unlisted row.filename)).getD
      (placeholderFilename seq contentType)
    contentType
    contentId := ((entry.bind (·.contentId)).filter fun c => trim c.toList ≠ []).or
      (unlisted row.contentId)
    isInline := ((entry.bind (·.isInline)).or (unlisted row.isInline)).getD false
    data }

/-- `decrypt_attachment` -/
def decryptAttachment (x : AttachmentCrates) (row : AttachmentResponse)
    (entry : Option AttachmentKeyEntry) : Except BridgeError DecryptedAttachment := do
  let entryKey := nonBlank (entry.bind (·.key))
  let rowMeta ← rowMetaOf x row entryKey
  let opened ← contentOf x row (entryKey.or rowMeta.sessionKey)
  let data ← checkContent x entry opened
  return labeled row.seqNum entry rowMeta data

/-! ## Rows under a manifest -/

/-- What a manifest promises of a part: the content of its size and hash, with its labels. -/
structure Listed (x : AttachmentCrates) (e : AttachmentKeyEntry) (a : DecryptedAttachment) :
    Prop where
  data : a.data ≠ []
  size : ∀ n ∈ e.size, n = (a.data.length : Int)
  sha256 : ∀ h ∈ e.sha256,
    eqIgnoreAsciiCase (trim h.toList) (sha256Hex x a.data).toList = true
  filename : a.filename = (nonBlank e.filename).getD (placeholderFilename a.seq a.contentType)
  contentType : a.contentType = normalizeContentType (e.contentType.filter (·.toList.contains '/'))
  contentId : a.contentId = e.contentId.filter fun c => trim c.toList ≠ []
  isInline : a.isInline = e.isInline.getD false

section Manifest

variable {x : AttachmentCrates} {row : AttachmentResponse} {e : AttachmentKeyEntry}
  {a : DecryptedAttachment}

theorem checkContent_ok {opened data : Bytes} (h : checkContent x (some e) opened = .ok data) :
    data = opened ∧ data ≠ [] ∧ (∀ n ∈ e.size, n = (data.length : Int)) ∧
      ∀ s ∈ e.sha256, eqIgnoreAsciiCase (trim s.toList) (sha256Hex x data).toList = true := by
  unfold checkContent at h
  split at h
  · exact nomatch h
  · rename_i hdata
    split at h
    · exact nomatch h
    · rename_i hsize
      split at h
      · exact nomatch h
      · rename_i hsha
        cases Except.ok.inj h
        refine ⟨rfl, hdata, fun n hn => ?_, fun s hs => ?_⟩
        · rw [Option.bind_some, Option.mem_def.1 hn, Option.any_some] at hsize
          simpa using hsize
        · rw [Option.bind_some, Option.mem_def.1 hs, Option.any_some] at hsha
          simpa using hsha

/-- **A row that is decrypted under a manifest entry is what the entry lists.** -/
theorem decryptAttachment_listed (hmanifest : e.fromManifest = true)
    (h : decryptAttachment x row (some e) = .ok a) : a.seq = row.seqNum ∧ Listed x e a := by
  unfold decryptAttachment at h
  dsimp only at h
  cases hmeta : rowMetaOf x row (nonBlank ((some e).bind (·.key))) with
  | error err =>
      rw [hmeta] at h
      exact nomatch h
  | ok rowMeta =>
      rw [hmeta] at h
      change (contentOf x row _ >>= _) = _ at h
      cases hopened : contentOf x row
          ((nonBlank ((some e).bind (·.key))).or rowMeta.sessionKey) with
      | error err =>
          rw [hopened] at h
          exact nomatch h
      | ok opened =>
          rw [hopened] at h
          change (checkContent x (some e) opened >>= _) = _ at h
          cases hcheck : checkContent x (some e) opened with
          | error err =>
              rw [hcheck] at h
              exact nomatch h
          | ok data =>
              rw [hcheck] at h
              obtain ⟨-, hne, hsize, hsha⟩ := checkContent_ok hcheck
              cases Except.ok.inj h
              refine ⟨rfl, hne, hsize, hsha, ?_, ?_, ?_, ?_⟩
              · simp [labeled, hmanifest]
              · simp [labeled, hmanifest]
              · simp [labeled, hmanifest]
              · simp [labeled, hmanifest]

end Manifest

end AsterBridge.Crypto.Attachment
