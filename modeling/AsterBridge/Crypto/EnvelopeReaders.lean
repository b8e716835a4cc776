import AsterBridge.Crypto.Ratchet

/-!
# Readers of sealed content

How `crypto/envelope.rs`, `crypto/inbound.rs` and `crypto/draft.rs` open what is stored on the
server: the format is read off the nonce and the first byte, and then the current key, the keys
before it and the keys for inbound mail are tried in turn.
-/

set_option autoImplicit false

namespace AsterBridge.Crypto.Readers

open AsterBridge.Lib AsterBridge.Lib.Text AsterBridge.Crypto.Ratchet

/-- `DraftAttachment` -/
structure DraftAttachment where
  id : String
  name : String
  size : String
  sizeBytes : Int
  mimeType : String
  dataBase64 : String
  contentId : Option String

/-- `DraftContent` -/
structure DraftContent where
  toRecipients : List String
  ccRecipients : List String
  bccRecipients : List String
  subject : String
  message : String
  attachments : Option (List DraftAttachment)

/-- Third-party code beside `Primitives`: base64, SHA-256, PBKDF2, the zlib reader with its limit,
the JSON readers and OpenPGP. -/
structure ContentCrates (Key Public : Type) where
  base64Decode : String → Except String Bytes
  sha256 : Bytes → Bytes
  pbkdf2 (passphrase salt : Bytes) (iterations : Nat) : Bytes
  decompress (compressed : Bytes) (limit : Nat) : Option Bytes
  utf8Error : Bytes → String
  fromStr : String → Except String Json
  draftFromSlice : Bytes → Except String DraftContent
  attachmentsFromValue : Json → Option (List DraftAttachment)
  importSecretKey : String → Option Key
  publicKey : Key → Public
  decryptAndVerify (armored : Bytes) (keys : List Key) (publics : List Public)
    (passphrase : String) : Option Bytes
  decryptMessage (armored : Bytes) (keys : List Key) (passphrase : String) : Option Bytes

/-- `EnvelopeOrigin` -/
inductive EnvelopeOrigin where
  | selfAuthored
  | inbound
  | unsignedPgp
deriving DecidableEq

/-- `InboundKeyCandidate` -/
structure InboundKeyCandidate where
  ecdhSecretD : Bytes
  pqDecapKey : Option Bytes

/-- `DraftKeys` -/
structure DraftKeys where
  identityKey : String
  previousKeys : List String
  accountKeys : List Bytes
  passphrase : Bytes

section Readers

variable {Scalar Point Key Public : Type} (x : Primitives Scalar Point)
  (y : ContentCrates Key Public)

/-- `STANDARD.decode`, with the text that is put before its error. -/
def decoded (label : String) (text : String) : Except BridgeError Bytes :=
  (y.base64Decode text).mapError fun e => .crypto (label ++ e)

/-- `String::from_utf8`, with the text that is put before its error. -/
def textOf (label : String) (bytes : Bytes) : Except BridgeError String :=
  match Utf8.fromUtf8 bytes with
  | some cs => .ok (String.ofList cs)
  | none => .error (.crypto (label ++ y.utf8Error bytes))

/-! ## Own envelopes -/

/-- `ENVELOPE_VERSIONS` -/
def envelopeVersions : List String := ["astermail-envelope-v1", "astermail-import-v1"]

/-- `derive_envelope_key` -/
def deriveEnvelopeKey (identityKey version : Bytes) : Bytes := y.sha256 (identityKey ++ version)

/-- The length of `bytes`, in four bytes. -/
def lengthBytes (bytes : Bytes) : Bytes := beBytes (UInt32.ofNat bytes.length)

/-- `derive_legacy_envelope_key` -/
def deriveLegacyEnvelopeKey (identityKey version : Bytes) : Except BridgeError Bytes :=
  (x.expand (lengthBytes identityKey ++ identityKey ++ lengthBytes version ++ version)
    (Utf8.encode "aster-envelope-kdf-v1") (Utf8.encode "aes-256-gcm-key") 32).mapError fun e =>
      .crypto ("HKDF expand: " ++ e)

/-- The loop of `decrypt_identity_key_envelope` over the versions. -/
def tryVersions (ciphertext nonce : Bytes) (identityKey : String) :
    List String → Except BridgeError String
  | [] => .error (.crypto "identity key envelope decrypt failed for all versions")
  | version :: versions => do
      let key := deriveEnvelopeKey y (Utf8.encode identityKey) (Utf8.encode version)
      let legacy ← deriveLegacyEnvelopeKey x (Utf8.encode identityKey) (Utf8.encode version)
      match (x.decrypt key nonce ciphertext []).or (x.decrypt legacy nonce ciphertext []) with
      | some plaintext => textOf y "utf8 decode: " plaintext
      | none => tryVersions ciphertext nonce identityKey versions

/-- `decrypt_identity_key_envelope` -/
def decryptIdentityKeyEnvelope (encryptedDataB64 : String) (nonceBytes : Bytes)
    (identityKey : String) : Except BridgeError String := do
  let encryptedBytes ← decoded y "data decode: " encryptedDataB64
  if nonceBytes.length ≠ 12 then .error (.crypto "invalid nonce length")
  else tryVersions x y encryptedBytes nonceBytes identityKey envelopeVersions

/-- `decrypt_pbkdf2_envelope` -/
def decryptPbkdf2Envelope (encryptedDataB64 : String) (passphrase : Bytes) :
    Except BridgeError String := do
  let data ← decoded y "data decode: " encryptedDataB64
  if data.length < 16 + 12 + 16 then .error (.crypto "envelope too short")
  else
    let key := y.pbkdf2 passphrase (data.take 16) 310000
    match x.decrypt key ((data.drop 16).take 12) (data.drop 28) [] with
    | some plaintext => textOf y "utf8 decode: " plaintext
    | none => .error (.crypto "PBKDF2 envelope decrypt failed")

/-! ## OpenPGP envelopes -/

/-- `own_pgp_keys` -/
def ownPgpKeys (identityKey : Option String) (previousKeys : List String) :
    Except BridgeError (List Key) :=
  match identityKey with
  | none => .error (.crypto "PGP decrypt requires identity key")
  | some ik =>
      match (ik :: previousKeys).filterMap y.importSecretKey with
      | [] => .error (.crypto "PGP key parse failed")
      | keys => .ok keys

/-- The passphrases that are tried: `str::from_utf8` of the passphrase, and the empty one. -/
def pgpPassphrases (passphrase : Bytes) : List String :=
  [((Utf8.fromUtf8 passphrase).map String.ofList).getD "", ""]

/-- `decrypt_own_pgp` -/
def decryptOwnPgp (armored : Bytes) (identityKey : Option String) (previousKeys : List String)
    (passphrase : Bytes) : Except BridgeError Bytes := do
  let ownKeys ← ownPgpKeys y identityKey previousKeys
  match (pgpPassphrases passphrase).findSome? (y.decryptMessage armored ownKeys) with
  | some plain => .ok plain
  | none => .error (.crypto "PGP decrypt failed")

/-- `open_own_pgp` -/
def openOwnPgp (armored : Bytes) (identityKey : Option String) (previousKeys : List String)
    (passphrase : Bytes) : Except BridgeError (Bytes × EnvelopeOrigin) := do
  let ownKeys ← ownPgpKeys y identityKey previousKeys
  let verified := y.decryptAndVerify armored ownKeys (ownKeys.map y.publicKey)
  match (pgpPassphrases passphrase).findSome? verified with
  | some plain => .ok (plain, .selfAuthored)
  | none => (decryptOwnPgp y armored identityKey previousKeys passphrase).map fun plain =>
      (plain, .unsignedPgp)

/-- `decrypt_pgp_envelope` -/
def decryptPgpEnvelope (encryptedDataB64 : String) (identityKey : Option String)
    (previousKeys : List String) (passphrase : Bytes) :
    Except BridgeError (String × EnvelopeOrigin) := do
  let data ← decoded y "data decode: " encryptedDataB64
  if (Utf8.fromUtf8 data).isSome && (Utf8.encode "-----BEGIN PGP").isPrefixOf data then
    let opened ← openOwnPgp y data identityKey previousKeys passphrase
    let plaintext ← textOf y "PGP utf8: " opened.1
    return (plaintext, opened.2)
  else .error (.crypto "envelope is not encrypted")

/-! ## Inbound envelopes -/

/-- `INBOUND_ECDH_MARKER` -/
def inboundEcdhMarker : UInt8 := 0x03

/-- `INBOUND_PQ_HYBRID_MARKER` -/
def inboundPqHybridMarker : UInt8 := 0x04

/-- `hkdf_aes_key` -/
def hkdfAesKey (ikm info : Bytes) : Except BridgeError Bytes :=
  (x.expand ikm zeroSalt32 info 32).mapError fun e => .crypto ("hkdf expand: " ++ e)

/-- `decrypt_and_inflate` -/
def decryptAndInflate (aesKey nonceBytes ciphertext : Bytes) : Option String := do
  let compressed ← x.decrypt aesKey nonceBytes ciphertext []
  let inflated ← y.decompress compressed (64 * 1024 * 1024)
  return String.ofList (← Utf8.fromUtf8 inflated)

/-- `try_ecdh_candidate` -/
def tryEcdhCandidate (ephemeralPoint nonceBytes ciphertext : Bytes)
    (candidate : InboundKeyCandidate) : Option String := do
  let sharedX ← (ecdhP256 x candidate.ecdhSecretD ephemeralPoint).toOption
  let key ← (hkdfAesKey x sharedX (Utf8.encode "aster-inbound-v1")).toOption
  decryptAndInflate x y key nonceBytes ciphertext

/-- `try_pq_candidate` -/
def tryPqCandidate (ephemeralPoint kemCiphertext nonceBytes ciphertext : Bytes)
    (candidate : InboundKeyCandidate) : Option String := do
  let pqKey ← candidate.pqDecapKey
  let sharedX ← (ecdhP256 x candidate.ecdhSecretD ephemeralPoint).toOption
  let kemSs ← (x.decapsulate kemCiphertext pqKey).toOption
  let key ← (hkdfAesKey x (sharedX ++ kemSs.take 32) (Utf8.encode "aster-inbound-pq-v1")).toOption
  decryptAndInflate x y key nonceBytes ciphertext

/-- `decrypt_inbound_envelope` -/
def decryptInboundEnvelope (payload nonceBytes : Bytes) (candidates : List InboundKeyCandidate) :
    Except BridgeError String :=
  if nonceBytes.length ≠ 12 then .error (.crypto "inbound nonce must be 12 bytes")
  else if candidates.isEmpty then .error (.crypto "no inbound key candidates")
  else if payload.head? = some inboundEcdhMarker then
    if payload.length < 1 + 65 + 16 then .error (.crypto "inbound envelope too short")
    else
      let point := (payload.drop 1).take 65
      match candidates.findSome? (tryEcdhCandidate x y point nonceBytes (payload.drop 66)) with
      | some s => .ok s
      | none => .error (.crypto "inbound envelope decrypt failed for all candidates")
  else if payload.head? = some inboundPqHybridMarker then
    if payload.length < 1 + 65 + 1088 + 16 then .error (.crypto "inbound pq envelope too short")
    else
      let point := (payload.drop 1).take 65
      let kemCiphertext := (payload.drop 66).take 1088
      match candidates.findSome?
          (tryPqCandidate x y point kemCiphertext nonceBytes (payload.drop 1154)) with
      | some s => .ok s
      | none => .error (.crypto "inbound pq envelope decrypt failed for all candidates")
  else .error (.crypto "not an inbound envelope")

/-! ## Envelopes -/

/-- The nonce of an envelope; an absent or empty text is the empty nonce. -/
def envelopeNonce (nonceB64 : Option String) : Except BridgeError Bytes :=
  match nonceB64 with
  | some n => if n ≠ "" then decoded y "nonce decode: " n else .ok []
  | none => .ok []

/-- The inbound branch of `decrypt_envelope_noting_origin`. -/
def openedInbound (encryptedDataB64 : String) (nonceBytes : Bytes)
    (inboundKeys : List InboundKeyCandidate) : Option String :=
  if nonceBytes.length = 12 ∧ inboundKeys.isEmpty = false then
    match y.base64Decode encryptedDataB64 with
    | .error _ => none
    | .ok data =>
        if data.head? = some inboundEcdhMarker ∨ data.head? = some inboundPqHybridMarker then
          (decryptInboundEnvelope x y data nonceBytes inboundKeys).toOption
        else none
  else none

/-- The identity keys that are tried, in turn. -/
def openedOwn (encryptedDataB64 : String) (nonceBytes : Bytes) (keys : List String) :
    Option String :=
  keys.findSome? fun ik => (decryptIdentityKeyEnvelope x y encryptedDataB64 nonceBytes ik).toOption

/-- `decrypt_envelope_noting_origin` -/
def decryptEnvelopeNotingOrigin (encryptedDataB64 : String) (nonceB64 : Option String)
    (passphrase : Bytes) (identityKey : Option String) (previousKeys : List String)
    (inboundKeys : List InboundKeyCandidate) : Except BridgeError (String × EnvelopeOrigin) := do
  let nonceBytes ← envelopeNonce y nonceB64
  if nonceBytes = [] then
    decryptPgpEnvelope y encryptedDataB64 identityKey previousKeys passphrase
  else if nonceBytes = [0x01] then
    (decryptPbkdf2Envelope x y encryptedDataB64 passphrase).map fun text => (text, .selfAuthored)
  else
    match openedInbound x y encryptedDataB64 nonceBytes inboundKeys with
    | some text => .ok (text, .inbound)
    | none =>
        match openedOwn x y encryptedDataB64 nonceBytes (identityKey.toList ++ previousKeys) with
        | some text => .ok (text, .selfAuthored)
        | none => (decryptPbkdf2Envelope x y encryptedDataB64 passphrase).map fun text =>
            (text, .selfAuthored)

/-! ## Drafts -/

/-- `DRAFT_KEY_VERSION` -/
def draftKeyVersion : String := "astermail-draft-v2"

/-- `LEGACY_DRAFT_KEY_VERSION` -/
def legacyDraftKeyVersion : String := "astermail-draft-v1"

/-- `derive_versioned_draft_key` -/
def deriveVersionedDraftKey (identityKey version : String) : Bytes :=
  y.sha256 (Utf8.encode identityKey ++ Utf8.encode version)

/-- `derive_context_key` of every account key, for `DRAFT_CONTEXT`. -/
def contextKeys (accountKeys : List Bytes) : List Bytes :=
  accountKeys.filterMap fun key =>
    (x.expand key (Utf8.encode "aster-account-data-salt-v1")
      (Utf8.encode "aster-account-data-v1:astermail-draft-v2") 32).toOption

/-- `decrypt_draft_content_with_key` -/
def decryptDraftContentWithKey (encryptedB64 nonceB64 : String) (key : Bytes) :
    Except BridgeError DraftContent := do
  let ciphertext ← decoded y "draft data decode: " encryptedB64
  let nonceBytes ← decoded y "draft nonce decode: " nonceB64
  if nonceBytes.length ≠ 12 then .error (.crypto "invalid draft nonce length")
  else
    match x.decrypt key nonceBytes ciphertext [] with
    | some plaintext =>
        (y.draftFromSlice plaintext).mapError fun e => .crypto ("draft json parse: " ++ e)
    | none => .error (.crypto "draft decrypt failed")

/-- `decrypt_draft_content` -/
def decryptDraftContent (encryptedB64 nonceB64 identityKey : String) :
    Except BridgeError DraftContent :=
  decryptDraftContentWithKey x y encryptedB64 nonceB64
    (deriveVersionedDraftKey y identityKey draftKeyVersion)

/-- `address_list` -/
def addressList (value : Option Json) : List String :=
  match value.bind Json.asArray with
  | none => []
  | some entries =>
      (entries.filterMap fun entry =>
        match entry with
        | .string s => some (String.ofList (trim s.toList))
        | .object members => ((members.lookup "email").bind Json.asStr).map fun e =>
            String.ofList (trim e.toList)
        | _ => none).filter (· ≠ "")

/-- `first_string` -/
def firstString (value : Json) (keys : List String) : String :=
  ((keys.filterMap fun key => (value.get? key).bind Json.asStr).find? (· ≠ "")).getD ""

/-- `draft_content_from_value` -/
def draftContentFromValue (value : Json) : DraftContent :=
  let pick := fun (primary other : String) => (value.get? primary).or (value.get? other)
  { toRecipients := addressList (pick "to_recipients" "to")
    ccRecipients := addressList (pick "cc_recipients" "cc")
    bccRecipients := addressList (pick "bcc_recipients" "bcc")
    subject := firstString value ["subject"]
    message := firstString value ["message", "body_html", "html_body", "body_text", "text_body"]
    attachments := (value.get? "attachments").bind y.attachmentsFromValue }

/-- `is_armored_pgp_b64` -/
def isArmoredPgpB64 (encryptedB64 : String) : Bool :=
  match y.base64Decode encryptedB64 with
  | .ok bytes => (Utf8.encode "-----BEGIN PGP MESSAGE-----").isPrefixOf bytes
  | .error _ => false

/-- The draft in the text of an envelope. -/
def draftOfText (plaintext : String) : Except BridgeError DraftContent := do
  let value ← (y.fromStr plaintext).mapError fun e => .crypto ("draft json parse: " ++ e)
  match value with
  | .object _ => return draftContentFromValue y value
  | _ => .error (.crypto "draft envelope is not an object")

/-- `decrypt_draft_envelope` -/
def decryptDraftEnvelope (encryptedB64 nonceB64 : String) (keys : DraftKeys) :
    Except BridgeError DraftContent :=
  if nonceB64 = "" ∧ isArmoredPgpB64 y encryptedB64 = false then
    .error (.crypto "draft envelope is not encrypted")
  else do
    let opened ← decryptEnvelopeNotingOrigin x y encryptedB64 (some nonceB64) keys.passphrase
      (some keys.identityKey) keys.previousKeys []
    draftOfText y opened.1

/-- The previous keys that are tried for a draft, each in both versions. -/
def openedPrevious (encryptedB64 nonceB64 : String) (previousKeys : List String) :
    Option DraftContent :=
  previousKeys.findSome? fun previousKey =>
    [draftKeyVersion, legacyDraftKeyVersion].findSome? fun version =>
      (decryptDraftContentWithKey x y encryptedB64 nonceB64
        (deriveVersionedDraftKey y previousKey version)).toOption

/-- The account keys that are tried for a draft. -/
def openedAccount (encryptedB64 nonceB64 : String) (accountKeys : List Bytes) :
    Option DraftContent :=
  (contextKeys x accountKeys).findSome? fun key =>
    (decryptDraftContentWithKey x y encryptedB64 nonceB64 key).toOption

/-- `decrypt_draft_content_with_keys` -/
def decryptDraftContentWithKeys (encryptedB64 nonceB64 : String) (keys : DraftKeys) :
    Except BridgeError DraftContent :=
  match decryptDraftContent x y encryptedB64 nonceB64 keys.identityKey with
  | .ok content => .ok content
  | .error e =>
      match ((openedPrevious x y encryptedB64 nonceB64 keys.previousKeys).or
          (openedAccount x y encryptedB64 nonceB64 keys.accountKeys)).or
          (decryptDraftEnvelope x y encryptedB64 nonceB64 keys).toOption with
      | some content => .ok content
      | none => .error e

end Readers

end AsterBridge.Crypto.Readers
