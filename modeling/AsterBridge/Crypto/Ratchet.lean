import AsterBridge.Crypto.InternalSend
import AsterBridge.Lib.JsonText

/-!
# Ratchet messages

`crypto/ratchet.rs` and the sealing in `crypto/internal_send.rs`: the handshake secret of both
sides, the encryption of a first message, the envelope that names all recipients, and how a
recipient finds, parses and opens its part of it. What the random source gives is a parameter.
-/

set_option autoImplicit false

namespace AsterBridge.Crypto.Ratchet

open AsterBridge.Lib AsterBridge.Lib.Text AsterBridge.Lib.Unicode

/-! ## Third-party code -/

/-- P-256, HKDF-SHA-256, ML-KEM-768 and AES-256-GCM. The functions for ML-KEM give the errors of
their wrappers; `encapsulate` takes the random bytes that it uses. -/
structure Primitives (Scalar Point : Type) where
  fromSlice : Bytes → Except String Scalar
  toBytes : Scalar → Bytes
  publicKey : Scalar → Point
  fromSec1Bytes : Bytes → Except String Point
  /-- without compression -/
  toEncodedPoint : Point → Bytes
  diffieHellman : Scalar → Point → Bytes
  expand (ikm salt info : Bytes) (outLen : Nat) : Except String Bytes
  encapsulate (publicKey random : Bytes) : Except String (Bytes × Bytes)
  decapsulate (ciphertext secretKey : Bytes) : Except String Bytes
  encrypt (key nonce msg aad : Bytes) : Option Bytes
  decrypt (key nonce msg aad : Bytes) : Option Bytes

/-- The base64 engine `STANDARD` and the texts of `serde_json`. -/
structure Wire where
  base64Encode : Bytes → List Char
  base64Decode : List Char → Option Bytes
  toText : Json → List Char
  fromStr : List Char → Option Json

/-! ## Constants -/

/-- `X3DH_INFO_CLASSICAL` -/
def x3dhInfoClassical : Bytes := Utf8.encode "Aster Mail_X3DH_v1"

/-- `X3DH_INFO_PQ` -/
def x3dhInfoPq : Bytes := Utf8.encode "Aster Mail_PQXDH_v1"

/-- `X3DH_INFO_PQ_IDENTITY` -/
def x3dhInfoPqIdentity : Bytes := Utf8.encode "Aster Mail_PQXDH_identity_v1"

/-- `X3DH_INFO_CLASSICAL_V2` -/
def x3dhInfoClassicalV2 : Bytes := Utf8.encode "Aster Mail_X3DH_v2"

/-- `X3DH_INFO_PQ_V2` -/
def x3dhInfoPqV2 : Bytes := Utf8.encode "Aster Mail_PQXDH_v2"

/-- `X3DH_INFO_PQ_IDENTITY_V2` -/
def x3dhInfoPqIdentityV2 : Bytes := Utf8.encode "Aster Mail_PQXDH_identity_v2"

/-- `KDF_INFO_ROOT` -/
def kdfInfoRoot : Bytes := Utf8.encode "Aster Mail_Root_KDF"

/-- `KDF_INFO_CHAIN` -/
def kdfInfoChain : Bytes := Utf8.encode "Aster Mail_Chain_KDF"

/-- `RATCHET_HEADER_AD_PREFIX` -/
def ratchetHeaderAdPrefix : Bytes := Utf8.encode "astermail-ratchet-header-v2"

/-- `ZERO_SALT_32` -/
def zeroSalt32 : Bytes := List.replicate 32 0

/-! ## The handshake -/

/-- `RatchetReceiverKeys` -/
structure RatchetReceiverKeys where
  identitySecretD : Bytes
  signedPrekeySecretD : Bytes
  signedPrekeyPublic : Bytes
deriving DecidableEq

/-- `RatchetMessage` -/
structure RatchetMessage where
  senderIdentityPublic : Bytes
  ephemeralPublic : Bytes
  headerDhPublic : Bytes
  previousChainLength : UInt32
  messageNumber : UInt32
  headerVersion : Option UInt8
  ciphertext : Bytes
  nonce : Bytes
  pqCiphertext : Option Bytes
  pqKeyId : Option Int32
  pqSecret : Option Bytes
  x3dhVersion : Option UInt8
deriving DecidableEq

/-- `PqContribution` -/
structure PqContribution where
  sharedSecret : Bytes
  ciphertext : Bytes
  fromIdentity : Bool

/-- `Transcript` -/
structure Transcript where
  initiatorIdentity : Bytes
  responderIdentity : Bytes

section Handshake

variable {Scalar Point : Type} (x : Primitives Scalar Point)

/-- `ecdh_p256` -/
def ecdhP256 (secretD publicSec1 : Bytes) : Except String Bytes := do
  let sk ← (x.fromSlice secretD).mapError fun e => "p256 secret: " ++ e
  let pk ← (x.fromSec1Bytes publicSec1).mapError fun e => "p256 public: " ++ e
  return x.diffieHellman sk pk

/-- `hkdf_sha256` -/
def hkdfSha256 (ikm salt info : Bytes) (outLen : Nat) : Except String Bytes :=
  (x.expand ikm salt info outLen).mapError fun e => "hkdf expand: " ++ e

/-- `to_be_bytes` -/
def beBytes (n : UInt32) : Bytes :=
  [(n >>> 24).toUInt8, (n >>> 16).toUInt8, (n >>> 8).toUInt8, n.toUInt8]

/-- `serialize_header_ad` -/
def serializeHeaderAd (version : UInt8) (dhPublic : Bytes) (previousChainLength : UInt32)
    (messageNumber : UInt32) : Bytes :=
  ratchetHeaderAdPrefix ++ [version] ++ dhPublic ++ beBytes previousChainLength ++
    beBytes messageNumber

/-- `identity_public_sec1` -/
def identityPublicSec1 (secretD : Bytes) : Except String Bytes := do
  let sk ← (x.fromSlice secretD).mapError fun e => "p256 secret: " ++ e
  return x.toEncodedPoint (x.publicKey sk)

/-- The label of `x3dh_shared_secret`. -/
def x3dhInfo (pq : Option PqContribution) (bound : Bool) : Bytes :=
  match pq with
  | some pq =>
      match pq.fromIdentity, bound with
      | true, true => x3dhInfoPqIdentityV2
      | true, false => x3dhInfoPqIdentity
      | false, true => x3dhInfoPqV2
      | false, false => x3dhInfoPq
  | none => if bound then x3dhInfoClassicalV2 else x3dhInfoClassical

/-- The key material of `x3dh_shared_secret`. -/
def x3dhIkm (dh1 dh2 dh3 : Bytes) (pq : Option PqContribution) (transcript : Option Transcript) :
    Bytes :=
  let secret := match pq with
    | some pq => pq.sharedSecret
    | none => []
  let bound := match transcript with
    | some t =>
        t.initiatorIdentity ++ (t.responderIdentity ++
          match pq with
          | some pq => pq.ciphertext
          | none => [])
    | none => []
  dh1 ++ dh2 ++ dh3 ++ secret ++ bound

/-- `x3dh_shared_secret` -/
def x3dhSharedSecret (dh1 dh2 dh3 : Bytes) (pq : Option PqContribution)
    (transcript : Option Transcript) : Except String Bytes :=
  hkdfSha256 x (x3dhIkm dh1 dh2 dh3 pq transcript) zeroSalt32 (x3dhInfo pq transcript.isSome) 32

/-- The steps of both sides from the root to the key of the first message. -/
def messageKey (dhRoot sharedSecret : Bytes) : Except String Bytes := do
  let rootOut ← hkdfSha256 x dhRoot sharedSecret kdfInfoRoot 64
  let chainOut ← hkdfSha256 x (rootOut.drop 32) zeroSalt32 kdfInfoChain 64
  return chainOut.drop 32

/-! ## Receiving -/

/-- Whether the version of a message binds the transcript. -/
def boundVersion : Option UInt8 → Except String Bool
  | none => .ok false
  | some v =>
      if v = 1 then .ok false
      else if v = 2 then .ok true
      else .error ("unsupported x3dh version " ++ toString v)

/-- The contribution of ML-KEM to a received message. -/
def receivedPq (msg : RatchetMessage) : Except String (Option PqContribution) :=
  match msg.pqCiphertext, msg.pqSecret with
  | some ct, some sk => do
      let sharedSecret ← x.decapsulate ct sk
      return some ⟨sharedSecret, ct, msg.pqKeyId = some pqIdentityKeyId⟩
  | _, _ => .ok none

/-- `derive_x3dh_shared_secret` -/
def deriveX3dhSharedSecret (keys : RatchetReceiverKeys) (msg : RatchetMessage) :
    Except String Bytes := do
  let transcriptBound ← boundVersion msg.x3dhVersion
  let dh1 ← ecdhP256 x keys.signedPrekeySecretD msg.senderIdentityPublic
  let dh2 ← ecdhP256 x keys.identitySecretD msg.ephemeralPublic
  let dh3 ← ecdhP256 x keys.signedPrekeySecretD msg.ephemeralPublic
  let pq ← receivedPq x msg
  let responderIdentity ← identityPublicSec1 x keys.identitySecretD
  let transcript : Option Transcript :=
    if transcriptBound then some ⟨msg.senderIdentityPublic, responderIdentity⟩ else none
  x3dhSharedSecret x dh1 dh2 dh3 pq transcript

/-- The two attempts of `decrypt_bootstrap`, with and without the header. -/
def attempts (headerVersion : Option UInt8) (ad : Bytes) : List Bytes :=
  if headerVersion.any fun v => 2 ≤ v then [ad, []] else [[], ad]

/-- `decrypt_bootstrap` -/
def decryptBootstrap (keys : RatchetReceiverKeys) (msg : RatchetMessage) :
    Except String String := do
  if msg.nonce.length ≠ 12 then .error "ratchet nonce must be 12 bytes"
  else
    let sharedSecret ← deriveX3dhSharedSecret x keys msg
    let dhRoot ← ecdhP256 x keys.signedPrekeySecretD msg.headerDhPublic
    let key ← messageKey x dhRoot sharedSecret
    let ad := serializeHeaderAd (msg.headerVersion.getD 1) msg.headerDhPublic
      msg.previousChainLength msg.messageNumber
    match (attempts msg.headerVersion ad).findSome? fun aad =>
        x.decrypt key msg.nonce msg.ciphertext aad with
    | none => .error "ratchet message decryption failed"
    | some plaintext =>
        match Utf8.fromUtf8 plaintext with
        | some text => .ok (String.ofList text)
        | none => .error "plaintext utf8"

/-- `decrypt_with_key_sets` -/
def decryptWithKeySets (keySets : List RatchetReceiverKeys) (msg : RatchetMessage) :
    Option String :=
  keySets.findSome? fun keys => (decryptBootstrap x keys msg).toOption

/-! ## Sending -/

/-- What the random source gives for one message. -/
structure Draw (Scalar : Type) where
  ephemeral : Scalar
  encapsulation : Bytes
  ratchet : Scalar
  nonce : Vector UInt8 12

/-- The contribution of ML-KEM to a message, with the id of the key. -/
def sentPq (random : Bytes) (recipientPqPublic : Option Bytes) (pqKeyId : Option Int32) :
    Except String (Option (PqContribution × Int32)) :=
  match recipientPqPublic, pqKeyId with
  | some pqPublic, some kid => do
      let (ct, ss) ← x.encapsulate pqPublic random
      return some (⟨ss, ct, kid = pqIdentityKeyId⟩, kid)
  | _, _ => .ok none

/-- `encrypt_bootstrap_versioned` -/
def encryptBootstrapVersioned (d : Draw Scalar) (senderIdentitySecretD : Bytes)
    (recipientIdentityPublic recipientSignedPrekeyPublic : Bytes)
    (recipientPqPublic : Option Bytes) (pqKeyId : Option Int32) (transcriptBound : Bool)
    (plaintext : String) : Except String RatchetMessage := do
  let senderIdentity ←
    (x.fromSlice senderIdentitySecretD).mapError fun e => "sender identity: " ++ e
  let senderIdentityPublic := x.toEncodedPoint (x.publicKey senderIdentity)
  let ephemeralD := x.toBytes d.ephemeral
  let dh1 ← ecdhP256 x senderIdentitySecretD recipientSignedPrekeyPublic
  let dh2 ← ecdhP256 x ephemeralD recipientIdentityPublic
  let dh3 ← ecdhP256 x ephemeralD recipientSignedPrekeyPublic
  let pq ← sentPq x d.encapsulation recipientPqPublic pqKeyId
  let transcript : Option Transcript :=
    if transcriptBound then some ⟨senderIdentityPublic, recipientIdentityPublic⟩ else none
  let sharedSecret ← x3dhSharedSecret x dh1 dh2 dh3 (pq.map Prod.fst) transcript
  let ratchetPublic := x.toEncodedPoint (x.publicKey d.ratchet)
  let dhRoot ← ecdhP256 x (x.toBytes d.ratchet) recipientSignedPrekeyPublic
  let key ← messageKey x dhRoot sharedSecret
  let ad := serializeHeaderAd 2 ratchetPublic 0 0
  match x.encrypt key d.nonce.toList (Utf8.encode plaintext) ad with
  | none => .error "ratchet encrypt failed"
  | some ciphertext =>
      .ok
        { senderIdentityPublic
          ephemeralPublic := x.toEncodedPoint (x.publicKey d.ephemeral)
          headerDhPublic := ratchetPublic
          previousChainLength := 0
          messageNumber := 0
          headerVersion := some 2
          ciphertext
          nonce := d.nonce.toList
          pqCiphertext := pq.map fun p => p.1.ciphertext
          pqKeyId := pq.map Prod.snd
          pqSecret := none
          x3dhVersion := if transcriptBound then some 2 else none }

/-- `seal_for_recipient` -/
def sealForRecipient (d : Draw Scalar) (senderIdentitySecretD : Bytes) (target : RatchetTarget)
    (plaintext : String) : Except BridgeError RatchetMessage :=
  (encryptBootstrapVersioned x d senderIdentitySecretD target.identityPublic target.signedPrekey
    (target.pqTarget.map PqTarget.publicKey) (target.pqTarget.map PqTarget.keyId)
    target.transcriptBound plaintext).mapError .crypto

end Handshake

/-! ## The envelope -/

section Envelope

variable (w : Wire)

/-- `json!` of the base64 text of bytes. -/
def base64Json (bytes : Bytes) : Json := .string (String.ofList (w.base64Encode bytes))

/-- `recipient_entry` -/
def recipientEntry (message : RatchetMessage) : Json :=
  let header : Json := .object
    [("dh_public", base64Json w message.headerDhPublic),
      ("previous_chain_length", .int message.previousChainLength.toNat),
      ("message_number", .int message.messageNumber.toNat)]
  let header := match message.headerVersion with
    | some version => header.set "v" (.int version.toNat)
    | none => header
  let entry : Json := .object
    [("ephemeral_key", base64Json w message.ephemeralPublic), ("header", header),
      ("ciphertext", base64Json w message.ciphertext), ("nonce", base64Json w message.nonce)]
  let entry := match message.pqCiphertext, message.pqKeyId with
    | some ciphertext, some keyId =>
        (entry.set "pq_ciphertext" (base64Json w ciphertext)).set "pq_key_id" (.int keyId.toInt)
    | _, _ => entry
  match message.x3dhVersion.filter fun version => 1 < version with
  | some version => entry.set "x3dh_v" (.int version.toNat)
  | none => entry

/-- The value of `build_envelope`. -/
def envelopeJson (senderIdentityKey : String) (recipients : List (String × Json)) : Json :=
  .object
    [("type", .string "double_ratchet_v2"), ("sender_identity_key", .string senderIdentityKey),
      ("recipients", .object (recipients.foldl insertEntry []))]

/-- `build_envelope` -/
def buildEnvelope (senderIdentityKey : String) (recipients : List (String × Json)) : String :=
  String.ofList (w.toText (envelopeJson senderIdentityKey recipients))

section Seal

variable {Scalar Point : Type} (x : Primitives Scalar Point) (T : CaseTables)

/-- The loop of `seal_ratchet_envelope`: the messages so far, none if a recipient has no ratchet.
Each recipient comes with what is drawn for it. -/
def sealedMessages (senderIdentitySecretD : Bytes) (plaintext : String) :
    List (RoutedRecipient × Draw Scalar) →
      Except BridgeError (Option (List (String × RatchetMessage)))
  | [] => .ok (some [])
  | (recipient, d) :: rest =>
      match recipient.route with
      | .accountKey => .ok none
      | .ratchet target => do
          let message ← sealForRecipient x d senderIdentitySecretD target plaintext
          let messages ← sealedMessages senderIdentitySecretD plaintext rest
          return messages.map ((lowered T recipient.address, message) :: ·)

/-- `seal_ratchet_envelope` -/
def sealRatchetEnvelope (senderIdentitySecretD : Bytes)
    (recipients : List (RoutedRecipient × Draw Scalar)) (plaintext : String) :
    Except BridgeError (Option String) := do
  let messages ← sealedMessages x T senderIdentitySecretD plaintext recipients
  match messages with
  | none | some [] => return none
  | some (first :: rest) =>
      let key := String.ofList (w.base64Encode first.2.senderIdentityPublic)
      return some (buildEnvelope w key
        ((first :: rest).map fun m => (m.1, recipientEntry w m.2)))

end Seal

/-! ## Finding and parsing -/

/-- `is_ratchet_type` -/
def isRatchetType (value : Json) : Bool :=
  ((value.get? "type").bind Json.asStr).any fun t => "double_ratchet".toList.isPrefixOf t.toList

/-- `BODY_FIELDS` -/
def bodyFields : List String :=
  ["body_html", "html_body", "html", "body_text", "text_body", "body", "text"]

/-- The ratchet object that a body field holds as text. -/
def ratchetIn (envelope : Json) (field : String) : Option Json := do
  let s ← (envelope.get? field).bind Json.asStr
  let trimmed := trimStart s.toList
  if trimmed.head? = some '{' then (w.fromStr trimmed).filter isRatchetType else none

/-- `find_ratchet_object` -/
def findRatchetObject (envelope : Json) : Option Json :=
  if isRatchetType envelope then some envelope else bodyFields.findSome? (ratchetIn w envelope)

/-- `b64_decode` -/
def b64Decode (s : String) : Option Bytes := w.base64Decode (trim s.toList)

/-- The bytes of a member. -/
def bytesAt (value : Json) (name : String) : Option Bytes :=
  ((value.get? name).bind Json.asStr).bind (b64Decode w)

/-- The number of a member, cut to 32 bits. -/
def u32At (value : Json) (name : String) : UInt32 :=
  UInt32.ofNat (((value.get? name).bind Json.asU64).getD 0)

/-- `as_object` -/
def asObject : Json → Option (List (String × Json))
  | .object members => some members
  | _ => none

/-- `parse_recipient_message` -/
def parseRecipientMessage (T : CaseTables) (ratchet : Json) (ourEmail : String) :
    Option RatchetMessage := do
  let senderIdentityPublic ← bytesAt w ratchet "sender_identity_key"
  let recipients ← (ratchet.get? "recipients").bind asObject
  let (_, rec) ← recipients.find? fun r => lowered T r.1 == lowered T ourEmail
  let header ← rec.get? "header"
  let headerDhPublic ← bytesAt w header "dh_public"
  let ephemeralPublic ← bytesAt w rec "ephemeral_key"
  let ciphertext ← bytesAt w rec "ciphertext"
  let nonce ← bytesAt w rec "nonce"
  return {
    senderIdentityPublic
    ephemeralPublic
    headerDhPublic
    previousChainLength := u32At header "previous_chain_length"
    messageNumber := u32At header "message_number"
    headerVersion := ((header.get? "v").bind Json.asU64).map UInt8.ofNat
    ciphertext
    nonce
    pqCiphertext := bytesAt w rec "pq_ciphertext"
    pqKeyId := ((rec.get? "pq_key_id").bind Json.asI64).map Int32.ofInt
    pqSecret := none
    -- `u8::try_from`
    x3dhVersion := ((rec.get? "x3dh_v").bind Json.asU64).map fun v =>
      if v < 256 then UInt8.ofNat v else 255 }

/-- What the callers of `parse_recipient_message` do for a message with a post-quantum key. -/
def fillPqSecret (secrets : Int32 → Option Bytes) (msg : RatchetMessage) : RatchetMessage :=
  match msg.pqKeyId with
  | some keyId => { msg with pqSecret := secrets keyId }
  | none => msg

/-- How a recipient reads a body. -/
def openBody {Scalar Point : Type} (x : Primitives Scalar Point) (T : CaseTables) (envelope : Json)
    (ourEmail : String) (secrets : Int32 → Option Bytes) (keySets : List RatchetReceiverKeys) :
    Option String := do
  let ratchet ← findRatchetObject w envelope
  let msg ← parseRecipientMessage w T ratchet ourEmail
  decryptWithKeySets x keySets (fillPqSecret secrets msg)

end Envelope

end AsterBridge.Crypto.Ratchet
