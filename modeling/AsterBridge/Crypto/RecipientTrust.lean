import AsterBridge.Error
import AsterBridge.Lib.Unicode
import AsterBridge.Lib.Utf8

/-!
# Trust in recipient keys

`crypto/recipient_trust.rs`: the pin of a recipient, the checks of a published prekey
bundle against it, and the acceptance of a key by the user.
-/

set_option autoImplicit false

namespace AsterBridge.Crypto

open AsterBridge.Lib AsterBridge.Lib.Text AsterBridge.Lib.Unicode

/-- `Vec<u8>` -/
abbrev Bytes := List UInt8

/-- Third-party code: the base64 engine `STANDARD`, SHA-256, and of `aster_crypto` the check
of a cleartext signature, which gives the signed text, and the fingerprint of a key. `upper`
is the upper case mapping of a character. -/
structure Crates where
  base64Decode : List Char → Option Bytes
  sha256 : Bytes → Vector UInt8 32
  verifyCleartextSignature : String → List Char → Option (List Char)
  publicKeyFingerprintHex : String → Option String
  upper : Char → List Char

/-! ## Published keys -/

/-- `BundlePqPrekey` -/
structure BundlePqPrekey where
  keyId : UInt32
  publicKey : String

/-- `PrekeyBundle` -/
structure PrekeyBundle where
  kemIdentityKey : String
  signedPrekey : String
  signedPrekeySignature : Option String
  pqPrekey : Option BundlePqPrekey
  pqKemPublicKey : Option String
  x3dhMaxVersion : Option Int

/-- `SignedBinding` -/
structure SignedBinding where
  x3dhVersion : Int
  epoch : Int
  fingerprint : String
deriving DecidableEq

/-- `BundleVerdict` -/
inductive BundleVerdict where
  | verified (coversPqIdentity : Bool) (signed : Option SignedBinding)
  | tampered
  | legacy
  | unknown
deriving DecidableEq

/-- `RecipientPin` -/
structure RecipientPin where
  identityFingerprint : String
  ownerFingerprint : String
  pqSeen : Bool
  pqFingerprint : String
  transcriptBound : Bool
  bindingEpoch : Int
  bindingFingerprint : String
  hosted : Bool
  flagged : Bool
deriving DecidableEq

/-- `RecipientPin::default` -/
def RecipientPin.default : RecipientPin := ⟨"", "", false, "", false, 0, "", false, false⟩

/-- `PqTarget` -/
structure PqTarget where
  publicKey : Bytes
  keyId : Int32
  signed : Bool
deriving DecidableEq

/-- `RatchetTarget` -/
structure RatchetTarget where
  identityPublic : Bytes
  signedPrekey : Bytes
  pqTarget : Option PqTarget
  transcriptBound : Bool
deriving DecidableEq

/-- `SendRoute` -/
inductive SendRoute where
  | ratchet (target : RatchetTarget)
  | accountKey
deriving DecidableEq

/-- `Evaluation` -/
structure Evaluation where
  pin : Option RecipientPin
  outcome : Except BridgeError SendRoute

/-! ## Constants -/

/-- `CLEARTEXT_SIGNATURE_HEADER` -/
def cleartextSignatureHeader : String := "-----BEGIN PGP SIGNED MESSAGE-----"

/-- `CANONICAL_PREFIX_V1` -/
def canonicalPrefixV1 : String := "aster-ratchet-prekey-v1:"

/-- `CANONICAL_PREFIX_V2` -/
def canonicalPrefixV2 : String := "aster-ratchet-prekey-v2:"

/-- `CANONICAL_PREFIX_V3` -/
def canonicalPrefixV3 : String := "aster-ratchet-prekey-v3:"

/-- `CANONICAL_NUMBER_MAX_DIGITS` -/
def canonicalNumberMaxDigits : Nat := 18

/-- `ML_KEM_768_PUBLIC_KEY_BYTES` -/
def mlKem768PublicKeyBytes : Nat := 1184

/-- `PQ_IDENTITY_KEY_ID` -/
def pqIdentityKeyId : Int32 := -1

/-- `X3DH_VERSION_TRANSCRIPT_BOUND` -/
def x3dhVersionTranscriptBound : Int := 2

/-! ## The check of a bundle -/

/-- `hex` -/
def hex (bytes : Bytes) : String :=
  String.ofList (bytes.flatMap fun b => [Nat.digitChar (b.toNat / 16), Nat.digitChar (b.toNat % 16)])

/-- `advertised_pq_identity_key` -/
def advertisedPqIdentityKey (bundle : PrekeyBundle) : Option String :=
  bundle.pqKemPublicKey.filter fun key => !key.isEmpty

/-- `canonical_v1` -/
def canonicalV1 (bundle : PrekeyBundle) : String :=
  canonicalPrefixV1 ++ bundle.kemIdentityKey ++ "." ++ bundle.signedPrekey

/-- `canonical_v2` -/
def canonicalV2 (bundle : PrekeyBundle) : Option String :=
  (advertisedPqIdentityKey bundle).map fun pq =>
    canonicalPrefixV2 ++ bundle.kemIdentityKey ++ "." ++ bundle.signedPrekey ++ "." ++ pq

/-- `canonical_number` -/
def canonicalNumber (value : List Char) : Option Int :=
  if value.isEmpty || canonicalNumberMaxDigits < (String.ofList value).utf8ByteSize ||
      value.head? == some '0' || !value.all Char.isDigit then none
  else ((parseDigits value).map fun n : Nat => (n : Int)).filter fun number => 1 ≤ number

variable (x : Crates)

/-- `signed_v3` -/
def signedV3 (bundle : PrekeyBundle) (signedText : List Char) : Option SignedBinding :=
  (signedText.dropPrefix? canonicalPrefixV3.toList).bind fun rest =>
    match rest.splitOn '.' with
    | [kem, spk, pq, version, epoch] =>
        if kem ≠ bundle.kemIdentityKey.toList ∨ spk ≠ bundle.signedPrekey.toList ∨
            pq ≠ ((advertisedPqIdentityKey bundle).getD "").toList then none
        else
          -- `i16::try_from`
          ((canonicalNumber version).filter fun v => v < 2 ^ 15).bind fun version =>
            (canonicalNumber epoch).map fun epoch =>
              ⟨version, epoch, hex (x.sha256 (Utf8.encode (String.ofList signedText))).toList⟩
    | _ => none

/-- `cleartext_signature` -/
def cleartextSignature (bundle : PrekeyBundle) : Option (List Char) :=
  bundle.signedPrekeySignature.bind fun encoded =>
    (x.base64Decode (trim encoded.toList)).bind fun decoded =>
      (Utf8.fromUtf8 decoded).filter fun text =>
        cleartextSignatureHeader.toList.isPrefixOf (trimStart text)

/-- `verify_bundle` -/
def verifyBundle (bundle : PrekeyBundle) (ownerPublicKey : Option String) : BundleVerdict :=
  match cleartextSignature x bundle with
  | none => .legacy
  | some armored =>
      match ownerPublicKey with
      | none => .unknown
      | some ownerPublicKey =>
          match x.verifyCleartextSignature ownerPublicKey armored with
          | none => .tampered
          | some signedText =>
              let signedText := trim signedText
              match signedV3 x bundle signedText with
              | some signed =>
                  .verified (advertisedPqIdentityKey bundle).isSome (some signed)
              | none =>
                  if canonicalV2 bundle = some (String.ofList signedText) then .verified true none
                  else if String.ofList signedText = canonicalV1 bundle then .verified false none
                  else .tampered

/-! ## Fingerprints -/

/-- `PIN_ID_DOMAIN` -/
def pinIdDomain : String := "aster-bridge-recipient-pin-v1"

/-- `pin_id` -/
def pinId (T : CaseTables) (accountId address : String) : String :=
  hex (x.sha256 (Utf8.encode pinIdDomain ++ [0] ++ Utf8.encode accountId ++ [0] ++
    Utf8.encode (String.ofList (T.toLowercase (trim address.toList))))).toList

/-- `key_fingerprint` -/
def keyFingerprint (ownerPublicKey : Option String) : Option String :=
  ownerPublicKey.bind x.publicKeyFingerprintHex

/-- `normalize_fingerprint` -/
def normalizeFingerprint (T : CaseTables) (value : String) : List Char :=
  T.toLowercase (value.toList.filter fun c => !isWhitespace c && c != ':')

/-- `format_fingerprint` -/
def formatFingerprint (T : CaseTables) (fingerprint : String) : List Char :=
  let upper := (normalizeFingerprint T fingerprint).flatMap x.upper
  [' '].intercalate (((Utf8.encode (String.ofList upper)).toChunks 4).map Utf8.fromUtf8Lossy)

/-! ## Refusals -/

/-- `refuse` -/
def refuse (address reason : String) : BridgeError :=
  .recipientKey (reason ++ " for " ++ address)

/-- `accept_hint` -/
def acceptHint (T : CaseTables) (address : String) : Option String → String
  | some fingerprint =>
      "The key that " ++ address ++ " publishes now has the fingerprint " ++
        String.ofList (formatFingerprint x T fingerprint) ++
        ". If you expect this change, confirm this fingerprint with the recipient, then accept " ++
        "the key. In Aster Bridge, go to Settings > Advanced, click Accept key, enter the " ++
        "address, and click Show key, or run: aster-bridge recipient-key accept " ++ address ++
        " --fingerprint " ++
        String.ofList ((normalizeFingerprint T fingerprint).flatMap x.upper)
  | none =>
      "To see the fingerprint of the key that " ++ address ++
        " publishes now, run: aster-bridge recipient-key show " ++ address

/-- `untrusted` -/
def untrusted (T : CaseTables) (address : String) (fingerprint : Option String) : BridgeError :=
  .recipientKey ("The encryption keys for " ++ address ++
    " changed or failed verification, so the message was not sent. " ++
    acceptHint x T address fingerprint)

/-- `tampered` -/
def tampered (address : String) : BridgeError :=
  .recipientKey ("The encryption keys that " ++ address ++
    " publishes are not signed by the recipient's account key, so the message was not sent. " ++
    "Accepting the key does not fix this. Ask the recipient to sign in to Aster again so their " ++
    "keys are published again.")

/-- `downgraded` -/
def downgraded (address : String) : BridgeError :=
  .recipientKey ("The post-quantum key that " ++ address ++
    " published before is no longer available, so the message was not sent with weaker " ++
    "encryption. Accepting the key does not fix this. Ask the recipient to sign in to an " ++
    "up-to-date Aster app so their post-quantum keys are published again.")

/-- `stale_binding` -/
def staleBinding (address : String) : BridgeError :=
  .recipientKey ("The encryption keys that " ++ address ++
    " publishes now are older than the keys Aster Bridge already trusts for this recipient, so " ++
    "the message was not sent. This can mean that old keys are being replayed. Accepting the " ++
    "key does not fix this. Ask the recipient to sign in to an up-to-date Aster app so their " ++
    "current keys are published again.")

/-- `no_published_key` -/
def noPublishedKey (address : String) : BridgeError :=
  .recipientKey (address ++ " has no published encryption keys, so the message was not sent.")

/-- The error of `select_pq_target` for a key of the wrong size. -/
def malformed (address : String) : BridgeError :=
  refuse address ("the published post-quantum key is malformed, and the message is not sent " ++
    "with weaker encryption")

/-! ## The evaluation -/

/-- `binding_is_stale` -/
def bindingIsStale (base : RecipientPin) : Option SignedBinding → Bool
  | none => 0 < base.bindingEpoch
  | some signed =>
      signed.epoch < base.bindingEpoch ||
        (signed.epoch == base.bindingEpoch && !base.bindingFingerprint.isEmpty &&
          signed.fingerprint != base.bindingFingerprint)

/-- `decode_key` -/
def decodeKey (address value what : String) : Except BridgeError Bytes :=
  match x.base64Decode (trim value.toList) with
  | some key => .ok key
  | none => .error (refuse address ("the " ++ what ++ " is not valid base64"))

/-- A key of the size of ML-KEM-768. -/
def sized (key : Option Bytes) : Option Bytes :=
  key.filter fun key => key.length == mlKem768PublicKeyBytes

/-- The choice of `select_pq_target` between the two decoded keys. -/
def choosePqTarget (coversPqIdentity : Bool) (address : String) (identity : Option Bytes)
    (oneTime : Option (Bytes × Int32)) : Except BridgeError (Option PqTarget) :=
  let sizedOneTime := oneTime.filter fun prekey => prekey.1.length == mlKem768PublicKeyBytes
  if coversPqIdentity then
    match sized identity with
    | some publicKey => .ok (some ⟨publicKey, pqIdentityKeyId, true⟩)
    | none => .error (malformed address)
  else
    match sizedOneTime, sized identity with
    | some (publicKey, keyId), _ => .ok (some ⟨publicKey, keyId, false⟩)
    | none, some publicKey => .ok (some ⟨publicKey, pqIdentityKeyId, false⟩)
    | none, none =>
        if identity.isSome || oneTime.isSome then .error (malformed address) else .ok none

/-- `select_pq_target` -/
def selectPqTarget (bundle : PrekeyBundle) (coversPqIdentity : Bool) (address : String) :
    Except BridgeError (Option PqTarget) := do
  let identity ← (advertisedPqIdentityKey bundle).mapM fun key =>
    decodeKey x address key "post-quantum identity key"
  let oneTime ← bundle.pqPrekey.mapM fun prekey => do
    let key ← decodeKey x address prekey.publicKey "post-quantum prekey"
    return (key, prekey.keyId.toInt32)
  choosePqTarget coversPqIdentity address identity oneTime

/-- `ratchet_target` -/
def ratchetTarget (address : String) (bundle : PrekeyBundle) (coversPqIdentity : Bool) :
    Except BridgeError RatchetTarget := do
  let identityPublic ← decodeKey x address bundle.kemIdentityKey "identity key"
  let signedPrekey ← decodeKey x address bundle.signedPrekey "signed prekey"
  let pqTarget ← selectPqTarget x bundle coversPqIdentity address
  return ⟨identityPublic, signedPrekey, pqTarget,
    x3dhVersionTranscriptBound ≤ bundle.x3dhMaxVersion.getD 1⟩

/-- `changed_pin` -/
def changedPin (existing : Option RecipientPin) (pin : RecipientPin) : Option RecipientPin :=
  if existing = some pin then none else some pin

/-- The handshake version that a verified bundle is sent with. -/
def boundTarget (base : RecipientPin) (signed : Option SignedBinding) (target : RatchetTarget) :
    RatchetTarget :=
  { target with transcriptBound := match signed with
    | some signed => x3dhVersionTranscriptBound ≤ signed.x3dhVersion
    | none => target.transcriptBound || base.transcriptBound }

/-- The pin that a verified bundle leaves. -/
def verifiedPin (base : RecipientPin) (bundle : PrekeyBundle) (signed : Option SignedBinding)
    (ownerFingerprint : String) (target : RatchetTarget) : RecipientPin where
  identityFingerprint := hex (x.sha256 target.identityPublic).toList
  ownerFingerprint := ownerFingerprint
  pqSeen := base.pqSeen || (advertisedPqIdentityKey bundle).isSome
  pqFingerprint :=
    ((target.pqTarget.filter PqTarget.signed).map fun pq =>
      hex (x.sha256 pq.publicKey).toList).getD ""
  transcriptBound := target.transcriptBound
  bindingEpoch := (signed.map SignedBinding.epoch).getD base.bindingEpoch
  bindingFingerprint := (signed.map SignedBinding.fingerprint).getD base.bindingFingerprint
  hosted := base.hosted
  flagged := false

/-- The part of `evaluate_recipient` for a verified bundle. -/
def evaluateVerified (address : String) (bundle : PrekeyBundle) (coversPqIdentity : Bool)
    (signed : Option SignedBinding) (ownerFingerprint : String) (existing : Option RecipientPin) :
    Evaluation :=
  let base := existing.getD .default
  let advertisesPq := (advertisedPqIdentityKey bundle).isSome
  if bindingIsStale base signed then ⟨none, .error (staleBinding address)⟩
  else if (!base.pqFingerprint.isEmpty && !coversPqIdentity) || (base.pqSeen && !advertisesPq) then
    ⟨none, .error (downgraded address)⟩
  else
    match ratchetTarget x address bundle coversPqIdentity with
    | .error error => ⟨none, .error error⟩
    | .ok target =>
        let target := boundTarget base signed target
        ⟨changedPin existing (verifiedPin x base bundle signed ownerFingerprint target),
          .ok (.ratchet target)⟩

/-- The part of `evaluate_recipient` for a recipient without a verified bundle. -/
def evaluateUnverified (address ownerFingerprint : String) (existing : Option RecipientPin) :
    Evaluation :=
  let base := existing.getD .default
  if 0 < base.bindingEpoch then ⟨none, .error (staleBinding address)⟩
  else if base.pqSeen then ⟨none, .error (downgraded address)⟩
  else ⟨changedPin existing { base with ownerFingerprint }, .ok .accountKey⟩

/-- The published account key is not the pinned one. -/
def ownerChanged (base : RecipientPin) (ownerPublicKey : Option String) : Bool :=
  ownerPublicKey.isSome && !base.ownerFingerprint.isEmpty &&
    !(keyFingerprint x ownerPublicKey).any fun current =>
      eqIgnoreAsciiCase base.ownerFingerprint.toList current.toList

/-- `evaluate_recipient` -/
def evaluateRecipient (T : CaseTables) (address : String) (bundle : Option PrekeyBundle)
    (ownerPublicKey : Option String) (existing : Option RecipientPin) : Evaluation :=
  let base := existing.getD .default
  let ownerFingerprint := keyFingerprint x ownerPublicKey
  let verdict := bundle.map fun bundle => verifyBundle x bundle ownerPublicKey
  if verdict = some .tampered ∨ ownerChanged x base ownerPublicKey = true ∨ base.flagged = true then
    ⟨changedPin existing { base with flagged := true },
      .error (if verdict = some .tampered then tampered address
        else untrusted x T address ownerFingerprint)⟩
  else
    match ownerFingerprint with
    | none => ⟨none, .error (noPublishedKey address)⟩
    | some ownerFingerprint =>
        match bundle, verdict with
        | some bundle, some (.verified coversPqIdentity signed) =>
            evaluateVerified x address bundle coversPqIdentity signed ownerFingerprint existing
        | _, _ => evaluateUnverified address ownerFingerprint existing

/-! ## Acceptance -/

/-- `KeyAcceptance` -/
inductive KeyAcceptance where
  | accepted (fingerprint : String)
  | mismatch (fingerprint : Option String)
deriving DecidableEq

/-- The published fingerprint, if the user has confirmed it. -/
def confirmedFingerprint (T : CaseTables) (ownerPublicKey : Option String)
    (confirmed : String) : Option String :=
  (keyFingerprint x ownerPublicKey).filter fun current =>
    !(normalizeFingerprint T confirmed).isEmpty &&
      normalizeFingerprint T current == normalizeFingerprint T confirmed

/-- The accepted key replaces another one. -/
def RecipientPin.replacesOwner (existing : RecipientPin) (fingerprint : String) : Bool :=
  !existing.ownerFingerprint.isEmpty &&
    !eqIgnoreAsciiCase existing.ownerFingerprint.toList fingerprint.toList

/-- `accepted_pin` -/
def acceptedPin (existing : RecipientPin) (fingerprint : String) : RecipientPin :=
  let ownerChanged := existing.replacesOwner fingerprint
  { existing with
    ownerFingerprint := fingerprint
    bindingEpoch := if ownerChanged then 0 else existing.bindingEpoch
    bindingFingerprint := if ownerChanged then "" else existing.bindingFingerprint
    flagged := false }

/-- `accept_recipient_key`, on the row of the recipient. -/
def acceptRecipientKey (T : CaseTables) (ownerPublicKey : Option String) (confirmed : String)
    (existing : Option RecipientPin) : KeyAcceptance × Option RecipientPin :=
  match confirmedFingerprint x T ownerPublicKey confirmed with
  | none => (.mismatch (keyFingerprint x ownerPublicKey), existing)
  | some fingerprint =>
      (.accepted fingerprint, some (acceptedPin (existing.getD .default) fingerprint))

end AsterBridge.Crypto
