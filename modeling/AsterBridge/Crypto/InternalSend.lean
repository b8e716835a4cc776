import AsterBridge.Crypto.RecipientTrust
import AsterBridge.Lib.Json

/-!
# Recipients inside Aster

The part of `crypto/internal_send.rs` that decides who gets which body: the recipients of a
payload, the internal ones among them, those that stay hidden, and the shared envelope and
the single bodies that are sealed for them.
-/

set_option autoImplicit false

namespace AsterBridge.Crypto

open AsterBridge.Lib AsterBridge.Lib.Text AsterBridge.Lib.Unicode

/-- `INTERNAL_DOMAINS` -/
def internalDomains : List String :=
  ["astermail.org", "aster.cx", "astermail.me", "astermail.net", "gs-cloud.space", "realiased.me"]

/-- `str::trim` on an address. -/
def trimmed (address : String) : String := String.ofList (trim address.toList)

/-- `eq_ignore_ascii_case` on addresses. -/
def sameAddress (a b : String) : Bool := eqIgnoreAsciiCase a.toList b.toList

/-- `to_lowercase` on an address. -/
def lowered (T : CaseTables) (address : String) : String :=
  String.ofList (T.toLowercase address.toList)

/-- `is_internal_address` -/
def isInternalAddress (T : CaseTables) (address : String) : Bool :=
  internalDomains.any fun domain =>
    ('@' :: domain.toList).isSuffixOf (T.toLowercase (trim address.toList))

/-! ## The recipients of a payload -/

/-- The texts of a list of the payload. -/
def fieldTexts (payload : Json) (field : String) : List String :=
  (((payload.get? field).bind Json.asArray).getD []).filterMap Json.asStr

/-- The addresses of a list of the payload: trimmed, and not empty. -/
def fieldAddresses (payload : Json) (field : String) : List String :=
  ((fieldTexts payload field).map trimmed).filter fun address => !address.isEmpty

/-- The addresses of a list, each the first of those that are equal but for ASCII case. -/
def firstOfEach (addresses : List String) : List String :=
  addresses.foldl
    (fun out address => if out.any (sameAddress · address) then out else out ++ [address]) []

/-- `payload_recipients` -/
def payloadRecipients (payload : Json) : List String :=
  firstOfEach (["to", "cc", "bcc"].flatMap (fieldAddresses payload))

/-- `listed_in` -/
def listedIn (payload : Json) (fields : List String) (address : String) : Bool :=
  fields.any fun field =>
    (fieldTexts payload field).any fun listed => sameAddress (trimmed listed) (trimmed address)

/-- `HostedRecipients` -/
structure HostedRecipients where
  hosted : List String
  routedLikeExternal : List String

namespace HostedRecipients

/-- `HostedRecipients::contains` -/
def contains (h : HostedRecipients) (address : String) : Bool :=
  (h.hosted ++ h.routedLikeExternal).any fun listed => sameAddress listed (trimmed address)

/-- `HostedRecipients::routed_like_external` -/
def isRoutedLikeExternal (h : HostedRecipients) (address : String) : Bool :=
  h.routedLikeExternal.any fun listed => sameAddress listed (trimmed address)

end HostedRecipients

/-- `RecipientSplit` -/
structure RecipientSplit where
  internal : List String
  hidden : List String
  hasExternal : Bool
deriving DecidableEq

variable (T : CaseTables)

/-- The closure `is_aster` of `split_recipients_with`. -/
def isAster (hosted : HostedRecipients) (address : String) : Bool :=
  isInternalAddress T address || hosted.contains address

/-- `split_recipients_with` -/
def splitRecipientsWith (payload : Json) (hosted : HostedRecipients) : RecipientSplit :=
  let all := payloadRecipients payload
  let internal := all.filter (isAster T hosted)
  { internal
    hidden := internal.filter fun address =>
      listedIn payload ["bcc"] address && !listedIn payload ["to", "cc"] address
    hasExternal := all.any fun address =>
      !isAster T hosted address || hosted.isRoutedLikeExternal address }

/-- `split_recipients` -/
def splitRecipients (payload : Json) : RecipientSplit := splitRecipientsWith T payload ⟨[], []⟩

/-- `SELF_TO_PLACEHOLDER` -/
def selfToPlaceholder : String := "bridge_self_to_placeholder"

/-- `take_self_to_placeholder` -/
def takeSelfToPlaceholder (payload : Json) : Json × Option String :=
  (payload.remove selfToPlaceholder, (payload.get? selfToPlaceholder).bind Json.asStr)

/-- `drop_sealed_self_placeholder` -/
def dropSealedSelfPlaceholder (payload : Json) (ownAddress : String) (hosted : HostedRecipients) :
    Json :=
  let toIsPlaceholder :=
    match (payload.get? "to").bind Json.asArray with
    | some [only] => only.asStr.any fun a => sameAddress (trimmed a) (trimmed ownAddress)
    | _ => false
  let others := fieldAddresses payload "cc" ++ fieldAddresses payload "bcc"
  let allSealed := !others.isEmpty && others.all fun address =>
    !sameAddress address (trimmed ownAddress) && isAster T hosted address &&
      !hosted.isRoutedLikeExternal address
  if toIsPlaceholder && allSealed then payload.set "to" (.array []) else payload

/-! ## Sealed bodies -/

/-- `RoutedRecipient` -/
structure RoutedRecipient where
  address : String
  route : SendRoute
  accountKey : Option String

/-- The keys of the sender for one plaintext. `bootstrap` is `seal_for_recipient`, which makes
a message of type `ρ`; `senderIdentity` is the sender's key in it; `armor` is
`seal_with_account_keys` for the account keys of the recipients. -/
structure Sealer (ρ : Type) where
  bootstrap : RatchetTarget → Except BridgeError ρ
  senderIdentity : ρ → String
  hasAccountKey : Bool
  armor : List String → Except BridgeError String

/-- The text of a sealed body: an envelope that names its recipients, or a message to the
account keys of all of them. -/
inductive SealedBody (ρ : Type) where
  | envelope (senderIdentityKey : String) (recipients : List (String × ρ))
  | armored (recipientKeys : List String) (text : String)

/-- `insert` of a map. -/
def insertEntry {ρ : Type} (map : List (String × ρ)) (entry : String × ρ) : List (String × ρ) :=
  (map.filter fun e => e.1 != entry.1) ++ [entry]

variable {ρ : Type} (k : Sealer ρ)

/-- The messages of the loop of `seal_ratchet_envelope`, none if a recipient has no ratchet. -/
def ratchetMessages : List RoutedRecipient → Except BridgeError (Option (List (String × ρ)))
  | [] => .ok (some [])
  | r :: rest =>
      match r.route with
      | .accountKey => .ok none
      | .ratchet target =>
          match k.bootstrap target with
          | .error e => .error e
          | .ok message =>
              match ratchetMessages rest with
              | .error e => .error e
              | .ok messages => .ok (messages.map ((lowered T r.address, message) :: ·))

/-- `seal_ratchet_envelope`, with the map of `build_envelope`. -/
def sealRatchetEnvelope (recipients : List RoutedRecipient) :
    Except BridgeError (Option (SealedBody ρ)) :=
  match ratchetMessages T k recipients with
  | .error e => .error e
  | .ok none => .ok none
  | .ok (some []) => .ok none
  | .ok (some (first :: rest)) =>
      .ok (some (.envelope (k.senderIdentity first.2) ((first :: rest).foldl insertEntry [])))

/-- `recipient_account_key` -/
def recipientAccountKey (r : RoutedRecipient) : Except BridgeError String :=
  match r.accountKey with
  | some key => .ok key
  | none => .error (noPublishedKey r.address)

/-- `seal_routed` -/
def sealRouted (recipients : List RoutedRecipient) : Except BridgeError (SealedBody ρ) :=
  match sealRatchetEnvelope T k recipients with
  | .error e => .error e
  | .ok (some envelope) => .ok envelope
  | .ok none =>
      if k.hasAccountKey then
        match recipients.mapM recipientAccountKey with
        | .error e => .error e
        | .ok keys => (k.armor keys).map (.armored keys)
      else .error (.crypto "no account key in the vault; cannot encrypt for Aster recipients")

/-- The bodies of the hidden recipients, one for each. -/
def sealEach : List RoutedRecipient → Except BridgeError (List (String × SealedBody ρ))
  | [] => .ok []
  | r :: rest =>
      match sealRouted T k [r] with
      | .error e => .error e
      | .ok body => (sealEach rest).map ((r.address, body) :: ·)

/-- `seal_shared_and_hidden` -/
def sealSharedAndHidden (routed : List RoutedRecipient) (hidden : List String) :
    Except BridgeError (SealedBody ρ × List (String × SealedBody ρ)) :=
  if hidden.isEmpty then (sealRouted T k routed).map fun shared => (shared, [])
  else
    let isHidden (r : RoutedRecipient) : Bool := hidden.any (sameAddress · r.address)
    match sealRouted T k (routed.filter fun r => !isHidden r) with
    | .error e => .error e
    | .ok shared => (sealEach T k (routed.filter isHidden)).map fun bodies => (shared, bodies)

/-- The map `recipient_bodies` of `apply_hidden_bodies`. -/
def recipientBodies (hiddenBodies : List (String × SealedBody ρ)) : List (String × SealedBody ρ) :=
  hiddenBodies.foldl (fun map e => insertEntry map (lowered T (trimmed e.1), e.2)) []

end AsterBridge.Crypto
