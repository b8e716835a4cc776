import AsterBridge.Lib.Text

/-!
# The account of a session

The addresses of `auth/session.rs` that a mail client may sign in with and send from.
-/

set_option autoImplicit false

namespace AsterBridge.Auth

open AsterBridge.Lib.Text

/-- `SendIdentity`. -/
structure SendIdentity where
  address : String
  senderId : String
  enabled : Bool
deriving DecidableEq

/-- `Session`: the account address and the send-as list. -/
structure Session where
  email : String
  sendIdentities : List SendIdentity
  defaultSenderId : Option String
deriving DecidableEq

/-- `SendIdentityKind` -/
inductive SendIdentityKind where
  | primary
  | alias
  | customDomain
deriving DecidableEq

/-- `SendIdentity` with the data that a message is sent with. -/
structure SenderIdentity extends SendIdentity where
  kind : SendIdentityKind
  authHashB64 : Option String
  displayName : Option String
deriving DecidableEq

namespace Session

/-- `find_send_identity` -/
def findSendIdentity (s : Session) (address : String) : Option SendIdentity :=
  s.sendIdentities.find? fun i => eqIgnoreAsciiCase i.address.toList address.toList

/-- `default_identity` -/
def defaultIdentity (s : Session) : Option SendIdentity :=
  s.defaultSenderId.bind fun id => s.sendIdentities.find? fun i => i.enabled && i.senderId == id

/-- `default_sender_address` -/
def defaultSenderAddress (s : Session) : String :=
  (s.defaultIdentity.map SendIdentity.address).getD s.email

/-- `accepts_login_name` -/
def acceptsLoginName (s : Session) (name : String) : Bool :=
  if s.email.isEmpty || name.isEmpty then false
  else eqIgnoreAsciiCase name.toList s.email.toList ||
    (s.findSendIdentity name).any SendIdentity.enabled

end Session

end AsterBridge.Auth
