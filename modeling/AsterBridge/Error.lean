import AsterBridge.Lib.Text

/-!
# Errors of the bridge

`BridgeError` of `error.rs`, its texts, and the form in which replies show a text.
-/

set_option autoImplicit false

namespace AsterBridge

/-- `BridgeError`; `Network` and `Io` carry the text of the error they wrap. -/
inductive BridgeError where
  | auth (msg : String)
  | api (msg : String)
  | crypto (msg : String)
  | database (msg : String)
  | imap (msg : String)
  | smtp (msg : String)
  | config (msg : String)
  | network (source : String)
  | io (source : String)
  | planLimit (msg : String)
  | planUpgradeRequired (msg : String)
  | messageTooLarge (msg : String)
  | recipientKey (msg : String)
deriving DecidableEq

/-- The `Display` texts of `BridgeError`. -/
def BridgeError.toText : BridgeError → String
  | .auth msg => "authentication failed: " ++ msg
  | .api msg => "API error: " ++ msg
  | .crypto msg => "crypto error: " ++ msg
  | .database msg => "database error: " ++ msg
  | .imap msg => "IMAP protocol error: " ++ msg
  | .smtp msg => "SMTP protocol error: " ++ msg
  | .config msg => "configuration error: " ++ msg
  | .network source => "network error: " ++ source
  | .io source => "IO error: " ++ source
  | .planLimit msg => "plan limit exceeded: " ++ msg
  | .planUpgradeRequired msg => "plan_upgrade_required: " ++ msg
  | .messageTooLarge msg => "message too large: " ++ msg
  | .recipientKey msg => "recipient key not trusted: " ++ msg

/-- `response_text`: a control character would end the reply line. -/
def responseText (text : List Char) : List Char :=
  if text.any Lib.Text.isControl then
    text.map fun c => if Lib.Text.isControl c then ' ' else c
  else text

end AsterBridge
