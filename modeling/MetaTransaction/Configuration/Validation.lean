import MetaTransaction.Address
import MetaTransaction.Configuration.Basic
import MetaTransaction.Confirmation.Settings

/-!
# Checking configurations

What the form of a configuration cannot express: the network has to be usable, the texts of topics,
wallet and key have to be what they stand for, and the engine has to accept its settings. The checks
are made in a fixed order, and the first one that fails decides the error.
-/

namespace MetaTransaction.Configuration

/-- The topics that a configuration can override. -/
inductive TopicField
  | nonceChange
  | failure
deriving DecidableEq, Repr

/-- The name of the field. -/
def TopicField.name : TopicField → String
  | .nonceChange => "nonce_changed_topic"
  | .failure => "tx_failed_topic"

/-- What is wrong with the values of a configuration, with the value that messages name. -/
inductive Violation
  /-- the variable that overrides the chain is no number -/
  | chainOverride (error : Decimal.Error)
  | zeroChain
  | notHttp (endpoint : String)
  | zeroTimeout
  | topicLength (field : TopicField)
  | topicDigit (field : TopicField) (digit : Hex.BadDigit)
  | wallet (text : String) (error : Address.Error)
  | settings (error : Confirmation.SettingsError)
  | relayerKey
deriving DecidableEq, Repr

/-- The error as messages word it. -/
def Violation.detail : Violation → String
  | .chainOverride error => "Invalid chain id: " ++ error.message
  | .zeroChain => "network.chain_id must be greater than zero"
  | .notHttp endpoint => s!"network.rpc_url must be an http(s) URL, got '{endpoint}'"
  | .zeroTimeout => "confirmation.default_timeout_secs must be greater than zero"
  | .topicLength field => s!"{field.name} must be 32 bytes of hex"
  | .topicDigit field digit => s!"{field.name} is not valid hex: Invalid {digit.description}"
  | .wallet text error => s!"Invalid wallet address {text}: {error.message}"
  | .settings error => (Confirmation.Error.invalidSettings error).message
  | .relayerKey => "relayer.private_key must be 32 bytes of hex"

/-- The topic of sixty-four digits after an optional `0x`. -/
def readTopic (field : TopicField) (text : String) : Except Violation Hash :=
  let digits := Hex.stripLower (Bytes.ofString text)
  if digits.length ≠ 64 then .error (.topicLength field)
  else
    match Hex.decode digits with
    | .error .oddLength => .error (.topicLength field)
    | .error (.badDigit digit) => .error (.topicDigit field digit)
    | .ok bytes => if h : bytes.length = 32 then .ok ⟨bytes, h⟩ else .error (.topicLength field)

/-- The topic of a field, or the default when the field is left out. -/
def topicOr (default : Hash) (field : TopicField) : Option String → Except Violation Hash
  | none => .ok default
  | some text => readTopic field text

/-- The wallet of a field, if any. -/
def wallet? : Option String → Except Violation (Option Address)
  | none => .ok none
  | some text =>
    match Address.read text with
    | .error e => .error (.wallet text e)
    | .ok address => .ok (some address)

open Confirmation (Settings nonceChangeTopic failureTopic)

/-- The settings of the engine, checked as the engine does. The numbers of the section are seconds
for the timeout and milliseconds for the pause. -/
def Engine.settings (c : Engine) : Except Violation Settings := do
  let nonceTopic ← topicOr nonceChangeTopic .nonceChange c.nonceTopic
  let failedTopic ← topicOr failureTopic .failure c.failedTopic
  let wallet ← wallet? c.wallet
  let settings : Settings := {
    defaultTimeout := .ofSeconds c.defaultTimeout.toNat
    lookback := c.lookback
    overlap := c.overlap
    pollInterval := .ofMilliseconds c.pollInterval.toNat
    nonceTopic, failedTopic, wallet }
  settings.validate.mapError .settings
  return settings

/-- Whether an endpoint has one of the two schemes. -/
def isHttp (endpoint : String) : Bool :=
  "http://".toList.isPrefixOf endpoint.toList || "https://".toList.isPrefixOf endpoint.toList

/-- Whether a text is sixty-four digits after an optional `0x`. That an account has the number which
they write is not asked. -/
def isKey (text : String) : Bool :=
  let digits := Hex.stripLower (Bytes.ofString text)
  digits.length = 64 && (Hex.decode digits).toBool

/-- Refuses a configuration that cannot be used. The timeout is checked before the settings are
read, although reading them would notice it too, so that its error comes before those of the
topics. -/
def validate (c : Configuration) : Except Violation Unit := do
  if c.network.chain.value = 0 then throw .zeroChain
  if !isHttp c.network.endpoint then throw (.notHttp c.network.endpoint)
  if c.confirmation.defaultTimeout = 0 then throw .zeroTimeout
  let _ ← c.confirmation.settings
  match c.relayer with
  | none => return ()
  | some relayer => if isKey relayer.key then return () else throw .relayerKey

end MetaTransaction.Configuration
