import MetaTransaction.Node.Endpoint
import MetaTransaction.Node.Reader
import MetaTransaction.Relay.Basic

/-!
# The local relayer

A relayer that pays for the carrier transaction itself: it broadcasts the execution of a bundle from
an account whose key it holds, and reads nonces, gas and outcomes from the same node.
-/

namespace MetaTransaction

/-- The order of the curve that account keys are numbers of. -/
def curveOrder : Nat :=
  0xfffffffffffffffffffffffffffffffebaaedce6af48a03bbfd25e8cd0364141

/-- The secret number of an account. Zero and the numbers from the order on are excluded by its
type. -/
structure AccountKey where
  number : Nat
  positive : 0 < number
  below_order : number < curveOrder

/-- The key that thirty-two bytes in hexadecimal write, after an optional `0x` or `0X`. -/
def AccountKey.read? (s : String) : Option AccountKey := do
  let bytes ← Hex.readFixed? 32 s
  if h : 0 < bytes.toNat ∧ bytes.toNat < curveOrder then some ⟨bytes.toNat, h.1, h.2⟩ else none

/-- A relayer on the account of a key. -/
structure LocalRelayer where
  key : AccountKey
  chain : ChainId
  waiter : Confirmation.Waiter

namespace LocalRelayer

/-- The relayer of a key, an endpoint and settings, checked in this order. No request is made for
that. -/
def create (endpoint : String) (chain : ChainId) (key : String)
    (settings : Confirmation.Settings) : Except RelayError LocalRelayer := do
  match AccountKey.read? key with
  | none => throw .badKey
  | some key =>
    if !Endpoint.isValid endpoint then
      throw (.node ⟨.connectRelayer endpoint, .unreachable⟩)
    let waiter ← (Confirmation.Waiter.new settings).mapError .confirmation
    return { key, chain, waiter }

/-- The state of the node, and the clock. -/
structure State (ν : Type) where
  node : ν
  now : Nat := 0

variable {ν : Type}

/-- Makes a request and reads the answer. -/
def fetch {α : Type} (node : Node ν) (task : NodeTask) (request : NodeRequest)
    (read? : Json → Option α) : RelayAction (State ν) α :=
  fun state =>
    let (answer, after) := node.fetch request state.now state.node
    ((Node.readAnswer task read? answer).mapError .node, { state with node := after })

/-- The call data that asks a wallet for its counter in a space. -/
def readNonceCalldata (space : BitVec 160) : Bytes :=
  Abi.selector "readNonce(uint256)" ++ Abi.number (Nonce.spaceWord space).toNat

/-- The first word of the output of a call. -/
def firstWord? (output : Bytes) : Option Word :=
  if 32 ≤ output.length then some (BitVec.ofNat 256 (Bytes.toNat (output.take 32))) else none

/-- The nonce that the wallet tells. The counter is read from the first word of the output, whatever
follows it, and has to have its width. -/
def nonce (node : Node ν) (wallet : Address) (space : BitVec 160) (block : Option BlockNumber) :
    RelayAction (State ν) Nonce := do
  let output ← fetch node .readNonce (.call wallet (readNonceCalldata space) block) Json.bytes?
  match firstWord? output with
  | none => throw (.node ⟨.decodeNonce, .malformed⟩)
  | some counter => RelayAction.ofDerivation (Nonce.ofCounter space counter)

/-- Whether the gas of a call is to be estimated. A delegate call cannot be tried out from outside
the wallet, so that its limit stays zero. -/
def needsGas (call : Call) : Bool :=
  call.gasLimit = 0 && !call.delegateCall

/-- Fills in the gas limit of a call that needs one. -/
def estimateCall (node : Node ν) (wallet : Address) (call : Call) : RelayAction (State ν) Call := do
  if needsGas call then
    let gas ← fetch node (.estimateGas call.target)
      (.estimateGas wallet call.target call.value call.data) (Json.word? 64)
    return call.withGasLimit (gas.setWidth 256)
  else
    return call

/-- Fills in the gas limits in the order of the calls, up to the first failure. -/
def estimate (node : Node ν) (wallet : Address) (calls : List Call) :
    RelayAction (State ν) (List Call) :=
  calls.mapM (estimateCall node wallet)

/-- Broadcasts the execution of a bundle. The identifier is derived before the node is asked, so
that a bundle without one is not broadcast. -/
def relay (r : LocalRelayer) (node : Node ν) (signed : SignedBundle) :
    RelayAction (State ν) Submission := do
  let identifier ← RelayAction.ofDerivation signed.identifier
  let transactionHash ← fetch node .send (.send signed.wallet 0 signed.executeCalldata r.chain)
    Json.hash?
  return { identifier, transactionHash }

/-- Waits over the node. Nobody can cancel this wait, since relayers are not given a handle. -/
def wait (r : LocalRelayer) (node : Node ν) (id : Identifier) (timeout : Option Duration) :
    RelayAction (State ν) Outcome :=
  fun state =>
    let ending := r.waiter.wait node.chain id timeout .never state.now state.node
    (ending.result.mapError .confirmation,
      { node := ending.world.chain, now := ending.world.now })

/-- The relayer over a node. -/
def relayer (r : LocalRelayer) (node : Node ν) : Relayer (State ν) where
  name := "local"
  chain := r.chain
  nonce := nonce node
  estimate := estimate node
  relay := r.relay node
  wait := r.wait node

end LocalRelayer

end MetaTransaction
