import MetaTransaction.Address
import MetaTransaction.Chain
import MetaTransaction.Confirmation.Wait
import MetaTransaction.Json.Scalar

/-!
# Nodes

A node answers requests with JSON. The requests are those that the chain reader and the local
relayer make; a transaction to be sent is described by what the relayer decides about it, and the
account, the fees and the signature are the client's.
-/

namespace MetaTransaction

/-- A request to a node, with what the caller decides about it. How the request is written is left
to `method` and `params`. -/
inductive NodeRequest
  | blockNumber
  | logs (filter : LogFilter)
  | receipt (hash : Hash)
  /-- runs a call without a transaction, at a block or at the one that the client chooses -/
  | call (target : Address) (data : Bytes) (block : Option BlockNumber)
  | estimateGas (sender target : Address) (value : Word) (data : Bytes)
  /-- broadcasts a transaction of the client's own account -/
  | send (target : Address) (value : Word) (data : Bytes) (chain : ChainId)
deriving DecidableEq

namespace NodeRequest

/-- The name of the method. -/
def method : NodeRequest → String
  | .blockNumber => "eth_blockNumber"
  | .logs _ => "eth_getLogs"
  | .receipt _ => "eth_getTransactionReceipt"
  | .call .. => "eth_call"
  | .estimateGas .. => "eth_estimateGas"
  | .send .. => "eth_sendRawTransaction"

/-- A number as a minimal hexadecimal string. -/
def quantity (n : UInt64) : Json :=
  .string (Hex.quantity n.toNat)

/-- The query object of a log filter. -/
def filterObject (filter : LogFilter) : Json :=
  .record
    ([("fromBlock", quantity filter.fromBlock), ("toBlock", quantity filter.toBlock)] ++
      filter.address.toList.map (fun address => ("address", .ofFixedBytes address)) ++
      [("topics", .array [.ofFixedBytes filter.topic])])

/-- What stands in a request to send for the signed transaction. -/
def transactionObject (target : Address) (value : Word) (data : Bytes) (chain : ChainId) : Json :=
  .record
    [("to", .ofFixedBytes target), ("value", .ofWord value), ("input", .ofBytes data),
      ("chainId", quantity chain.value)]

/-- The tag of the block on which the client runs a call that names no block. The caller leaves the
block out, so that this is a choice of the client alone. It is assumed here that the client does what
it documents, which is to run such a call on the pending block. -/
def clientTag : String := "pending"

/-- The parameters of the method, where the client puts `tag` for a block that is left out. The tag
is a parameter because it is the client's to choose, and what is proved of requests says where it
enters. -/
def params (tag : String) : NodeRequest → List Json
  | .blockNumber => []
  | .logs filter => [filterObject filter]
  | .receipt hash => [.ofFixedBytes hash]
  | .call target data block =>
    [.record [("to", .ofFixedBytes target), ("input", .ofBytes data)],
      (block.map quantity).getD (.string tag)]
  | .estimateGas sender target value data =>
    [.record
      [("from", .ofFixedBytes sender), ("to", .ofFixedBytes target), ("value", .ofWord value),
        ("input", .ofBytes data)]]
  | .send target value data chain => [transactionObject target value data chain]

end NodeRequest

/-- Why a request brought no answer that can be used. -/
inductive NodeFailure
  /-- the node answered with an error -/
  | refused (code : Int) (message : String)
  /-- the answer has not the form that the method promises -/
  | malformed
  /-- nobody answers at the address, or the address is none -/
  | unreachable
deriving DecidableEq, Repr

/-- The failure as messages word it. -/
def NodeFailure.message : NodeFailure → String
  | .refused code message => s!"server returned an error response: error code {code}: {message}"
  | .malformed => "the answer has an unexpected form"
  | .unreachable => "no connection"

/-- What a request was for. -/
inductive NodeTask
  | readHead
  | readLogs
  | readReceipt
  | readNonce
  | decodeNonce
  | estimateGas (target : Address)
  | send
  | connect (url : String)
  | connectRelayer (url : String)
deriving DecidableEq

/-- What could not be done, as messages word it. -/
def NodeTask.failed : NodeTask → String
  | .readHead => "Failed to get block number"
  | .readLogs => "Failed to get logs"
  | .readReceipt => "Failed to get receipt"
  | .readNonce => "Failed to read nonce"
  | .decodeNonce => "Failed to decode readNonce output"
  | .estimateGas target => "Failed to estimate gas for " ++ Address.display target
  | .send => "Failed to send transaction"
  | .connect url => "Failed to connect to " ++ url
  | .connectRelayer url => "Invalid RPC URL " ++ url

/-- A task at a node that failed. -/
structure NodeError where
  task : NodeTask
  failure : NodeFailure
deriving DecidableEq

/-- The error as messages word it. -/
def NodeError.message (e : NodeError) : String :=
  "Network error: " ++ e.task.failed ++ ": " ++ e.failure.message

open Confirmation (Reply)

/-- A node with state `ν` that may answer anything, may take any time for it, and may change its
state with each request. What is proved of nodes holds of those that lie. -/
structure Node (ν : Type) where
  ask : NodeRequest → Nat → ν → Reply NodeFailure Json × ν

namespace Node

/-- A node at which nobody answers. -/
def unreachable : Node Unit where
  ask _ _ _ := ({ answer := .error .unreachable }, ())

/-- A node that also notes the requests, latest first. It is how statements speak of what a node was
asked, without a change to the one who asks. -/
def noted {ν : Type} (node : Node ν) : Node (ν × List NodeRequest) where
  ask request now state :=
    let (reply, inner) := node.ask request now state.1
    (reply, inner, request :: state.2)

/-- The answer to a single request and how long it takes. An answer that never comes is none, and
the request fails as if nobody could be reached. -/
def fetch {ν : Type} (node : Node ν) (request : NodeRequest) (now : Nat) (state : ν) :
    Except NodeFailure Json × ν :=
  let (reply, state) := node.ask request now state
  (if reply.delay.isNone then .error .unreachable else reply.answer, state)

end Node

end MetaTransaction
