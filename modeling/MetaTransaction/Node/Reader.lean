import MetaTransaction.Node.Basic
import MetaTransaction.Node.Payload

/-!
# Reading a chain from a node

The three queries of the confirmation engine as requests to a node. Each query is one request, and
its answer comes when the node's does.
-/

namespace MetaTransaction

/-- Why a chain query has no answer. -/
inductive ReaderError
  | node (error : NodeError)
  /-- a receipt of a transaction that is in no block -/
  | noBlockNumber (transaction : Hash)
deriving DecidableEq

/-- The error as messages word it. -/
def ReaderError.message : ReaderError → String
  | .node error => error.message
  | .noBlockNumber transaction =>
    "Invalid response: receipt for " ++ Hex.encodePrefixed transaction.bytes ++
      " has no block number"

namespace Node

open Confirmation (Reply Chain)

/-- Reads the answer to a task with `read?`. A failure of the node and an answer that cannot be read
become errors of the same task. -/
def readAnswer {α : Type} (task : NodeTask) (read? : Json → Option α) :
    Except NodeFailure Json → Except NodeError α
  | .error failure => .error ⟨task, failure⟩
  | .ok j =>
    match read? j with
    | none => .error ⟨task, .malformed⟩
    | some a => .ok a

/-- The receipt of a payload, which must be in a block. Without one the transaction may still be
dropped, and an outcome could not be relied on. -/
def minedReceipt (payload : Payload.ReceiptPayload) : Except ReaderError Receipt :=
  match payload.blockNumber with
  | none => .error (.noBlockNumber payload.transactionHash)
  | some blockNumber =>
    .ok {
      transactionHash := payload.transactionHash
      blockNumber
      success := payload.success
      gasUsed := payload.gasUsed
      logs := payload.logs }

/-- The head that an answer tells. -/
def readHead (answer : Except NodeFailure Json) : Except ReaderError BlockNumber :=
  (readAnswer .readHead Payload.quantity? answer).mapError .node

/-- The logs that an answer tells. -/
def readLogs (answer : Except NodeFailure Json) : Except ReaderError (List Log) :=
  (readAnswer .readLogs Payload.logs? answer).mapError .node

/-- The receipt that an answer tells; null is none. -/
def readReceipt (answer : Except NodeFailure Json) : Except ReaderError (Option Receipt) := do
  match ← (readAnswer .readReceipt (Json.nullable? Payload.receipt?) answer).mapError .node with
  | none => return none
  | some payload => return some (← minedReceipt payload)

/-- Makes a request and reads the answer. Reading takes no time, and what happens to the handle of a
wait when the request arrives is passed on. -/
def query {ν α : Type} (node : Node ν) (request : NodeRequest)
    (read : Except NodeFailure Json → Except ReaderError α) (now : Nat) (state : ν) :
    Reply ReaderError α × ν :=
  let (reply, state) := node.ask request now state
  ({ answer := read reply.answer, delay := reply.delay, action := reply.action }, state)

/-- The chain that the node shows. -/
def chain {ν : Type} (node : Node ν) : Chain ReaderError ν where
  head := node.query .blockNumber readHead
  logs filter := node.query (.logs filter) readLogs
  receipt hash := node.query (.receipt hash) readReceipt

end Node

end MetaTransaction
