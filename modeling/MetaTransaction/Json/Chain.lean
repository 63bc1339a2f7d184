import MetaTransaction.Json.Scalar
import MetaTransaction.Identifier
import MetaTransaction.Outcome

/-!
# JSON forms of identifiers, logs, receipts and outcomes
-/

namespace MetaTransaction

namespace ChainId

def toJson (c : ChainId) : Json := .ofUInt64 c.value

def ofJson? (j : Json) : Option ChainId := j.uint64?.map ChainId.mk

end ChainId

namespace Identifier

def toJson (id : Identifier) : Json := .string id.text

def ofJson? (j : Json) : Option Identifier :=
  j.string?.bind fun s => (read s).toOption

end Identifier

namespace Log

def toJson (log : Log) : Json :=
  .record
    [("address", .ofFixedBytes log.address), ("topics", .array (log.topics.map .ofFixedBytes)),
      ("data", .ofBytes log.data), ("block_number", .ofUInt64 log.blockNumber),
      ("transaction_hash", .ofFixedBytes log.transactionHash),
      ("log_index", .ofUInt64 log.logIndex)]

def ofJson? (j : Json) : Option Log := do
  let [address, topics, data, blockNumber, transactionHash, logIndex] ← Json.fields?
    ["address", "topics", "data", "block_number", "transaction_hash", "log_index"] j | none
  return {
    address := ← Json.required? Json.address? address
    topics := ← Json.required? (Json.array? Json.hash?) topics
    data := ← Json.required? Json.bytes? data
    blockNumber := ← Json.required? Json.uint64? blockNumber
    transactionHash := ← Json.required? Json.hash? transactionHash
    logIndex := ← Json.required? Json.uint64? logIndex }

end Log

namespace Receipt

def toJson (receipt : Receipt) : Json :=
  .record
    [("transaction_hash", .ofFixedBytes receipt.transactionHash),
      ("block_number", .ofUInt64 receipt.blockNumber), ("success", .bool receipt.success),
      ("gas_used", .ofUInt64 receipt.gasUsed), ("logs", .array (receipt.logs.map Log.toJson))]

def ofJson? (j : Json) : Option Receipt := do
  let [transactionHash, blockNumber, success, gasUsed, logs] ← Json.fields?
    ["transaction_hash", "block_number", "success", "gas_used", "logs"] j | none
  return {
    transactionHash := ← Json.required? Json.hash? transactionHash
    blockNumber := ← Json.required? Json.uint64? blockNumber
    success := ← Json.required? Json.bool? success
    gasUsed := ← Json.required? Json.uint64? gasUsed
    logs := ← Json.required? (Json.array? Log.ofJson?) logs }

end Receipt

namespace Status

def toJson (status : Status) : Json := .string status.text

/-- The status that a word stands for. -/
def ofText? (s : String) : Option Status :=
  [unknown, executed, failed].find? (fun status => status.text = s)

/-- A status by its word, or as the only key of an object without a value. -/
def ofJson? : Json → Option Status
  | .string s => ofText? s
  | .object [(some s, .null)] => ofText? s
  | _ => none

end Status

namespace Outcome

def toJson (outcome : Outcome) : Json :=
  .record [("status", outcome.status.toJson), ("receipt", outcome.receipt.toJson)]

def ofJson? (j : Json) : Option Outcome := do
  let [status, receipt] ← Json.fields? ["status", "receipt"] j | none
  return {
    status := ← Json.required? Status.ofJson? status
    receipt := ← Json.required? Receipt.ofJson? receipt }

end Outcome

end MetaTransaction
