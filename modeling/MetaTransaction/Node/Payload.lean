import MetaTransaction.Json.Record
import MetaTransaction.Json.Scalar
import MetaTransaction.Chain

/-!
# Logs and receipts as nodes write them

A log that is not mined yet has no block number and no transaction hash; both keys are there and
hold null. A receipt is one of the known transaction types and reports success by a status, or, in
its oldest form, by the root of the state after it.
-/

namespace MetaTransaction.Payload

/-- A number of sixty-four bits. -/
def quantity? (j : Json) : Option UInt64 :=
  (Json.word? 64 j).map fun w => UInt64.ofNat w.toNat

/-- A field that must be there and may be null. -/
def nullableField? {α : Type} (read? : Json → Option α) (field : Option Json) :
    Option (Option α) :=
  field.bind (Json.nullable? read?)

/-- A field that may be left out and may be null. -/
def optionalField? {α : Type} (read? : Json → Option α) (field : Option Json) :
    Option (Option α) :=
  Json.optional? none (Json.nullable? read?) field

/-- A log; none inside when it is not mined yet. All fields have to be readable in either case, also
those that nobody asks for. -/
def log? (j : Json) : Option (Option Log) := do
  let [address, topics, data, blockHash, blockNumber, blockTimestamp, transactionHash,
    transactionIndex, logIndex, removed] ← Json.objectFields?
    ["address", "topics", "data", "blockHash", "blockNumber", "blockTimestamp", "transactionHash",
      "transactionIndex", "logIndex", "removed"] j | none
  let address ← Json.required? Json.address? address
  let topics ← Json.required? (Json.array? Json.hash?) topics
  let data ← Json.required? Json.bytes? data
  let _ ← optionalField? Json.hash? blockHash
  let blockNumber ← nullableField? quantity? blockNumber
  let _ ← optionalField? quantity? blockTimestamp
  let transactionHash ← nullableField? Json.hash? transactionHash
  let _ ← nullableField? quantity? transactionIndex
  let logIndex ← nullableField? quantity? logIndex
  let _ ← Json.optional? false Json.bool? removed
  return do
    return {
      address, topics, data
      blockNumber := ← blockNumber
      transactionHash := ← transactionHash
      logIndex := logIndex.getD 0 }

/-- The mined logs of a list. -/
def logs? (j : Json) : Option (List Log) :=
  (Json.array? log? j).map fun logs => logs.filterMap id

/-- The marks of the known transaction types. -/
def transactionTypes : List String :=
  ["0x0", "0x00", "0x1", "0x01", "0x2", "0x02", "0x3", "0x03", "0x4", "0x04"]

/-- The mark of a known transaction type. -/
def transactionType? (j : Json) : Option String :=
  j.string?.bind fun s => if s ∈ transactionTypes then some s else none

/-- Whether a transaction succeeded, from its status or the root that stands in its place. Where
there is a root it is not known, and the transaction counts as successful. -/
def success? (status root : Option Json) : Option Bool :=
  match status.bind (Json.word? 1) with
  | some bit => some (bit = 1)
  | none => (root.bind Json.hash?).map fun _ => true

/-- What a node tells about a transaction. -/
structure ReceiptPayload where
  transactionHash : Hash
  blockNumber : Option BlockNumber
  success : Bool
  gasUsed : UInt64
  logs : List Log
deriving DecidableEq

/-- A receipt. -/
def receipt? (j : Json) : Option ReceiptPayload := do
  let [type, status, root, cumulativeGasUsed, logs, logsBloom, transactionHash, transactionIndex,
    blockHash, blockNumber, gasUsed, effectiveGasPrice, blobGasUsed, blobGasPrice, sender, target,
    contractAddress] ← Json.objectFields?
    ["type", "status", "root", "cumulativeGasUsed", "logs", "logsBloom", "transactionHash",
      "transactionIndex", "blockHash", "blockNumber", "gasUsed", "effectiveGasPrice",
      "blobGasUsed", "blobGasPrice", "from", "to", "contractAddress"] j | none
  let _ ← Json.required? transactionType? type
  let success ← success? status root
  let _ ← Json.required? quantity? cumulativeGasUsed
  let logs ← Json.required? logs? logs
  let _ ← Json.required? (Json.fixedBytes? 256) logsBloom
  let transactionHash ← Json.required? Json.hash? transactionHash
  let _ ← optionalField? quantity? transactionIndex
  let _ ← optionalField? Json.hash? blockHash
  let blockNumber ← optionalField? quantity? blockNumber
  let gasUsed ← Json.required? quantity? gasUsed
  let _ ← Json.required? (Json.word? 128) effectiveGasPrice
  let _ ← optionalField? quantity? blobGasUsed
  let _ ← optionalField? (Json.word? 128) blobGasPrice
  let _ ← Json.required? Json.address? sender
  let _ ← optionalField? Json.address? target
  let _ ← optionalField? Json.address? contractAddress
  return { transactionHash, blockNumber, success, gasUsed, logs }

end MetaTransaction.Payload
