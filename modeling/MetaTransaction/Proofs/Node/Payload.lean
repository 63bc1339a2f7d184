import MetaTransaction.Node.Reader
import MetaTransaction.Proofs.Node.Query

/-!
# Logs and receipts as nodes write them

The JSON forms in which nodes tell logs and receipts, with everything that stands in them, and what
is read from these forms.

* `Payload.log?_toJson`, `Payload.logs?_toJson` — logs in their order, without those that are in no
  block or no transaction;
* `Payload.receipt?_toJson` — receipts;
* `Node.readLogs_mined`, `Node.readReceipt_mined` — what is mined reads back.
-/

namespace MetaTransaction

/-! ## Logs -/

/-- A log as a node knows it. One that is not mined yet has no place in the chain. -/
structure LogEntry where
  address : Address
  topics : List Hash
  data : Bytes
  blockHash : Option Hash := none
  blockNumber : Option BlockNumber := none
  blockTimestamp : Option UInt64 := none
  transactionHash : Option Hash := none
  transactionIndex : Option UInt64 := none
  logIndex : Option UInt64 := none
  removed : Bool := false

/-- A value, or null. -/
def Json.ofOption {α : Type} (toJson : α → Json) : Option α → Json
  | none => .null
  | some a => toJson a

namespace LogEntry

/-- The members of the JSON form. A key that has no value holds null, but for the time of the
block, which is left out. -/
def members (entry : LogEntry) : List (String × Json) :=
  [("address", .ofFixedBytes entry.address), ("topics", .array (entry.topics.map .ofFixedBytes)),
    ("data", .ofBytes entry.data), ("blockHash", .ofOption .ofFixedBytes entry.blockHash),
    ("blockNumber", .ofOption NodeRequest.quantity entry.blockNumber)] ++
  entry.blockTimestamp.toList.map (fun time => ("blockTimestamp", NodeRequest.quantity time)) ++
  [("transactionHash", .ofOption .ofFixedBytes entry.transactionHash),
    ("transactionIndex", .ofOption NodeRequest.quantity entry.transactionIndex),
    ("logIndex", .ofOption NodeRequest.quantity entry.logIndex),
    ("removed", .bool entry.removed)]

def toJson (entry : LogEntry) : Json :=
  .record entry.members

theorem distinct_members (entry : LogEntry) : (entry.members.map Prod.fst).Nodup := by
  rw [members]
  cases entry.blockTimestamp <;> simp

/-- The mined log, if it has a block and a transaction. -/
def log? (entry : LogEntry) : Option Log := do
  return {
    address := entry.address
    topics := entry.topics
    data := entry.data
    blockNumber := ← entry.blockNumber
    transactionHash := ← entry.transactionHash
    logIndex := entry.logIndex.getD 0 }

/-- An entry is no mined log just when it has no block number or no transaction. -/
theorem log?_eq_none_iff {entry : LogEntry} :
    entry.log? = none ↔ entry.blockNumber = none ∨ entry.transactionHash = none := by
  rw [log?]
  cases entry.blockNumber <;> cases entry.transactionHash <;> simp

end LogEntry

/-- The entry of a mined log, with the rest as in another entry. -/
def Log.entry (log : Log) (rest : LogEntry) : LogEntry :=
  { rest with
    address := log.address
    topics := log.topics
    data := log.data
    blockNumber := some log.blockNumber
    transactionHash := some log.transactionHash
    logIndex := some log.logIndex }

theorem Log.log?_entry (log : Log) (rest : LogEntry) : (log.entry rest).log? = some log :=
  rfl

namespace Json

variable {α : Type} {read? : Json → Option α} {toJson : α → Json}

/-- What is not null reads back where null is allowed. -/
theorem nullable?_of_read {j : Json} {a : α} (read : read? j = some a) (nonnull : j ≠ .null) :
    nullable? read? j = some (some a) := by
  rw [nullable?, read, Option.map_some]
  exact nonnull

theorem nullable?_ofOption (read : ∀ a, nullable? read? (toJson a) = some (some a))
    (a : Option α) : nullable? read? (ofOption toJson a) = some a := by
  cases a with
  | none => rfl
  | some a => exact read a

end Json

namespace Payload

@[simp] theorem nullable?_quantity (n : UInt64) :
    Json.nullable? quantity? (NodeRequest.quantity n) = some (some n) :=
  Json.nullable?_of_read (quantity?_quantity n) Json.noConfusion

@[simp] theorem nullable?_word {bits : Nat} (w : BitVec bits) :
    Json.nullable? (Json.word? bits) (.ofWord w) = some (some w) :=
  Json.nullable?_of_read ((Json.faithful_word bits).read w) Json.noConfusion

@[simp] theorem nullable?_hash (hash : Hash) :
    Json.nullable? Json.hash? (.ofFixedBytes hash) = some (some hash) :=
  Json.nullable?_of_read (Json.faithful_hash.read hash) Json.noConfusion

@[simp] theorem nullable?_address (address : Address) :
    Json.nullable? Json.address? (.ofFixedBytes address) = some (some address) :=
  Json.nullable?_of_read (Json.faithful_address.read address) Json.noConfusion

/-- A field that is there is read as its value, which may be null. -/
theorem optionalField?_some {α : Type} (read? : Json → Option α) (j : Json) :
    optionalField? read? (some j) = Json.nullable? read? j :=
  rfl

/-- A field that is there just when it has a value reads back. -/
theorem optionalField?_map {α : Type} {read? : Json → Option α} {toJson : α → Json}
    (read : ∀ a, Json.nullable? read? (toJson a) = some (some a)) (a : Option α) :
    optionalField? read? (a.map toJson) = some a := by
  cases a with
  | none => rfl
  | some a => exact read a

/-- An entry is read as its mined log, or as none if it is not mined. Of the fields that no log has
it only matters that they can be read. -/
theorem log?_toJson (entry : LogEntry) : log? entry.toJson = some entry.log? := by
  have fields : (["address", "topics", "data", "blockHash", "blockNumber", "blockTimestamp",
      "transactionHash", "transactionIndex", "logIndex", "removed"].map
        fun name => entry.members.lookup name) =
      [some (.ofFixedBytes entry.address), some (.array (entry.topics.map .ofFixedBytes)),
        some (.ofBytes entry.data), some (.ofOption .ofFixedBytes entry.blockHash),
        some (.ofOption NodeRequest.quantity entry.blockNumber),
        entry.blockTimestamp.map NodeRequest.quantity,
        some (.ofOption .ofFixedBytes entry.transactionHash),
        some (.ofOption NodeRequest.quantity entry.transactionIndex),
        some (.ofOption NodeRequest.quantity entry.logIndex), some (.bool entry.removed)] := by
    rw [LogEntry.members]
    cases entry.blockTimestamp <;> simp [List.lookup_cons]
  rw [log?, LogEntry.toJson, Json.objectFields?_record entry.distinct_members, fields]
  simp [Json.required?, Json.faithful_address.read, Json.faithful_hash.list.read,
    Json.faithful_bytes.read, optionalField?_some, optionalField?_map nullable?_quantity,
    nullableField?, Json.nullable?_ofOption nullable?_quantity,
    Json.nullable?_ofOption nullable?_hash, Json.optional?, Json.bool?, LogEntry.log?]

/-- The mined logs of a list are read in their order, and nothing else is. An entry that is not
mined does not keep the others from being read. -/
theorem logs?_toJson (entries : List LogEntry) :
    logs? (.array (entries.map LogEntry.toJson)) = some (entries.filterMap LogEntry.log?) := by
  have read : (entries.map LogEntry.toJson).mapM log? = some (entries.map LogEntry.log?) := by
    rw [List.mapM_map]
    exact Json.mapM_eq_some fun entry _ => log?_toJson entry
  rw [logs?, Json.array?, read, Option.map_some, List.filterMap_map]
  rfl

end Payload

/-! ## Receipts -/

/-- How a receipt reports what became of its transaction. -/
inductive ReceiptMark
  | status (success : Bool)
  /-- the root of the state after a transaction that has no status -/
  | root (hash : Hash)

/-- A receipt as a node knows it. The receipt of a transaction in no block has no block number. -/
structure ReceiptEntry where
  type : { mark : String // mark ∈ Payload.transactionTypes }
  mark : ReceiptMark
  cumulativeGasUsed : UInt64
  logs : List LogEntry
  logsBloom : FixedBytes 256
  transactionHash : Hash
  transactionIndex : Option UInt64 := none
  blockHash : Option Hash := none
  blockNumber : Option BlockNumber := none
  gasUsed : UInt64
  effectiveGasPrice : BitVec 128
  blobGasUsed : Option UInt64 := none
  blobGasPrice : Option (BitVec 128) := none
  sender : Address
  target : Option Address := none
  contractAddress : Option Address := none

namespace ReceiptMark

/-- The member that stands for the mark. -/
def member : ReceiptMark → String × Json
  | .status success => ("status", .ofWord (BitVec.ofBool success))
  | .root hash => ("root", .ofFixedBytes hash)

/-- Whether the transaction succeeded. Where there is no status it did. -/
def success : ReceiptMark → Bool
  | .status success => success
  | .root _ => true

end ReceiptMark

namespace ReceiptEntry

/-- The members of the JSON form. What is only known of blobs is left out when there are none. -/
def members (entry : ReceiptEntry) : List (String × Json) :=
  [("type", .string entry.type), entry.mark.member,
    ("cumulativeGasUsed", NodeRequest.quantity entry.cumulativeGasUsed),
    ("logs", .array (entry.logs.map LogEntry.toJson)),
    ("logsBloom", .ofFixedBytes entry.logsBloom),
    ("transactionHash", .ofFixedBytes entry.transactionHash),
    ("transactionIndex", .ofOption NodeRequest.quantity entry.transactionIndex),
    ("blockHash", .ofOption .ofFixedBytes entry.blockHash),
    ("blockNumber", .ofOption NodeRequest.quantity entry.blockNumber),
    ("gasUsed", NodeRequest.quantity entry.gasUsed),
    ("effectiveGasPrice", .ofWord entry.effectiveGasPrice)] ++
  entry.blobGasUsed.toList.map (fun gas => ("blobGasUsed", NodeRequest.quantity gas)) ++
  entry.blobGasPrice.toList.map (fun price => ("blobGasPrice", .ofWord price)) ++
  [("from", .ofFixedBytes entry.sender), ("to", .ofOption .ofFixedBytes entry.target),
    ("contractAddress", .ofOption .ofFixedBytes entry.contractAddress)]

def toJson (entry : ReceiptEntry) : Json :=
  .record entry.members

theorem distinct_members (entry : ReceiptEntry) : (entry.members.map Prod.fst).Nodup := by
  rw [members]
  cases entry.mark <;> cases entry.blobGasUsed <;> cases entry.blobGasPrice <;>
    simp [ReceiptMark.member]

/-- The mined receipt, if the transaction is in a block. -/
def receipt? (entry : ReceiptEntry) : Option Receipt := do
  return {
    transactionHash := entry.transactionHash
    blockNumber := ← entry.blockNumber
    success := entry.mark.success
    gasUsed := entry.gasUsed
    logs := entry.logs.filterMap LogEntry.log? }

/-- What the reader takes from the receipt. -/
def payload (entry : ReceiptEntry) : Payload.ReceiptPayload where
  transactionHash := entry.transactionHash
  blockNumber := entry.blockNumber
  success := entry.mark.success
  gasUsed := entry.gasUsed
  logs := entry.logs.filterMap LogEntry.log?

end ReceiptEntry

namespace Payload

/-- The mark reads back from whichever of its fields is there. -/
theorem success?_mark (mark : ReceiptMark) :
    success? ([mark.member].lookup "status") ([mark.member].lookup "root") = some mark.success := by
  cases mark with
  | status success => cases success <;> decide +kernel
  | root hash =>
    change (Json.hash? (.ofFixedBytes hash)).map (fun _ => true) = some true
    rw [Json.faithful_hash.read, Option.map_some]

/-- A receipt is read whether or not it is in a block. -/
theorem receipt?_toJson (entry : ReceiptEntry) :
    receipt? entry.toJson = some entry.payload := by
  have fields : (["type", "status", "root", "cumulativeGasUsed", "logs", "logsBloom",
      "transactionHash", "transactionIndex", "blockHash", "blockNumber", "gasUsed",
      "effectiveGasPrice", "blobGasUsed", "blobGasPrice", "from", "to", "contractAddress"].map
        fun name => entry.members.lookup name) =
      [some (.string entry.type), [entry.mark.member].lookup "status",
        [entry.mark.member].lookup "root",
        some (NodeRequest.quantity entry.cumulativeGasUsed),
        some (.array (entry.logs.map LogEntry.toJson)), some (.ofFixedBytes entry.logsBloom),
        some (.ofFixedBytes entry.transactionHash),
        some (.ofOption NodeRequest.quantity entry.transactionIndex),
        some (.ofOption .ofFixedBytes entry.blockHash),
        some (.ofOption NodeRequest.quantity entry.blockNumber),
        some (NodeRequest.quantity entry.gasUsed), some (.ofWord entry.effectiveGasPrice),
        entry.blobGasUsed.map NodeRequest.quantity, entry.blobGasPrice.map .ofWord,
        some (.ofFixedBytes entry.sender), some (.ofOption .ofFixedBytes entry.target),
        some (.ofOption .ofFixedBytes entry.contractAddress)] := by
    rw [ReceiptEntry.members]
    cases entry.mark <;> cases entry.blobGasUsed <;> cases entry.blobGasPrice <;>
      simp [List.lookup_cons, ReceiptMark.member]
  rw [receipt?, ReceiptEntry.toJson, Json.objectFields?_record entry.distinct_members, fields]
  have type : transactionType? (.string entry.type) = some entry.type.val :=
    if_pos entry.type.property
  have address : ∀ a : Option Address,
      Json.nullable? Json.address? (.ofOption .ofFixedBytes a) = some a :=
    Json.nullable?_ofOption nullable?_address
  simp [Json.required?, type, success?_mark, quantity?_quantity, logs?_toJson,
    (Json.faithful_fixedBytes 256).read, Json.faithful_hash.read, (Json.faithful_word 128).read,
    Json.faithful_address.read, address, optionalField?_map nullable?_quantity,
    optionalField?_map nullable?_word, optionalField?_some,
    Json.nullable?_ofOption nullable?_quantity, Json.nullable?_ofOption nullable?_hash,
    ReceiptEntry.payload]

end Payload

/-! ## What is read -/

/-- The entry of a mined receipt, with the rest as in another entry, and that of its logs as in
others. -/
def Receipt.entry (receipt : Receipt) (rest : ReceiptEntry) (restOfLog : Log → LogEntry) :
    ReceiptEntry :=
  { rest with
    mark := .status receipt.success
    logs := receipt.logs.map fun log => log.entry (restOfLog log)
    transactionHash := receipt.transactionHash
    blockNumber := some receipt.blockNumber
    gasUsed := receipt.gasUsed }

/-- The logs of entries of mined logs. -/
theorem Log.filterMap_entry (logs : List Log) (rest : Log → LogEntry) :
    (logs.map fun log => log.entry (rest log)).filterMap LogEntry.log? = logs := by
  have mined : (LogEntry.log? ∘ fun log => log.entry (rest log)) = some :=
    funext fun log => log.log?_entry (rest log)
  rw [List.filterMap_map, mined, List.filterMap_some]

theorem Receipt.receipt?_entry (receipt : Receipt) (rest : ReceiptEntry)
    (restOfLog : Log → LogEntry) : (receipt.entry rest restOfLog).receipt? = some receipt := by
  simp only [ReceiptEntry.receipt?, entry, Log.filterMap_entry]
  rfl

namespace Node

/-- A receipt of a node is read, and then it is a mined one or an error. -/
theorem readReceipt_payload (entry : ReceiptEntry) :
    readReceipt (.ok entry.toJson) = (minedReceipt entry.payload).map some := by
  have read : Json.nullable? Payload.receipt? entry.toJson = some (some entry.payload) :=
    Json.nullable?_of_read (Payload.receipt?_toJson entry) Json.noConfusion
  rw [readReceipt, readAnswer, read]
  rfl

/-- Of a list of logs the mined ones are read, in their order. -/
theorem readLogs_toJson (entries : List LogEntry) :
    readLogs (.ok (.array (entries.map LogEntry.toJson))) =
      .ok (entries.filterMap LogEntry.log?) := by
  rw [readLogs, readAnswer, Payload.logs?_toJson]
  rfl

/-- A receipt that is in a block is read. -/
theorem readReceipt_toJson {entry : ReceiptEntry} {receipt : Receipt}
    (mined : entry.receipt? = some receipt) :
    readReceipt (.ok entry.toJson) = .ok (some receipt) := by
  obtain ⟨blockNumber, block, same⟩ := Option.bind_eq_some_iff.mp mined
  obtain rfl := Option.some.inj same
  rw [readReceipt_payload, minedReceipt, ReceiptEntry.payload, block]
  rfl

/-- Null is no receipt. -/
theorem readReceipt_null : readReceipt (.ok .null) = .ok none :=
  rfl

/-- A receipt without a block number is an error. It is told apart from null, which says that there
is no receipt yet. -/
theorem readReceipt_pending {entry : ReceiptEntry} (pending : entry.blockNumber = none) :
    readReceipt (.ok entry.toJson) = .error (.noBlockNumber entry.transactionHash) := by
  rw [readReceipt_payload, minedReceipt, ReceiptEntry.payload, pending]
  rfl

/-- Mined logs read back. -/
theorem readLogs_mined (logs : List Log) (rest : Log → LogEntry) :
    readLogs (.ok (.array (logs.map fun log => (log.entry (rest log)).toJson))) = .ok logs := by
  have read := readLogs_toJson (logs.map fun log => log.entry (rest log))
  rw [List.map_map, Log.filterMap_entry] at read
  exact read

/-- Mined receipts read back. -/
theorem readReceipt_mined (receipt : Receipt) (rest : ReceiptEntry) (restOfLog : Log → LogEntry) :
    readReceipt (.ok (receipt.entry rest restOfLog).toJson) = .ok (some receipt) :=
  readReceipt_toJson (receipt.receipt?_entry rest restOfLog)

end Node

end MetaTransaction
