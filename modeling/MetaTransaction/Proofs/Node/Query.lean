import MetaTransaction.Node.Basic
import MetaTransaction.Node.Payload
import MetaTransaction.Proofs.Json.Faithful

/-!
# Queries for logs

What a query object for logs asks for, by the rules of nodes: a range of blocks with both ends, the
contracts that may have emitted a log, and for each place the topics that may stand there. A log
filter is sent as the query object that asks for just its logs.

* `LogQuery.ofJson?` — reads query objects whose blocks are given by their numbers;
* `LogQuery.ofJson?_filterObject` — what the object of a filter is read as;
* `LogFilter.accepts_query` — that query accepts the logs that the filter does.
-/

namespace MetaTransaction

/-- A query for logs as nodes understand it. -/
structure LogQuery where
  /-- the first block -/
  fromBlock : BlockNumber
  /-- the last block -/
  toBlock : BlockNumber
  /-- the contracts, any when there are none -/
  addresses : List Address
  /-- for each place the topics that may stand there, any when there are none -/
  topics : List (List Hash)
deriving DecidableEq

namespace LogQuery

/-- Whether topics stand where they may; a place without a topic is in no log. -/
def admits : List (List Hash) → List Hash → Bool
  | [], _ => true
  | _ :: _, [] => false
  | allowed :: places, topic :: topics =>
    (allowed.isEmpty || allowed.contains topic) && admits places topics

/-- Whether a log is asked for. -/
def accepts (query : LogQuery) (log : Log) : Bool :=
  query.fromBlock ≤ log.blockNumber && log.blockNumber ≤ query.toBlock &&
    (query.addresses.isEmpty || query.addresses.contains log.address) &&
      admits query.topics log.topics

/-- One value, several, or null for none. -/
def choice? {α : Type} (read? : Json → Option α) : Json → Option (List α)
  | .null => some []
  | .array items => items.mapM read?
  | j => (read? j).map fun a => [a]

/-- The query of an object. -/
def ofJson? (j : Json) : Option LogQuery := do
  let [fromBlock, toBlock, address, topics] ← Json.objectFields?
    ["fromBlock", "toBlock", "address", "topics"] j | none
  return {
    fromBlock := ← Json.required? Payload.quantity? fromBlock
    toBlock := ← Json.required? Payload.quantity? toBlock
    addresses := ← Json.optional? [] (choice? Json.address?) address
    topics := ← Json.optional? [] (Json.array? (choice? Json.hash?)) topics }

end LogQuery

/-- The query for the logs of a filter. -/
def LogFilter.query (filter : LogFilter) : LogQuery where
  fromBlock := filter.fromBlock
  toBlock := filter.toBlock
  addresses := filter.address.toList
  topics := [[filter.topic]]

/-- The filter that a query is the query of. -/
def LogQuery.filter? (query : LogQuery) : Option LogFilter :=
  match query.addresses, query.topics with
  | [], [[topic]] => some ⟨query.fromBlock, query.toBlock, none, topic⟩
  | [address], [[topic]] => some ⟨query.fromBlock, query.toBlock, some address, topic⟩
  | _, _ => none

/-- Nothing of a filter is lost in its query. -/
theorem LogQuery.filter?_query (filter : LogFilter) : filter.query.filter? = some filter := by
  obtain ⟨fromBlock, toBlock, _ | address, topic⟩ := filter <;> rfl

/-- The query of a filter asks for the logs that the filter accepts. -/
theorem LogFilter.accepts_query (filter : LogFilter) (log : Log) :
    filter.query.accepts log = filter.accepts log := by
  have topics : LogQuery.admits [[filter.topic]] log.topics =
      decide (log.topics.head? = some filter.topic) := by
    cases log.topics with
    | nil => simp [LogQuery.admits]
    | cons topic topics => simp [LogQuery.admits]
  rw [LogQuery.accepts, accepts, query, topics]
  cases filter.address with
  | none => simp
  | some address => simp [Bool.and_right_comm]

/-! ## Query objects of filters -/

/-- A number of sixty-four bits reads back from its minimal hexadecimal string. -/
theorem Payload.quantity?_quantity (n : UInt64) :
    quantity? (NodeRequest.quantity n) = some n := by
  have word : Json.word? 64 (NodeRequest.quantity n) = some n.toBitVec :=
    Numeral.read?_quantity n.toBitVec
  rw [quantity?, word, Option.map_some]
  exact congrArg some n.ofNat_toNat

namespace LogQuery

/-- One byte string is a choice of one. -/
theorem choice?_ofFixedBytes {n : Nat} {read? : Json → Option (FixedBytes n)} {b : FixedBytes n}
    (read : read? (.ofFixedBytes b) = some b) : choice? read? (.ofFixedBytes b) = some [b] := by
  change (read? (.ofFixedBytes b)).map (fun a => [a]) = _
  rw [read, Option.map_some]

/-- The object of a filter is read as its query. -/
theorem ofJson?_filterObject (filter : LogFilter) :
    ofJson? (NodeRequest.filterObject filter) = some filter.query := by
  obtain ⟨fromBlock, toBlock, address, topic⟩ := filter
  have topics : Json.array? (choice? Json.hash?) (.array [.ofFixedBytes topic]) =
      some [[topic]] := by
    rw [Json.array?, List.mapM_cons, choice?_ofFixedBytes (Json.faithful_hash.read topic)]
    rfl
  cases address with
  | none =>
    rw [ofJson?, NodeRequest.filterObject, Json.objectFields?_record (by simp)]
    simp [List.lookup_cons, Json.required?, Json.optional?, Payload.quantity?_quantity, topics,
      LogFilter.query]
  | some address =>
    have addresses : choice? Json.address? (.ofFixedBytes address) = some [address] :=
      choice?_ofFixedBytes (Json.faithful_address.read address)
    rw [ofJson?, NodeRequest.filterObject, Json.objectFields?_record (by simp)]
    simp [List.lookup_cons, Json.required?, Json.optional?, Payload.quantity?_quantity, topics,
      addresses, LogFilter.query]

end LogQuery

end MetaTransaction
