import MetaTransaction.Chain
import MetaTransaction.Json.Chain
import MetaTransaction.Json.Record

/-!
# Configurations

What a configuration file says, and its form as a record. Only the network has to be described; the
other sections and most of their settings have defaults.
-/

namespace MetaTransaction

/-- The chain to talk to. -/
structure Configuration.Network where
  chain : ChainId
  /-- the address of a node -/
  endpoint : String
deriving DecidableEq, Repr

/-- What the confirmation engine can be tuned by, as it is written: numbers and texts, which only
the checks turn into durations, topics and an address. -/
structure Configuration.Engine where
  /-- in seconds -/
  defaultTimeout : UInt64 := 120
  lookback : UInt64 := 1024
  overlap : UInt64 := 12
  /-- in milliseconds -/
  pollInterval : UInt64 := 1000
  nonceTopic : Option String := none
  failedTopic : Option String := none
  wallet : Option String := none
deriving DecidableEq, Repr

/-- The account that pays for carrier transactions. -/
structure Configuration.Account where
  /-- its key in hexadecimal -/
  key : String
deriving DecidableEq, Repr

/-- What is logged and how. -/
structure Configuration.Logging where
  level : String := "info"
  json : Bool := false
deriving DecidableEq, Repr

/-- What a configuration file says. Whether it can be used is not asked here. -/
structure Configuration where
  network : Configuration.Network
  confirmation : Configuration.Engine := {}
  /-- needed only to relay bundles -/
  relayer : Option Configuration.Account := none
  logging : Configuration.Logging := {}
deriving DecidableEq, Repr

namespace Configuration

/-! ## Reading -/

def Network.ofJson? (j : Json) : Option Network := do
  let [chain, endpoint] ← Json.fields? ["chain_id", "rpc_url"] j | none
  return {
    chain := ← Json.required? ChainId.ofJson? chain
    endpoint := ← Json.required? Json.string? endpoint }

/-- The fields of the section of the confirmation engine. -/
def Engine.fields : List String :=
  ["default_timeout_secs", "initial_lookback_blocks", "reorg_overlap_blocks", "poll_interval_ms",
    "nonce_changed_topic", "tx_failed_topic", "wallet"]

/-- A field for a text that may be null or missing. -/
def text? : Option Json → Option (Option String) :=
  Json.optional? none (Json.nullable? Json.string?)

def Engine.ofJson? (j : Json) : Option Engine := do
  let [timeout, lookback, overlap, interval, nonceTopic, failedTopic, wallet] ←
    Json.fieldsAtLeast? fields.length fields j | none
  let defaults : Engine := {}
  return {
    defaultTimeout := ← Json.optional? defaults.defaultTimeout Json.uint64? timeout
    lookback := ← Json.optional? defaults.lookback Json.uint64? lookback
    overlap := ← Json.optional? defaults.overlap Json.uint64? overlap
    pollInterval := ← Json.optional? defaults.pollInterval Json.uint64? interval
    nonceTopic := ← text? nonceTopic
    failedTopic := ← text? failedTopic
    wallet := ← text? wallet }

def Account.ofJson? (j : Json) : Option Account := do
  let [key] ← Json.fields? ["private_key"] j | none
  return { key := ← Json.required? Json.string? key }

def Logging.ofJson? (j : Json) : Option Logging := do
  let [level, json] ← Json.fields? ["level", "json"] j | none
  let defaults : Logging := {}
  return {
    level := ← Json.optional? defaults.level Json.string? level
    json := ← Json.optional? defaults.json Json.bool? json }

/-- The configuration of a record. -/
def ofJson? (j : Json) : Option Configuration := do
  let [network, confirmation, relayer, logging] ←
    Json.fields? ["network", "confirmation", "relayer", "logging"] j | none
  return {
    network := ← Json.required? Network.ofJson? network
    confirmation := ← Json.optional? {} Engine.ofJson? confirmation
    relayer := ← Json.optional? none (Json.nullable? Account.ofJson?) relayer
    logging := ← Json.optional? {} Logging.ofJson? logging }

/-! ## Writing -/

/-- A text, or null. -/
def ofText? (s : Option String) : Json := (s.map Json.string).getD .null

/-- The configuration as a record, with every field. -/
def toJson (c : Configuration) : Json :=
  .record
    [("network",
        .record [("chain_id", c.network.chain.toJson), ("rpc_url", .string c.network.endpoint)]),
      ("confirmation",
        .record
          [("default_timeout_secs", .ofUInt64 c.confirmation.defaultTimeout),
            ("initial_lookback_blocks", .ofUInt64 c.confirmation.lookback),
            ("reorg_overlap_blocks", .ofUInt64 c.confirmation.overlap),
            ("poll_interval_ms", .ofUInt64 c.confirmation.pollInterval),
            ("nonce_changed_topic", ofText? c.confirmation.nonceTopic),
            ("tx_failed_topic", ofText? c.confirmation.failedTopic),
            ("wallet", ofText? c.confirmation.wallet)]),
      ("relayer",
        (c.relayer.map fun r => Json.record [("private_key", .string r.key)]).getD .null),
      ("logging",
        .record [("level", .string c.logging.level), ("json", .bool c.logging.json)])]

end Configuration

end MetaTransaction
