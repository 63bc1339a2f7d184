import MetaTransaction.Bytes
import MetaTransaction.Decimal

/-!
# Chains, logs and receipts

What a chain shows: blocks by number, the logs that contracts emitted, and the receipts of mined
transactions.
-/

namespace MetaTransaction

/-- The number of a chain. -/
structure ChainId where
  value : UInt64
deriving DecidableEq, Repr, Inhabited

namespace ChainId

def ethereum : ChainId := ⟨1⟩
def arbitrum : ChainId := ⟨42161⟩
def optimism : ChainId := ⟨10⟩
def polygon : ChainId := ⟨137⟩
def base : ChainId := ⟨8453⟩

/-- The decimal text. -/
def display (c : ChainId) : String :=
  toString c.value.toNat

/-- The chain number that a decimal text writes. -/
def read (s : String) : Except Decimal.Error ChainId :=
  (Decimal.readUInt64 s).map ChainId.mk

end ChainId

/-- The height of a block. -/
abbrev BlockNumber := UInt64

/-- The block `distance` below, but not below the first one. Blocks are words of sixty-four bits,
and the test keeps the subtraction from wrapping around. -/
def BlockNumber.back (block : BlockNumber) (distance : UInt64) : BlockNumber :=
  if block < distance then 0 else block - distance

/-- An entry that a contract emitted in a mined transaction. Its place in the chain is that of the
transaction's block and the number of the entry in it. -/
structure Log where
  address : Address
  topics : List Hash
  data : Bytes
  blockNumber : BlockNumber
  transactionHash : Hash
  /-- the place of the entry in its block -/
  logIndex : UInt64
deriving DecidableEq

/-- Whether a log comes no later than another in the order of block and log. Logs of one place come
no later than one another, so that sorting by this has to be stable to be determined. -/
def Log.notAfter (a b : Log) : Bool :=
  a.blockNumber < b.blockNumber || (a.blockNumber = b.blockNumber && a.logIndex ≤ b.logIndex)

/-- What became of a mined transaction. -/
structure Receipt where
  transactionHash : Hash
  blockNumber : BlockNumber
  success : Bool
  gasUsed : UInt64
  logs : List Log
deriving DecidableEq

/-- A query for logs: those of a range of blocks, both ends included, with a given first topic. -/
structure LogFilter where
  fromBlock : BlockNumber
  toBlock : BlockNumber
  /-- the emitting contract, any when absent -/
  address : Option Address
  /-- the first topic -/
  topic : Hash
deriving DecidableEq

/-- Whether a log answers the query. -/
def LogFilter.accepts (filter : LogFilter) (log : Log) : Bool :=
  filter.fromBlock ≤ log.blockNumber && log.blockNumber ≤ filter.toBlock &&
    log.topics.head? = some filter.topic &&
    (match filter.address with
      | none => true
      | some address => log.address = address)

end MetaTransaction
