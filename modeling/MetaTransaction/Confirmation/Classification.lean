import MetaTransaction.Identifier
import MetaTransaction.Outcome

/-!
# Classification of logs

A wallet reports a success by a log without topics whose data is the identifier, and a failure by a
log with the failure topic alone whose data starts with the identifier. The first log of a receipt
that reports either decides.
-/

namespace MetaTransaction.Confirmation

/-- What a log reports about an identifier. -/
def classifyLog (id : Identifier) (failedTopic : Hash) (log : Log) : Status :=
  if log.topics = [] ∧ log.data = id.hash.bytes then .executed
  else if log.topics = [failedTopic] ∧ id.hash.bytes.isPrefixOf log.data then .failed
  else .unknown

/-- Whether the log counts when only one contract does. -/
def isFrom (emitter : Option Address) (log : Log) : Bool :=
  match emitter with
  | none => true
  | some address => log.address = address

/-- What a receipt reports about an identifier, if anything. -/
def classifyReceipt (id : Identifier) (failedTopic : Hash) (emitter : Option Address)
    (receipt : Receipt) : Option Status :=
  ((receipt.logs.filter (isFrom emitter)).map (classifyLog id failedTopic)).find?
    (fun status => status ≠ .unknown)

end MetaTransaction.Confirmation
