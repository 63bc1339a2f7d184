import MetaTransaction.Chain

/-!
# Outcomes

What became of a meta-transaction, and the receipt that shows it.
-/

namespace MetaTransaction

/-- What became of a meta-transaction. -/
inductive Status
  | unknown
  | executed
  | failed
deriving DecidableEq, Repr, Inhabited

/-- The word for a status. -/
def Status.text : Status → String
  | .unknown => "unknown"
  | .executed => "executed"
  | .failed => "failed"

/-- A status with the receipt of the transaction that carried the bundle. The receipt is what shows
the status, so that whoever is given an outcome can check it. -/
structure Outcome where
  status : Status
  receipt : Receipt
deriving DecidableEq

end MetaTransaction
