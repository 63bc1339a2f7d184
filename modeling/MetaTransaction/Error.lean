import MetaTransaction.Hex

/-!
# Errors of bundles and identifiers
-/

namespace MetaTransaction

/-- Why a nonce, a digest or an identifier could not be had. -/
inductive DerivationError
  /-- a nonce counter has more bits than its part of the nonce word -/
  | counterTooWide (counter : Nat)
  /-- a bundle without calls has no digest -/
  | emptyBundle
  /-- an identifier's text has not sixty-four digits -/
  | identifierLength (length : Nat)
  /-- an identifier's text holds another character than digits -/
  | identifierDigit (digit : Hex.BadDigit)
  /-- a derivation scheme gave a number of bytes that makes this many digits -/
  | identifierWidth (digits : Nat)
  /-- an input that another party refused, in its words -/
  | refusedInput (detail : String)
  /-- a computation that failed at another party, in its words -/
  | failedComputation (detail : String)
deriving DecidableEq, Repr

namespace DerivationError

/-- Whether the computation is to blame; otherwise it is the input. What a user has written is never
reported as a failure of the computation. -/
def isComputation : DerivationError → Bool
  | .identifierWidth _ | .failedComputation _ => true
  | _ => false

/-- What is wrong. -/
def detail : DerivationError → String
  | .counterTooWide counter => s!"nonce counter {counter} does not fit in 96 bits"
  | .emptyBundle => "cannot digest an empty bundle"
  | .identifierLength length => s!"meta txn id must be 64 hex characters, got {length}"
  | .identifierDigit digit => "invalid meta txn id: Invalid " ++ digit.description
  | .identifierWidth digits =>
    s!"computed meta txn id has {digits} hex characters, expected 64"
  | .refusedInput detail => detail
  | .failedComputation detail => detail

/-- The error as messages word it. -/
def message (e : DerivationError) : String :=
  (if e.isComputation then "Computation error: " else "Invalid input: ") ++ e.detail

end DerivationError

end MetaTransaction
