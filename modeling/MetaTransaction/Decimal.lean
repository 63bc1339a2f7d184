/-!
# Decimal numbers

Whole decimal numbers of sixty-four bits. A number is read digit by digit: the first character that
is no digit, or the first digit with which the number no longer fits, decides the error.
-/

namespace MetaTransaction.Decimal

/-- Why a text is no number. -/
inductive Error
  | empty
  | invalidDigit
  | overflow
deriving DecidableEq, Repr

/-- The error as messages word it. -/
def Error.message : Error → String
  | .empty => "cannot parse integer from empty string"
  | .invalidDigit => "invalid digit found in string"
  | .overflow => "number too large to fit in target type"

/-- The number that a decimal digit stands for. -/
def digit? (c : Char) : Option Nat :=
  if c.isDigit then some (c.toNat - 48) else none

/-- The number `n` continued by the digits `text`, which must stay below `limit`. The bound is
tested with each digit, so that a text of any length is refused at the first digit that is too
much. -/
def continueBelow (limit n : Nat) : List Char → Except Error Nat
  | [] => .ok n
  | c :: rest =>
    match digit? c with
    | none => .error .invalidDigit
    | some d =>
      if n * 10 + d < limit then continueBelow limit (n * 10 + d) rest else .error .overflow

/-- A number below `limit`, with one leading plus sign allowed before its digits. -/
def readBelow (limit : Nat) (text : List Char) : Except Error Nat :=
  match text with
  | [] => .error .empty
  | ['+'] => .error .invalidDigit
  | '+' :: digits => continueBelow limit 0 digits
  | digits => continueBelow limit 0 digits

/-- A number of sixty-four bits. -/
def readUInt64 (s : String) : Except Error UInt64 :=
  (readBelow (Nat.pow 2 64) s.toList).map UInt64.ofNat

end MetaTransaction.Decimal
