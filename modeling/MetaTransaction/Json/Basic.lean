/-!
# JSON values

A JSON value keeps what a reader of typed fields can tell apart: natural numbers written with digits
alone, every other number by its literal, strings, and members in the order of the text. A string
with an unpaired surrogate stands for no text; it may occur where nobody looks at it.
-/

namespace MetaTransaction

/-- A JSON value. -/
inductive Json
  | null
  | bool (b : Bool)
  /-- a number written with digits alone -/
  | natural (n : Nat)
  /-- any other number, by its literal -/
  | number (literal : String)
  | string (s : String)
  /-- a string with an unpaired surrogate -/
  | brokenString
  | array (items : List Json)
  /-- members in the order of the text; a key with an unpaired surrogate is `none` -/
  | object (members : List (Option String × Json))
deriving Inhabited

namespace Json

/-- The boolean. -/
def bool? : Json → Option Bool
  | .bool b => some b
  | _ => none

/-- The text of a string. -/
def string? : Json → Option String
  | .string s => some s
  | _ => none

/-- A natural number below `2 ^ 64`, written with digits alone. -/
def uint64? : Json → Option UInt64
  | .natural n => if n < Nat.pow 2 64 then some (UInt64.ofNat n) else none
  | _ => none

/-- A whole number, written with digits alone after an optional minus sign. -/
def int? : Json → Option Int
  | .natural n => some n
  | .number literal =>
    match literal.toList with
    | '-' :: digits =>
      if digits.all Char.isDigit then some (-(Nat.ofDigitChars 10 digits 0 : Int)) else none
    | _ => none
  | _ => none

/-- An array whose items are all of one form. -/
def array? {α : Type} (item? : Json → Option α) : Json → Option (List α)
  | .array items => items.mapM item?
  | _ => none

/-- An object of text keys. -/
def record (members : List (String × Json)) : Json :=
  .object (members.map fun (key, value) => (some key, value))

/-- The number of sixty-four bits. -/
def ofUInt64 (n : UInt64) : Json :=
  .natural n.toNat

@[simp] theorem uint64?_ofUInt64 (n : UInt64) : uint64? (ofUInt64 n) = some n := by
  simp [uint64?, ofUInt64, n.toNat_lt]

end Json

end MetaTransaction
