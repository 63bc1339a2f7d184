/-!
# Numbers with a base mark

Whole numbers as people write them in bundle files: decimal, or hexadecimal, octal or binary after
`0x`, `0o` or `0b`. Underscores group digits anywhere, and no digit at all is zero.
-/

namespace MetaTransaction.Numeral

/-- The base that a text is written in, and its digits. -/
def base : List Char → Nat × List Char
  | '0' :: 'x' :: rest => (16, rest)
  | '0' :: 'X' :: rest => (16, rest)
  | '0' :: 'o' :: rest => (8, rest)
  | '0' :: 'O' :: rest => (8, rest)
  | '0' :: 'b' :: rest => (2, rest)
  | '0' :: 'B' :: rest => (2, rest)
  | text => (10, text)

/-- The number that a letter or a decimal digit stands for. -/
def digitValue? (c : Char) : Option Nat :=
  if '0' ≤ c ∧ c ≤ '9' then some (c.toNat - 48)
  else if 'a' ≤ c ∧ c ≤ 'z' then some (c.toNat - 87)
  else if 'A' ≤ c ∧ c ≤ 'Z' then some (c.toNat - 55)
  else none

/-- The number that a hexadecimal digit stands for. -/
def hexDigit? (c : Char) : Option Nat :=
  (digitValue? c).filter (· < 16)

/-- The number `n` continued by digits of a base. -/
def continueIn (base n : Nat) : List Char → Option Nat
  | [] => some n
  | '_' :: rest => continueIn base n rest
  | c :: rest =>
    match digitValue? c with
    | none => none
    | some d => if d < base then continueIn base (n * base + d) rest else none

/-- The number that a text writes. -/
def readNat? (text : List Char) : Option Nat :=
  let (base, digits) := base text
  continueIn base 0 digits

/-- The number that a text writes, when it fits in `bits` bits. -/
def read? (bits : Nat) (s : String) : Option (BitVec bits) :=
  match readNat? s.toList with
  | none => none
  | some n => if n < Nat.pow 2 bits then some (BitVec.ofNat bits n) else none

end MetaTransaction.Numeral
