import MetaTransaction.Hex
import MetaTransaction.Keccak

/-!
# Texts of addresses

An address is shown with a checksum in the case of its letters: a letter is upper case when the
digit of the same place in the hash of the lower-case text is eight or more.
-/

namespace MetaTransaction.Address

/-- The digits of an address, where `marks` are the hash digits of the same places. Decimal digits
have no case and stay as they are. -/
def checksummed (digits : List Char) (marks : List Char) : List Char :=
  List.zipWith (fun c mark => if '8' ≤ mark then c.toUpper else c) digits marks

/-- The address with a checksum. -/
def display (a : Address) : String :=
  let digits := Hex.chars a.bytes
  let marks := Hex.chars (Keccak.hash (Bytes.ofString (String.ofList digits))).bytes
  String.ofList ('0' :: 'x' :: checksummed digits marks)

/-- Why a text is no address. -/
inductive Error
  /-- the whole text has an odd number of bytes -/
  | oddLength
  /-- there are not forty digits -/
  | length
  | badDigit (digit : Hex.BadDigit)
deriving DecidableEq, Repr

/-- The error as messages word it. -/
def Error.message : Error → String
  | .oddLength => "odd number of digits"
  | .length => "invalid string length"
  | .badDigit digit => "invalid " ++ digit.description

/-- The address of forty digits of either case after an optional `0x` or `0X`. The checksum that the
case of letters may carry is not looked at. -/
def read (s : String) : Except Error Address :=
  let text := Bytes.ofString s
  let digits := Hex.strip text
  if text.length % 2 = 1 then .error .oddLength
  else if digits.length ≠ 40 then .error .length
  else
    match Hex.decode digits with
    | .error .oddLength => .error .oddLength
    | .error (.badDigit digit) => .error (.badDigit digit)
    | .ok bytes => if h : bytes.length = 20 then .ok ⟨bytes, h⟩ else .error .length

end MetaTransaction.Address
