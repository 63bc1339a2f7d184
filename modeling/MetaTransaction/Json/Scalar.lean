import MetaTransaction.Json.Record
import MetaTransaction.Hex
import MetaTransaction.Numeral

/-!
# JSON forms of words and byte strings

A word of the virtual machine is written as a minimal hexadecimal string and read from a small
number or from a string with a base mark. A byte string is written in lower case after `0x` and read
from a string of digits or from an array of its bytes.
-/

namespace MetaTransaction.Json

/-- A number of at most `bits` bits. A number that is written with digits alone has to fit in
sixty-four bits, and one in a string may be as wide as the type. -/
def word? (bits : Nat) : Json → Option (BitVec bits)
  | .natural n =>
    if n < Nat.pow 2 64 ∧ n < Nat.pow 2 bits then some (BitVec.ofNat bits n) else none
  | .string s => Numeral.read? bits s
  | _ => none

/-- The minimal hexadecimal string of a number. -/
def ofWord {bits : Nat} (w : BitVec bits) : Json :=
  .string (Hex.quantity w.toNat)

/-- A number below 256. -/
def byte? : Json → Option UInt8
  | .natural n => if n < 256 then some (UInt8.ofNat n) else none
  | _ => none

/-- A byte string. -/
def bytes? : Json → Option Bytes
  | .string s => Hex.read? s
  | j => array? byte? j

/-- A byte string of `n` bytes. -/
def fixedBytes? (n : Nat) (j : Json) : Option (FixedBytes n) :=
  (bytes? j).bind (FixedBytes.ofBytes? n)

/-- The lower-case string of a byte string. -/
def ofBytes (bytes : Bytes) : Json :=
  .string (Hex.encodePrefixed bytes)

/-- The lower-case string of a byte string of fixed length. -/
def ofFixedBytes {n : Nat} (b : FixedBytes n) : Json :=
  ofBytes b.bytes

/-- An address. -/
def address? : Json → Option Address := fixedBytes? 20

/-- A hash. -/
def hash? : Json → Option Hash := fixedBytes? 32

end MetaTransaction.Json
