/-!
# Quoted characters and texts

How a character or a file name stands inside a message: between quotes, with blanks that move the
cursor, quotes and backslashes escaped, and characters that show nothing written by their number in
hexadecimal between braces.
-/

namespace MetaTransaction.Text.Quoted

/-- Characters up to U+00FF that show nothing: controls, the no-break space and the soft hyphen. -/
def isInvisible (c : Char) : Bool :=
  c.toNat < 32 || (127 ≤ c.toNat && c.toNat ≤ 160) || c.toNat = 173

/-- The number of a character in hexadecimal, between braces. -/
def codePoint (c : Char) : List Char :=
  ['\\', 'u', '\x7b'] ++ Nat.toDigits 16 c.toNat ++ ['\x7d']

/-- A character inside quotes, where `quotes` are the quotes that are escaped. -/
def escape (quotes : List Char) (c : Char) : List Char :=
  match c with
  | '\x00' => ['\\', '0']
  | '\t' => ['\\', 't']
  | '\n' => ['\\', 'n']
  | '\r' => ['\\', 'r']
  | '\\' => ['\\', '\\']
  | c => if c ∈ quotes then ['\\', c] else if isInvisible c then codePoint c else [c]

/-- A character between single quotes. -/
def char (c : Char) : String :=
  String.ofList (['\''] ++ escape ['\''] c ++ ['\''])

/-- The character of a byte, that is of the code point with the same number, between quotes. -/
def byte (b : UInt8) : String :=
  char (Char.ofNat b.toNat)

/-- A file name between double quotes. -/
def path (name : String) : String :=
  String.ofList (['"'] ++ name.toList.flatMap (escape ['\'', '"']) ++ ['"'])

end MetaTransaction.Text.Quoted
