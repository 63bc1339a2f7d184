import MetaTransaction.Json.Basic

/-!
# The compact text of a JSON value

No blanks, members in their order. In a string the quote, the backslash and the control characters
are escaped, the common ones by a letter and the others by four hexadecimal digits.
-/

namespace MetaTransaction.Json

/-- A character inside a string. -/
def escape (c : Char) : List Char :=
  match c with
  | '"' => ['\\', '"']
  | '\\' => ['\\', '\\']
  | '\x08' => ['\\', 'b']
  | '\x0c' => ['\\', 'f']
  | '\n' => ['\\', 'n']
  | '\r' => ['\\', 'r']
  | '\t' => ['\\', 't']
  | c =>
    if c.toNat < 16 then ['\\', 'u', '0', '0', '0', Nat.digitChar c.toNat]
    else if c.toNat < 32 then ['\\', 'u', '0', '0', '1', Nat.digitChar (c.toNat - 16)]
    else [c]

/-- A string between quotes. -/
def quote (s : String) : List Char :=
  '"' :: s.toList.flatMap escape ++ ['"']

/-- A key; one that stands for no text is written as a lone surrogate. -/
def keyChars : Option String → List Char
  | some key => quote key
  | none => "\"\\ud800\"".toList

mutual

/-- The characters of a value. -/
def chars : Json → List Char
  | .null => "null".toList
  | .bool true => "true".toList
  | .bool false => "false".toList
  | .natural n => Nat.toDigits 10 n
  | .number literal => literal.toList
  | .string s => quote s
  | .brokenString => "\"\\ud800\"".toList
  | .array items => '[' :: itemsChars items
  | .object members => '\x7b' :: membersChars members

/-- The items of an array and its closing bracket. -/
def itemsChars : List Json → List Char
  | [] => [']']
  | [item] => item.chars ++ [']']
  | item :: items => item.chars ++ ',' :: itemsChars items

/-- The members of an object and its closing brace. -/
def membersChars : List (Option String × Json) → List Char
  | [] => ['\x7d']
  | [(key, value)] => keyChars key ++ ':' :: value.chars ++ ['\x7d']
  | (key, value) :: members => keyChars key ++ ':' :: value.chars ++ ',' :: membersChars members

end

/-- The compact text. -/
def compact (j : Json) : String :=
  String.ofList j.chars

end MetaTransaction.Json
