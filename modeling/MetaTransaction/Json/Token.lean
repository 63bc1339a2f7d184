import MetaTransaction.Json.Basic
import MetaTransaction.Numeral

/-!
# JSON tokens

The tokens of a JSON text, read character by character. A string is first collected as characters
and escaped code units; units that form a surrogate pair are joined when the string ends.
-/

namespace MetaTransaction.Json

/-- A token. A string with an unpaired surrogate carries no text. -/
inductive Token
  | openArray
  | closeArray
  | openObject
  | closeObject
  | comma
  | colon
  | null
  | bool (b : Bool)
  | natural (n : Nat)
  | number (literal : String)
  | string (s : Option String)
deriving DecidableEq, Repr

/-- What has been read of a number. -/
inductive NumberForm
  /-- a minus sign -/
  | minus
  /-- a leading zero -/
  | zero
  /-- digits that start with another one -/
  | whole
  /-- the decimal point -/
  | point
  /-- digits after the point -/
  | fraction
  /-- the exponent mark -/
  | mark
  /-- the sign of the exponent -/
  | sign
  /-- digits of the exponent -/
  | exponent
deriving DecidableEq, Repr

namespace NumberForm

/-- What has been read after one more character; none when the number does not go on with it. -/
def next? (form : NumberForm) (c : Char) : Option NumberForm :=
  match form with
  | .minus => if c = '0' then some .zero else if c.isDigit then some .whole else none
  | .zero => if c = '.' then some .point else if c = 'e' ∨ c = 'E' then some .mark else none
  | .whole =>
    if c.isDigit then some .whole
    else if c = '.' then some .point
    else if c = 'e' ∨ c = 'E' then some .mark
    else none
  | .point => if c.isDigit then some .fraction else none
  | .fraction =>
    if c.isDigit then some .fraction else if c = 'e' ∨ c = 'E' then some .mark else none
  | .mark =>
    if c = '+' ∨ c = '-' then some .sign else if c.isDigit then some .exponent else none
  | .sign => if c.isDigit then some .exponent else none
  | .exponent => if c.isDigit then some .exponent else none

/-- Whether a number may end here. -/
def isComplete : NumberForm → Bool
  | .zero | .whole | .fraction | .exponent => true
  | .minus | .point | .mark | .sign => false

end NumberForm

/-- The natural number of decimal digits. -/
def naturalOfDigits (digits : List Char) : Nat :=
  Nat.ofDigitChars 10 digits 0

/-- The token of a complete number. -/
def numberToken (literal : List Char) : Token :=
  if literal.all Char.isDigit then .natural (naturalOfDigits literal)
  else .number (String.ofList literal)

/-- A piece of a string: a character, or a code unit that was written by its number. -/
inductive Piece
  | char (c : Char)
  | unit (n : Nat)
deriving DecidableEq, Repr

/-- The text of the pieces of a string, which come last first. A surrogate without its partner
stands for no character, and then the string has no text. -/
def assemble (text : List Char) : List Piece → Option (List Char)
  | [] => some text
  | .char c :: rest => assemble (c :: text) rest
  | .unit low :: .unit high :: rest =>
    if 0xdc00 ≤ low ∧ low < 0xe000 then
      if 0xd800 ≤ high ∧ high < 0xdc00 then
        assemble (Char.ofNat (0x10000 + (high - 0xd800) * 0x400 + (low - 0xdc00)) :: text) rest
      else none
    else if 0xd800 ≤ low ∧ low < 0xdc00 then none
    else assemble (Char.ofNat low :: text) (.unit high :: rest)
  | .unit n :: rest =>
    if 0xd800 ≤ n ∧ n < 0xe000 then none else assemble (Char.ofNat n :: text) rest

/-- The character that an escape letter stands for. -/
def unescape? : Char → Option Char
  | '"' => some '"'
  | '\\' => some '\\'
  | '/' => some '/'
  | 'b' => some '\x08'
  | 'f' => some '\x0c'
  | 'n' => some '\n'
  | 'r' => some '\r'
  | 't' => some '\t'
  | _ => none

/-- Where the reader stands in the text. What has been read of a token comes last first. -/
inductive Place
  | between
  | inNumber (form : NumberForm) (read : List Char)
  /-- the rest of a word that must follow, and its token -/
  | inWord (rest : List Char) (token : Token)
  | inString (read : List Piece)
  | inEscape (read : List Piece)
  /-- digits of a code unit still to come, and the number so far -/
  | inUnit (read : List Piece) (left n : Nat)
deriving DecidableEq, Repr

/-- The place after a character between tokens, and the token that it is. -/
def startAt (c : Char) : Option (Place × Option Token) :=
  match c with
  | ' ' | '\t' | '\n' | '\r' => some (.between, none)
  | '[' => some (.between, some .openArray)
  | ']' => some (.between, some .closeArray)
  | '\x7b' => some (.between, some .openObject)
  | '\x7d' => some (.between, some .closeObject)
  | ',' => some (.between, some .comma)
  | ':' => some (.between, some .colon)
  | '"' => some (.inString [], none)
  | '-' => some (.inNumber .minus ['-'], none)
  | '0' => some (.inNumber .zero ['0'], none)
  | 'n' => some (.inWord ['u', 'l', 'l'] .null, none)
  | 't' => some (.inWord ['r', 'u', 'e'] (.bool true), none)
  | 'f' => some (.inWord ['a', 'l', 's', 'e'] (.bool false), none)
  | c => if c.isDigit then some (.inNumber .whole [c], none) else none

/-- The place after one more character, and the tokens that are complete, last first. A number is
only complete with the character after it, which may be a token of its own. -/
def Place.step (place : Place) (tokens : List Token) (c : Char) : Option (Place × List Token) :=
  match place with
  | .between => (startAt c).map fun (place, token) => (place, token.toList ++ tokens)
  | .inNumber form read =>
    match form.next? c with
    | some form => some (.inNumber form (c :: read), tokens)
    | none =>
      if form.isComplete then
        (startAt c).map fun (place, token) =>
          (place, token.toList ++ numberToken read.reverse :: tokens)
      else none
  | .inWord rest token =>
    match rest with
    | [] => none
    | [last] => if c = last then some (.between, token :: tokens) else none
    | next :: rest => if c = next then some (.inWord rest token, tokens) else none
  | .inString read =>
    if c = '"' then some (.between, .string ((assemble [] read).map String.ofList) :: tokens)
    else if c = '\\' then some (.inEscape read, tokens)
    else if c.toNat < 32 then none
    else some (.inString (.char c :: read), tokens)
  | .inEscape read =>
    if c = 'u' then some (.inUnit read 4 0, tokens)
    else (unescape? c).map fun c => (.inString (.char c :: read), tokens)
  | .inUnit read left n =>
    (Numeral.hexDigit? c).map fun d =>
      let n := n * 16 + d
      if left ≤ 1 then (.inString (.unit n :: read), tokens)
      else (.inUnit read (left - 1) n, tokens)

/-- The tokens of a text, where `tokens` have been read before it, last first. -/
def tokensFrom (place : Place) (tokens : List Token) : List Char → Option (List Token)
  | [] =>
    match place with
    | .between => some tokens.reverse
    | .inNumber form read =>
      if form.isComplete then some (numberToken read.reverse :: tokens).reverse else none
    | _ => none
  | c :: rest =>
    match place.step tokens c with
    | none => none
    | some (place, tokens) => tokensFrom place tokens rest

/-- The tokens of a text. -/
def tokens? (text : List Char) : Option (List Token) :=
  tokensFrom .between [] text

end MetaTransaction.Json
