import MetaTransaction.Json.Basic
import MetaTransaction.Numeral

/-!
# Words as TOML values

A word is a truth value, a whole number, a number with a fraction or an exponent, or a date or time.
Underscores may stand between two digits. Dates and times carry no field that anybody asks for, so
their value is an object with one such key.
-/

namespace MetaTransaction.Toml

/-- The digits of a group in which single underscores stand between digits; fails without digits. -/
def grouped? (isDigit : Char → Bool) : List Char → Option (List Char)
  | [] => none
  | [c] => if isDigit c then some [c] else none
  | c :: '_' :: rest => if isDigit c then (grouped? isDigit rest).map (c :: ·) else none
  | c :: rest => if isDigit c then (grouped? isDigit rest).map (c :: ·) else none

/-- Whether a character is a digit of a base. -/
def isDigitOf (base : Nat) (c : Char) : Bool :=
  (Numeral.digitValue? c).any (· < base)

/-- The number that a group of digits of a base writes. -/
def magnitude? (base : Nat) (text : List Char) : Option Nat :=
  (grouped? (isDigitOf base) text).bind (Numeral.continueIn base 0)

/-- Digits without a leading zero, unless the zero is all. -/
def decimalDigits? (text : List Char) : Option (List Char) :=
  match grouped? Char.isDigit text with
  | some ('0' :: _ :: _) => none
  | digits => digits

/-- A text without its sign, and whether the sign is a minus. -/
def unsigned : List Char → Bool × List Char
  | '-' :: rest => (true, rest)
  | '+' :: rest => (false, rest)
  | text => (false, text)

/-- The whole number that a word writes. Numbers of more than a hundred and twenty-eight bits are
no values. -/
def integer? (word : List Char) : Option Json :=
  match word with
  | '0' :: 'x' :: digits => (magnitude? 16 digits).bind natural?
  | '0' :: 'o' :: digits => (magnitude? 8 digits).bind natural?
  | '0' :: 'b' :: digits => (magnitude? 2 digits).bind natural?
  | word =>
    let (negative, text) := unsigned word
    match (decimalDigits? text).bind (Numeral.continueIn 10 0) with
    | none => none
    | some n =>
      if negative ∧ n ≠ 0 then
        if n ≤ Nat.pow 2 127 then some (.number (String.ofList ('-' :: Nat.toDigits 10 n))) else none
      else natural? n
where
  /-- A natural number as a value. -/
  natural? (n : Nat) : Option Json := if n < Nat.pow 2 128 then some (.natural n) else none

/-- Whether a text is an exponent: a sign, if any, and digits. -/
def isExponent (text : List Char) : Bool :=
  (grouped? Char.isDigit (unsigned text).2).isSome

/-- Whether a character starts an exponent. -/
def isExponentMark (c : Char) : Bool := c = 'e' || c = 'E'

/-- Whether a text is empty or an exponent with its mark. -/
def isExponentPart : List Char → Bool
  | [] => true
  | mark :: rest => isExponentMark mark && isExponent rest

/-- Whether a word is a number with a fraction, an exponent or both, or one of the two names. -/
def isFloat (word : List Char) : Bool :=
  let text := (unsigned word).2
  let whole := text.takeWhile fun c => c.isDigit || c = '_'
  text = "inf".toList || text = "nan".toList ||
    ((decimalDigits? whole).isSome &&
      match text.drop whole.length with
      | [] => false
      | '.' :: rest =>
        let fraction := rest.takeWhile fun c => c.isDigit || c = '_'
        (grouped? Char.isDigit fraction).isSome && isExponentPart (rest.drop fraction.length)
      | rest => isExponentPart rest)

/-- The number of two digits. -/
def pair? (a b : Char) : Option Nat :=
  if a.isDigit ∧ b.isDigit then some ((a.toNat - 48) * 10 + (b.toNat - 48)) else none

/-- The number of days of a month. -/
def daysIn (year month : Nat) : Nat :=
  if month = 2 then
    if year % 4 = 0 ∧ (year % 100 ≠ 0 ∨ year % 400 = 0) then 29 else 28
  else if month = 4 ∨ month = 6 ∨ month = 9 ∨ month = 11 then 30
  else 31

/-- What follows a date. -/
def afterDate? : List Char → Option (List Char)
  | a :: b :: c :: d :: '-' :: e :: f :: '-' :: g :: h :: rest =>
    match pair? a b, pair? c d, pair? e f, pair? g h with
    | some century, some year, some month, some day =>
      if 1 ≤ month ∧ month ≤ 12 ∧ 1 ≤ day ∧ day ≤ daysIn (century * 100 + year) month then some rest
      else none
    | _, _, _, _ => none
  | _ => none

/-- What follows hours and minutes. -/
def afterMinutes? : List Char → Option (List Char)
  | a :: b :: ':' :: c :: d :: rest =>
    match pair? a b, pair? c d with
    | some hour, some minute => if hour < 24 ∧ minute < 60 then some rest else none
    | _, _ => none
  | _ => none

/-- What follows a time, whose seconds may be missing and may have a fraction. -/
def afterTime? (text : List Char) : Option (List Char) :=
  match afterMinutes? text with
  | some (':' :: a :: b :: rest) =>
    match pair? a b with
    | none => none
    | some second =>
      if second ≤ 60 then
        match rest with
        | '.' :: c :: rest => if c.isDigit then some (rest.dropWhile Char.isDigit) else none
        | rest => some rest
      else none
  | rest => rest

/-- Whether a text is empty or the distance from universal time. -/
def isOffset : List Char → Bool
  | [] => true
  | ['Z'] | ['z'] => true
  | '+' :: rest | '-' :: rest => afterMinutes? rest = some []
  | _ => false

/-- Whether a word is a date, a time or both. -/
def isDateTime (word : List Char) : Bool :=
  match afterDate? word with
  | some [] => true
  | some (mark :: rest) =>
    (mark = 'T' || mark = 't' || mark = ' ') && (afterTime? rest).any isOffset
  | none => afterTime? word = some []

/-- The value that a word writes. -/
def scalarOfWord? (word : List Char) : Option Json :=
  if word = "true".toList then some (.bool true)
  else if word = "false".toList then some (.bool false)
  else if isDateTime word then some (.record [("date and time", .string (String.ofList word))])
  else if isFloat word then some (.number (String.ofList word))
  else integer? word

end MetaTransaction.Toml
