import MetaTransaction.Numeral

/-!
# TOML tokens

The tokens of a TOML text, read character by character. Line breaks are tokens, blanks and comments
are not. Words (bare keys, numbers, dates, `true` and `false`) are told apart later, where it is known
whether a key or a value may stand.
-/

namespace MetaTransaction.Toml

/-- A token. -/
inductive Token
  | newline
  | equals
  | comma
  /-- an opening bracket, and whether another bracket stands directly before it -/
  | openBracket (adjoined : Bool)
  /-- a closing bracket, and whether another bracket stands directly before it -/
  | closeBracket (adjoined : Bool)
  | openBrace
  | closeBrace
  | word (letters : List Char)
  /-- a quoted string, and whether its quotes are the tripled ones -/
  | string (s : String) (tripled : Bool)
deriving DecidableEq, Repr

/-- The two kinds of quotes. -/
inductive Quote
  /-- double quotes, between which a backslash escapes -/
  | basic
  /-- single quotes, between which every character stands for itself -/
  | verbatim
deriving DecidableEq, Repr

/-- The character of the quotes. -/
def Quote.char : Quote → Char
  | .basic => '"'
  | .verbatim => '\''

/-- Where the reader stands in the text. What has been read of a token comes last first. -/
inductive Place
  /-- between tokens, and whether the last character was a bracket -/
  | between (bracket : Bool)
  | inComment
  | inWord (read : List Char)
  /-- after the one blank that may stand between a date and a time -/
  | afterDate (read : List Char)
  /-- after one opening quote -/
  | oneQuote (quote : Quote)
  /-- after two quotes, which are an empty string unless a third one follows -/
  | twoQuotes (quote : Quote)
  /-- after three quotes, where a line break does not count -/
  | threeQuotes (quote : Quote)
  | inString (quote : Quote) (tripled : Bool) (read : List Char)
  /-- after so many quotes inside tripled ones, at most five -/
  | closing (quote : Quote) (read : List Char) (count : Nat)
  | inEscape (tripled : Bool) (read : List Char)
  /-- digits of a code point still to come, and the number so far -/
  | inCodePoint (tripled : Bool) (read : List Char) (left n : Nat)
  /-- after a backslash at the end of a line, and whether the line break has come -/
  | afterBackslash (read : List Char) (broken : Bool)
deriving DecidableEq, Repr

/-- Whether a character may be part of a word. -/
def isWordChar (c : Char) : Bool :=
  c.isAlphanum || c = '_' || c = '-' || c = '+' || c = '.' || c = ':'

/-- Control characters, of which only the tab may stand in a text. -/
def isControl (c : Char) : Bool :=
  (c.toNat < 32 && c ≠ '\t') || c.toNat = 127

/-- Whether what has been read looks like a date, after which a blank and a time may follow. -/
def looksLikeDate (read : List Char) : Bool :=
  match read with
  | [d, c, '-', b, a, '-', w, z, y, x] => [d, c, b, a, w, z, y, x].all Char.isDigit
  | _ => false

/-- The place after a character between tokens, and the token that it is. -/
def startAt (bracket : Bool) (c : Char) : Option (Place × Option Token) :=
  match c with
  | ' ' | '\t' => some (.between false, none)
  | '\n' => some (.between false, some .newline)
  | '#' => some (.inComment, none)
  | '=' => some (.between false, some .equals)
  | ',' => some (.between false, some .comma)
  | '[' => some (.between true, some (.openBracket bracket))
  | ']' => some (.between true, some (.closeBracket bracket))
  | '\x7b' => some (.between false, some .openBrace)
  | '\x7d' => some (.between false, some .closeBrace)
  | '"' => some (.oneQuote .basic, none)
  | '\'' => some (.oneQuote .verbatim, none)
  | c => if isWordChar c then some (.inWord [c], none) else none

/-- The place after the first character that is no longer part of a token. -/
def restartAt (token : Token) (tokens : List Token) (c : Char) : Option (Place × List Token) :=
  (startAt false c).map fun (place, next) => (place, next.toList ++ token :: tokens)

/-- The place after a character of a string. -/
def inStringAt (quote : Quote) (tripled : Bool) (read : List Char) (tokens : List Token) (c : Char) :
    Option (Place × List Token) :=
  if c = quote.char then
    if tripled then some (.closing quote read 1, tokens)
    else some (.between false, .string (String.ofList read.reverse) false :: tokens)
  else if c = '\\' ∧ quote = .basic then some (.inEscape tripled read, tokens)
  else if isControl c ∧ ¬(tripled ∧ c = '\n') then none
  else some (.inString quote tripled (c :: read), tokens)

/-- The number of digits of the code point after an escape letter. -/
def codePointLength? : Char → Option Nat
  | 'x' => some 2
  | 'u' => some 4
  | 'U' => some 8
  | _ => none

/-- The character that an escape letter stands for. -/
def unescape? : Char → Option Char
  | '"' => some '"'
  | '\\' => some '\\'
  | 'b' => some '\x08'
  | 'e' => some '\x1b'
  | 'f' => some '\x0c'
  | 'n' => some '\n'
  | 'r' => some '\r'
  | 't' => some '\t'
  | _ => none

/-- The character of a code point. -/
def scalar? (n : Nat) : Option Char :=
  if h : n.isValidChar then some (Char.ofNatAux n h) else none

/-- The string between tripled quotes that `count` quotes close: those before the last three belong
to it. -/
def tripledString (quote : Quote) (read : List Char) (count : Nat) : Token :=
  .string (String.ofList (List.replicate (count - 3) quote.char ++ read).reverse) true

/-- The place after one more character, and the tokens that are complete, last first. -/
def Place.step (place : Place) (tokens : List Token) (c : Char) : Option (Place × List Token) :=
  match place with
  | .between bracket => (startAt bracket c).map fun (place, token) => (place, token.toList ++ tokens)
  | .inComment =>
    if c = '\n' then some (.between false, .newline :: tokens)
    else if isControl c then none
    else some (.inComment, tokens)
  | .inWord read =>
    if isWordChar c then some (.inWord (c :: read), tokens)
    else if c = ' ' ∧ looksLikeDate read then some (.afterDate read, tokens)
    else restartAt (.word read.reverse) tokens c
  | .afterDate read =>
    if c.isDigit then some (.inWord (c :: ' ' :: read), tokens)
    else restartAt (.word read.reverse) tokens c
  | .oneQuote quote =>
    if c = quote.char then some (.twoQuotes quote, tokens) else inStringAt quote false [] tokens c
  | .twoQuotes quote =>
    if c = quote.char then some (.threeQuotes quote, tokens)
    else restartAt (.string "" false) tokens c
  | .threeQuotes quote =>
    if c = '\n' then some (.inString quote true [], tokens) else inStringAt quote true [] tokens c
  | .inString quote tripled read => inStringAt quote tripled read tokens c
  | .closing quote read count =>
    if c = quote.char ∧ count < 5 then some (.closing quote read (count + 1), tokens)
    else if 3 ≤ count then restartAt (tripledString quote read count) tokens c
    else inStringAt quote true (List.replicate count quote.char ++ read) tokens c
  | .inEscape tripled read =>
    match codePointLength? c with
    | some left => some (.inCodePoint tripled read left 0, tokens)
    | none =>
      match unescape? c with
      | some c => some (.inString .basic tripled (c :: read), tokens)
      | none =>
        if tripled ∧ (c = ' ' ∨ c = '\t') then some (.afterBackslash read false, tokens)
        else if tripled ∧ c = '\n' then some (.afterBackslash read true, tokens)
        else none
  | .inCodePoint tripled read left n =>
    match Numeral.hexDigit? c with
    | none => none
    | some d =>
      if left ≤ 1 then
        (scalar? (n * 16 + d)).map fun c => (.inString .basic tripled (c :: read), tokens)
      else some (.inCodePoint tripled read (left - 1) (n * 16 + d), tokens)
  | .afterBackslash read broken =>
    if c = ' ' ∨ c = '\t' then some (.afterBackslash read broken, tokens)
    else if c = '\n' then some (.afterBackslash read true, tokens)
    else if broken then inStringAt .basic true read tokens c
    else none

/-- The tokens of a text that ends at a place, last first; none if it must not end there. -/
def Place.finish (place : Place) (tokens : List Token) : Option (List Token) :=
  match place with
  | .between _ | .inComment => some tokens
  | .inWord read | .afterDate read => some (.word read.reverse :: tokens)
  | .twoQuotes _ => some (.string "" false :: tokens)
  | .closing quote read count =>
    if 3 ≤ count then some (tripledString quote read count :: tokens) else none
  | _ => none

/-- The tokens of a text, where `tokens` have been read before it, last first. -/
def tokensFrom (place : Place) (tokens : List Token) : List Char → Option (List Token)
  | [] => (place.finish tokens).map List.reverse
  | c :: rest =>
    match place.step tokens c with
    | none => none
    | some (place, tokens) => tokensFrom place tokens rest

/-- A text whose line breaks are single characters. -/
def normalBreaks : List Char → List Char
  | '\r' :: '\n' :: rest => '\n' :: normalBreaks rest
  | c :: rest => c :: normalBreaks rest
  | [] => []

/-- A text without a byte order mark at its start. -/
def withoutMark : List Char → List Char
  | '\ufeff' :: rest => rest
  | text => text

/-- The tokens of a text. -/
def tokens? (text : List Char) : Option (List Token) :=
  tokensFrom (.between false) [] (normalBreaks (withoutMark text))

end MetaTransaction.Toml
