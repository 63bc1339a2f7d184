import MetaTransaction.Numeral
import MetaTransaction.Text.Split

/-!
# Endpoints

The address of a node is an absolute `http` or `https` URL. Blanks around it, tabs and line breaks
do not count, any number of slashes may follow the scheme, and everything from the path on is free.
The host is a name, an IPv4 address in any of its notations, or an IPv6 address in brackets.
-/

namespace MetaTransaction.Endpoint

open Text (split before)

/-- A control character or a blank, which does not count at the ends of a URL. -/
def isEdge (c : Char) : Bool := c.toNat ≤ 32

/-- The text without what does not count. -/
def trim (text : List Char) : List Char :=
  (((text.dropWhile isEdge).reverse.dropWhile isEdge).reverse).filter
    fun c => !(c = '\t' || c = '\n' || c = '\r')

/-- Characters that cannot stand in the name of a host. -/
def isForbidden (c : Char) : Bool :=
  c.toNat ≤ 32 || c.toNat = 127 || c ∈ ['#', '/', ':', '<', '>', '?', '@', '[', '\\', ']', '^', '|', '%']

/-- Replaces each percent sign with two hexadecimal digits by the character of that number. -/
def percentDecode : List Char → List Char
  | '%' :: a :: b :: rest =>
    match Numeral.hexDigit? a, Numeral.hexDigit? b with
    | some high, some low => Char.ofNat (high * 16 + low) :: percentDecode rest
    | _, _ => '%' :: percentDecode (a :: b :: rest)
  | c :: rest => c :: percentDecode rest
  | [] => []
termination_by text => text.length

/-- A number in an IPv4 address: hexadecimal after `0x`, octal after `0`, else decimal. -/
def ipv4Number? : List Char → Option Nat
  | [] => none
  | '0' :: 'x' :: digits => Numeral.continueIn 16 0 (digits.filter (· ≠ '_'))
  | '0' :: 'X' :: digits => Numeral.continueIn 16 0 (digits.filter (· ≠ '_'))
  | '0' :: digits => Numeral.continueIn 8 0 digits
  | digits => Numeral.continueIn 10 0 digits

/-- Whether numbers make an IPv4 address: all but the last are bytes, and the last fills the rest. -/
def isIpv4 (parts : List (List Char)) : Bool :=
  match parts.mapM ipv4Number? with
  | none => false
  | some numbers =>
    numbers.length ≤ 4 && numbers.dropLast.all (· < 256) &&
      (numbers.getLast?.all fun last => last < Nat.pow 256 (5 - numbers.length))

/-- Whether the last label of a host is a number, so that the host is an IPv4 address. -/
def endsInNumber (labels : List (List Char)) : Bool :=
  match labels.getLast? with
  | none => false
  | some last => !last.isEmpty && last.all Char.isDigit || (ipv4Number? last).isSome

/-- Whether a text is the name or the IPv4 address of a host. -/
def isName (text : List Char) : Bool :=
  let host := percentDecode text
  let labels := split '.' host
  let labels := if labels.length > 1 ∧ labels.getLast? = some [] then labels.dropLast else labels
  !host.isEmpty && !host.any isForbidden && (!endsInNumber labels || isIpv4 labels)

/-- Whether a text is one to four hexadecimal digits. -/
def isPiece (text : List Char) : Bool :=
  0 < text.length && text.length ≤ 4 &&
    text.all fun c => (Numeral.hexDigit? c).isSome

/-- Whether a text is four decimal bytes without leading zeros. -/
def isDottedQuad (text : List Char) : Bool :=
  let parts := split '.' text
  parts.length = 4 && parts.all fun part =>
    !part.isEmpty && part.all Char.isDigit && (part.length = 1 || part.head? ≠ some '0') &&
      (Numeral.continueIn 10 0 part).any (· < 256)

/-- How many pieces of an IPv6 address stand between colons. The last two may be a dotted quad. -/
def pieceCount? (text : List Char) : Option Nat :=
  if text.isEmpty then some 0
  else
    let pieces := split ':' text
    match pieces.getLast? with
    | none => none
    | some last =>
      if pieces.dropLast.all isPiece then
        if isPiece last then some pieces.length
        else if isDottedQuad last then some (pieces.length + 1)
        else none
      else none

/-- The text before and after the first double colon. -/
def splitAtGap : List Char → Option (List Char × List Char)
  | ':' :: ':' :: rest => some ([], rest)
  | c :: rest => (splitAtGap rest).map fun (left, right) => (c :: left, right)
  | [] => none

/-- Whether a text is an IPv6 address. -/
def isIpv6 (text : List Char) : Bool :=
  match splitAtGap text with
  | none => pieceCount? text = some 8
  | some (left, right) =>
    match pieceCount? left, pieceCount? right with
    | some m, some n => m + n ≤ 7 && !left.any (· = '.')
    | _, _ => false

/-- Whether a text is the number of a socket; nothing is the number that the scheme has. -/
def isSocketNumber (text : List Char) : Bool :=
  text.all Char.isDigit && (text.isEmpty || (Numeral.continueIn 10 0 text).any (· < 65536))

/-- Whether a text is a host with an optional socket number. -/
def isAuthority (text : List Char) : Bool :=
  match text with
  | '[' :: rest =>
    let (address, rest) := before (· = ']') rest
    isIpv6 address &&
      (match rest with
        | [']'] => true
        | ']' :: ':' :: number => isSocketNumber number
        | _ => false)
  | _ =>
    let (host, rest) := before (· = ':') text
    isName host &&
      (match rest with
        | [] => true
        | _ :: number => isSocketNumber number)

/-- What follows the last `@`. -/
def afterUser (text : List Char) : List Char :=
  (split '@' text).getLast?.getD []

/-- Whether a text is a URL of one of the two schemes. -/
def isUrl (text : List Char) : Bool :=
  let (scheme, rest) := before (· = ':') (trim text)
  let scheme := scheme.map Char.toLower
  let rest := (rest.drop 1).dropWhile fun c => c = '/' || c = '\\'
  let authority := (before (fun c => c = '/' || c = '\\' || c = '?' || c = '#') rest).1
  (scheme = "http".toList || scheme = "https".toList) && isAuthority (afterUser authority)

/-- Whether a text is an address and a socket number, as it can stand for a URL. -/
def isSocket (text : List Char) : Bool :=
  match text with
  | '[' :: rest =>
    let (address, rest) := before (· = ']') rest
    isIpv6 address &&
      (match rest with
        | ']' :: ':' :: number => !number.isEmpty && isSocketNumber number
        | _ => false)
  | _ =>
    let (host, rest) := before (· = ':') text
    isDottedQuad host && 1 < rest.length && isSocketNumber (rest.drop 1)

/-- Whether a client can be made for the address. No request is made for that, so that a node that
does not exist is only noticed with the first question. -/
def isValid (address : String) : Bool :=
  let text := address.toList
  if "localhost:".toList.isPrefixOf text || isSocket text then isUrl ("http://".toList ++ text)
  else isUrl text

end MetaTransaction.Endpoint
