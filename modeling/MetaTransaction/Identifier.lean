import MetaTransaction.Chain
import MetaTransaction.Error
import MetaTransaction.Hex

/-!
# Identifiers

The identifier of a meta-transaction is thirty-two bytes that the client derives and the wallet
emits. Its text is sixty-four lower-case digits; reading takes either case and one optional `0x`.
-/

namespace MetaTransaction

/-- The identifier of a meta-transaction: the bytes that are looked for in logs. -/
structure Identifier where
  hash : Hash
deriving DecidableEq

namespace Identifier

/-- The number of digits of an identifier's text. -/
def textLength : Nat := 64

/-- The text of an identifier. -/
def text (id : Identifier) : String :=
  Hex.encode id.hash.bytes

/-- The identifier that a text writes. The length is counted in bytes, and it is looked at before
the digits. -/
def read (s : String) : Except DerivationError Identifier :=
  let digits := Hex.stripLower (Bytes.ofString s)
  if digits.length ≠ textLength then .error (.identifierLength digits.length)
  else
    match Hex.decode digits with
    | .error .oddLength => .error (.identifierLength digits.length)
    | .error (.badDigit digit) => .error (.identifierDigit digit)
    | .ok bytes =>
      if h : bytes.length = 32 then .ok ⟨⟨bytes, h⟩⟩
      else .error (.identifierLength digits.length)

/-- A scheme that maps a chain, a wallet and a digest to the bytes of an identifier. There may be
other wallets than the one of this library, so a scheme need not even give thirty-two bytes. -/
abbrev Scheme := ChainId → Address → Hash → Bytes

/-- The identifier that a scheme gives, through its text, as the text is what is checked. -/
def derive (scheme : Scheme) (chain : ChainId) (wallet : Address) (digest : Hash) :
    Except DerivationError Identifier :=
  let text := Hex.encode (scheme chain wallet digest)
  if text.length ≠ textLength then .error (.identifierWidth text.length) else read text

end Identifier

end MetaTransaction
