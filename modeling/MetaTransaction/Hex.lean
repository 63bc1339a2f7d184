import MetaTransaction.Bytes
import MetaTransaction.Text.Quoted

/-!
# Hexadecimal byte strings

Two digits a byte, most significant first. Writing uses lower case, reading takes either case and
reports the first byte of the text that is no digit. Main statement: what is written reads back
(`decode_encode`).
-/

namespace MetaTransaction.Hex

/-- The lower-case digit of a number below sixteen. -/
def digit (n : UInt8) : Char :=
  if n < 10 then Char.ofNat (48 + n.toNat) else Char.ofNat (87 + n.toNat)

/-- The number that a digit of either case stands for. -/
def value? (c : UInt8) : Option UInt8 :=
  if 48 ≤ c && c ≤ 57 then some (c - 48)
  else if 97 ≤ c && c ≤ 102 then some (c - 87)
  else if 65 ≤ c && c ≤ 70 then some (c - 55)
  else none

/-- The two digits of a byte. -/
def digits (b : UInt8) : List Char :=
  [digit (b / 16), digit (b % 16)]

/-- The digits of a byte string. -/
def chars (bytes : Bytes) : List Char :=
  bytes.flatMap digits

/-- A byte string in lower case, two digits a byte. -/
def encode (bytes : Bytes) : String :=
  String.ofList (chars bytes)

/-- A byte string in lower case after `0x`. -/
def encodePrefixed (bytes : Bytes) : String :=
  String.ofList ('0' :: 'x' :: chars bytes)

/-- A byte of a text that should have been a digit, and where it stands. -/
structure BadDigit where
  /-- the byte -/
  byte : UInt8
  /-- the number of bytes before it -/
  position : Nat
deriving DecidableEq, Repr

/-- The bad digit as messages name it. -/
def BadDigit.description (d : BadDigit) : String :=
  "character " ++ Text.Quoted.byte d.byte ++ " at position " ++ toString d.position

/-- Why a text is no byte string in hexadecimal. -/
inductive Error
  /-- a last digit stands alone -/
  | oddLength
  /-- a byte is no digit -/
  | badDigit (digit : BadDigit)
deriving DecidableEq, Repr

/-- The bytes of an even number of digits, where `read` holds the bytes before them, last first.
They are kept because the place of a bad digit is counted from the start of the text. -/
def decodeFrom (read : Bytes) : Bytes → Except Error Bytes
  | [] => .ok read.reverse
  | [_] => .error .oddLength
  | a :: b :: rest =>
    match value? a with
    | none => .error (.badDigit ⟨a, 2 * read.length⟩)
    | some high =>
      match value? b with
      | none => .error (.badDigit ⟨b, 2 * read.length + 1⟩)
      | some low => decodeFrom ((high * 16 + low) :: read) rest

/-- The bytes that a text of digits writes. A lone last digit is reported before a bad one. -/
def decode (text : Bytes) : Except Error Bytes :=
  if text.length % 2 = 1 then .error .oddLength else decodeFrom [] text

theorem value?_digit (n : UInt8) (h : n < 16) :
    value? (digit n).val.toUInt8 = some n ∧
      String.utf8EncodeChar (digit n) = [(digit n).val.toUInt8] := by
  have small : ∀ k < 16, value? (digit (UInt8.ofNat k)).val.toUInt8 = some (UInt8.ofNat k) ∧
      String.utf8EncodeChar (digit (UInt8.ofNat k)) = [(digit (UInt8.ofNat k)).val.toUInt8] := by
    decide
  simpa using small n.toNat (by simpa [UInt8.lt_iff_toNat_lt] using h)

theorem high_low (b : UInt8) : b / 16 < 16 ∧ b % 16 < 16 ∧ b / 16 * 16 + b % 16 = b := by
  have bound := b.toNat_lt
  refine ⟨?_, ?_, ?_⟩
  · rw [UInt8.lt_iff_toNat_lt, UInt8.toNat_div]
    simp only [UInt8.reduceToNat]
    omega
  · rw [UInt8.lt_iff_toNat_lt, UInt8.toNat_mod]
    simp only [UInt8.reduceToNat]
    omega
  · rw [← UInt8.toNat_inj, UInt8.toNat_add, UInt8.toNat_mul, UInt8.toNat_div, UInt8.toNat_mod]
    simp only [UInt8.reduceToNat]
    omega

theorem ofString_encode_cons (b : UInt8) (bytes : Bytes) :
    Bytes.ofString (encode (b :: bytes)) =
      (digit (b / 16)).val.toUInt8 :: (digit (b % 16)).val.toUInt8 :: Bytes.ofString (encode bytes) := by
  have h := high_low b
  simp [Bytes.ofString, encode, chars, digits, (value?_digit _ h.1).2, (value?_digit _ h.2.1).2]

theorem decodeFrom_encode (read bytes : Bytes) :
    decodeFrom read (Bytes.ofString (encode bytes)) = .ok (read.reverse ++ bytes) := by
  induction bytes generalizing read with
  | nil => simp [encode, chars, Bytes.ofString, decodeFrom]
  | cons b bytes ih =>
    have h := high_low b
    rw [ofString_encode_cons, decodeFrom, (value?_digit _ h.1).1, (value?_digit _ h.2.1).1]
    simp only [ih, h.2.2, List.reverse_cons, List.append_assoc, List.singleton_append]

theorem length_ofString_encode (bytes : Bytes) :
    (Bytes.ofString (encode bytes)).length = 2 * bytes.length := by
  induction bytes with
  | nil => simp [encode, chars, Bytes.ofString]
  | cons b bytes ih => simp only [ofString_encode_cons, List.length_cons, ih]; omega

/-- What is written reads back. -/
theorem decode_encode (bytes : Bytes) : decode (Bytes.ofString (encode bytes)) = .ok bytes := by
  have even : (Bytes.ofString (encode bytes)).length % 2 ≠ 1 := by
    rw [length_ofString_encode]; omega
  rw [decode, if_neg even, decodeFrom_encode, List.reverse_nil, List.nil_append]

/-- A text without one leading `0x`. A second mark is left, and its `x` is no digit. -/
def stripLower : Bytes → Bytes
  | 48 :: 120 :: rest => rest
  | text => text

/-- A text without one leading `0x` or `0X`. Addresses, account keys and JSON strings are read with
this, the texts of identifiers and topics with the function above. -/
def strip : Bytes → Bytes
  | 48 :: 120 :: rest => rest
  | 48 :: 88 :: rest => rest
  | text => text

/-- The bytes of a text of digits with an optional `0x` or `0X`. -/
def read? (s : String) : Option Bytes :=
  (decode (strip (Bytes.ofString s))).toOption

/-- A byte string of `n` bytes from a text of digits with an optional `0x` or `0X`. -/
def readFixed? (n : Nat) (s : String) : Option (FixedBytes n) :=
  (read? s).bind (FixedBytes.ofBytes? n)

/-- The digits of a number without leading zeros, after `0x`. -/
def quantity (n : Nat) : String :=
  String.ofList ('0' :: 'x' :: Nat.toDigits 16 n)

end MetaTransaction.Hex
