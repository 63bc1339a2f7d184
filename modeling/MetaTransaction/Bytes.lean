/-!
# Byte strings

Byte strings of any length, byte strings of a fixed length, and the big-endian numbers that they
stand for. Addresses and hashes are byte strings of twenty and thirty-two bytes. Main statements:
writing a number in a given width has that width (`length_ofNat`), and reading it back gives the
number modulo the width (`toNat_ofNat`).
-/

namespace MetaTransaction

/-- A byte string. -/
abbrev Bytes := List UInt8

namespace Bytes

/-- The number that a byte string writes, most significant byte first. -/
def toNat (bytes : Bytes) : Nat :=
  bytes.foldl (fun n b => n * 256 + b.toNat) 0

/-- The last `width` bytes of `n`, most significant byte first. Where `n` is smaller there are zeros in
front. -/
def ofNat : (width n : Nat) → Bytes
  | 0, _ => []
  | width + 1, n => ofNat width (n / 256) ++ [UInt8.ofNat n]

/-- The UTF-8 form of a text. -/
def ofString (s : String) : Bytes :=
  s.toList.flatMap String.utf8EncodeChar

@[simp] theorem length_ofNat (width n : Nat) : (ofNat width n).length = width := by
  induction width generalizing n with
  | zero => rfl
  | succ width ih => simp [ofNat, ih]

theorem toNat_append_singleton (bytes : Bytes) (b : UInt8) :
    toNat (bytes ++ [b]) = toNat bytes * 256 + b.toNat := by
  simp [toNat]

/-- Reading what was written gives the number modulo the width. -/
theorem toNat_ofNat (width n : Nat) : toNat (ofNat width n) = n % Nat.pow 256 width := by
  rw [Nat.pow_eq]
  induction width generalizing n with
  | zero => simp [ofNat, toNat, Nat.mod_one]
  | succ width ih =>
    rw [ofNat, toNat_append_singleton, ih]
    have byte : (UInt8.ofNat n).toNat = n % 256 := by simp
    rw [byte, Nat.pow_succ', Nat.mod_mul, Nat.add_comm, Nat.mul_comm]

end Bytes

/-- A byte string of exactly `n` bytes. The length is part of the type, so that nothing that is
given an address or a hash has to check it again. -/
structure FixedBytes (n : Nat) where
  /-- the bytes in order -/
  bytes : Bytes
  length_bytes : bytes.length = n
deriving DecidableEq

namespace FixedBytes

@[ext] theorem ext {n : Nat} {a b : FixedBytes n} (h : a.bytes = b.bytes) : a = b := by
  cases a; cases b; cases h; rfl

/-- The byte string, when it has the length. -/
def ofBytes? (n : Nat) (bytes : Bytes) : Option (FixedBytes n) :=
  if h : bytes.length = n then some ⟨bytes, h⟩ else none

/-- The last `n` bytes of a number. -/
def ofNat (n value : Nat) : FixedBytes n :=
  ⟨Bytes.ofNat n value, Bytes.length_ofNat n value⟩

/-- The number that the bytes write. -/
def toNat {n : Nat} (b : FixedBytes n) : Nat :=
  Bytes.toNat b.bytes

instance {n : Nat} : Inhabited (FixedBytes n) := ⟨ofNat n 0⟩

@[simp] theorem ofBytes?_bytes {n : Nat} (b : FixedBytes n) : ofBytes? n b.bytes = some b := by
  simp [ofBytes?, b.length_bytes]

end FixedBytes

/-- The account of a contract or of a key. -/
abbrev Address := FixedBytes 20

/-- A digest, an event topic or the hash of a transaction. -/
abbrev Hash := FixedBytes 32

/-- A number of the chain's virtual machine, which computes modulo `2 ^ 256`. -/
abbrev Word := BitVec 256

end MetaTransaction
