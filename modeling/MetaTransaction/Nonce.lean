import MetaTransaction.Bytes
import MetaTransaction.Error

/-!
# Nonces

A wallet keeps a counter for each nonce space. The word of a nonce holds the space in its upper 160
bits and the counter in its lower 96 bits. Both widths are part of the type, so that a nonce always
fits its word.
-/

namespace MetaTransaction

/-- A counter in a nonce space. Both have the width of their part of the word, so that a nonce which
does not fit its word cannot be built. -/
structure Nonce where
  space : BitVec 160
  counter : BitVec 96
deriving DecidableEq

namespace Nonce

/-- The first nonce of the first space. -/
def zero : Nonce := ⟨0, 0⟩

instance : Inhabited Nonce := ⟨zero⟩

/-- The nonce with a counter that is given as a number of the virtual machine. A counter that is too
wide is refused and not cut off, because it would be another counter. -/
def ofCounter (space : BitVec 160) (counter : Word) : Except DerivationError Nonce :=
  if counter.toNat < Nat.pow 2 96 then .ok ⟨space, counter.setWidth 96⟩
  else .error (.counterTooWide counter.toNat)

/-- The word of a nonce. -/
def encode (n : Nonce) : Word :=
  n.space ++ n.counter

/-- The nonce of a word. -/
def decode (w : Word) : Nonce :=
  ⟨w.extractLsb' 96 160, w.extractLsb' 0 96⟩

/-- The counter as a number of the virtual machine. -/
def counterWord (n : Nonce) : Word :=
  n.counter.setWidth 256

/-- The next nonce of the same space. The last counter has none, rather than the first one of the
next space. -/
def next (n : Nonce) : Except DerivationError Nonce :=
  ofCounter n.space (n.counterWord + 1)

/-- The word of a space. -/
def spaceWord (space : BitVec 160) : Word :=
  space.setWidth 256

end Nonce

end MetaTransaction
