import MetaTransaction.Bytes

/-!
# Keccak-256

The hash that the chain uses for digests, event topics and address checksums: the sponge over
twenty-five lanes of sixty-four bits with a rate of 136 bytes, the padding `1 0* 1`, and the first
thirty-two bytes of the final state. The state is held as five planes of five lanes, so that every
step is a plain expression in its lanes.
-/

namespace MetaTransaction.Keccak

/-- The five lanes that share a row number. -/
structure Plane where
  a : UInt64
  b : UInt64
  c : UInt64
  d : UInt64
  e : UInt64
deriving DecidableEq, Repr

/-- The twenty-five lanes of the permutation. -/
structure State where
  p : Plane
  q : Plane
  r : Plane
  s : Plane
  t : Plane
deriving DecidableEq, Repr

namespace Plane

def zero : Plane := ⟨0, 0, 0, 0, 0⟩

def xor (x y : Plane) : Plane :=
  ⟨x.a ^^^ y.a, x.b ^^^ y.b, x.c ^^^ y.c, x.d ^^^ y.d, x.e ^^^ y.e⟩

/-- Each lane takes in the next one, negated, and the one after it. -/
def chi (x : Plane) : Plane :=
  ⟨x.a ^^^ (~~~x.b &&& x.c), x.b ^^^ (~~~x.c &&& x.d), x.c ^^^ (~~~x.d &&& x.e),
    x.d ^^^ (~~~x.e &&& x.a), x.e ^^^ (~~~x.a &&& x.b)⟩

end Plane

/-- A lane rotated to the left. -/
def rotate (lane : UInt64) (amount : UInt64) : UInt64 :=
  (lane <<< amount) ||| (lane >>> (64 - amount))

namespace State

def zero : State := ⟨.zero, .zero, .zero, .zero, .zero⟩

def xor (x y : State) : State :=
  ⟨x.p.xor y.p, x.q.xor y.q, x.r.xor y.r, x.s.xor y.s, x.t.xor y.t⟩

/-- Adds to each lane the parities of two neighbouring columns. -/
def theta (x : State) : State :=
  let column := (((x.p.xor x.q).xor x.r).xor x.s).xor x.t
  let effect : Plane :=
    ⟨column.e ^^^ rotate column.b 1, column.a ^^^ rotate column.c 1,
      column.b ^^^ rotate column.d 1, column.c ^^^ rotate column.e 1,
      column.d ^^^ rotate column.a 1⟩
  ⟨x.p.xor effect, x.q.xor effect, x.r.xor effect, x.s.xor effect, x.t.xor effect⟩

/-- Rotates each lane by its offset and moves it to its new place. -/
def rhoPi (x : State) : State :=
  ⟨⟨x.p.a, rotate x.q.b 44, rotate x.r.c 43, rotate x.s.d 21, rotate x.t.e 14⟩,
    ⟨rotate x.p.d 28, rotate x.q.e 20, rotate x.r.a 3, rotate x.s.b 45, rotate x.t.c 61⟩,
    ⟨rotate x.p.b 1, rotate x.q.c 6, rotate x.r.d 25, rotate x.s.e 8, rotate x.t.a 18⟩,
    ⟨rotate x.p.e 27, rotate x.q.a 36, rotate x.r.b 10, rotate x.s.c 15, rotate x.t.d 56⟩,
    ⟨rotate x.p.c 62, rotate x.q.d 55, rotate x.r.e 39, rotate x.s.a 41, rotate x.t.b 2⟩⟩

/-- Mixes each plane, and adds the constant of the round to the first lane. -/
def chiIota (constant : UInt64) (x : State) : State :=
  let first := x.p.chi
  ⟨{ first with a := first.a ^^^ constant }, x.q.chi, x.r.chi, x.s.chi, x.t.chi⟩

def round (x : State) (constant : UInt64) : State :=
  chiIota constant (rhoPi (theta x))

end State

/-- The constants of the twenty-four rounds. -/
def roundConstants : List UInt64 :=
  [0x0000000000000001, 0x0000000000008082, 0x800000000000808a, 0x8000000080008000,
    0x000000000000808b, 0x0000000080000001, 0x8000000080008081, 0x8000000000008009,
    0x000000000000008a, 0x0000000000000088, 0x0000000080008009, 0x000000008000000a,
    0x000000008000808b, 0x800000000000008b, 0x8000000000008089, 0x8000000000008003,
    0x8000000000008002, 0x8000000000000080, 0x000000000000800a, 0x800000008000000a,
    0x8000000080008081, 0x8000000000008080, 0x0000000080000001, 0x8000000080008008]

/-- The permutation of the state. -/
def permute (x : State) : State :=
  roundConstants.foldl State.round x

/-- The bytes that fill up a message of `length` bytes to whole blocks of 136 bytes. There is always
at least one, so that messages of different lengths do not become one. -/
def padding (length : Nat) : Bytes :=
  match 135 - length % 136 with
  | 0 => [0x81]
  | zeros + 1 => 0x01 :: List.replicate zeros 0 ++ [0x80]

/-- The lanes of a byte string, least significant byte first. -/
def lanes : Bytes → List UInt64
  | b₀ :: b₁ :: b₂ :: b₃ :: b₄ :: b₅ :: b₆ :: b₇ :: rest =>
    (b₀.toUInt64 ||| b₁.toUInt64 <<< 8 ||| b₂.toUInt64 <<< 16 ||| b₃.toUInt64 <<< 24 |||
      b₄.toUInt64 <<< 32 ||| b₅.toUInt64 <<< 40 ||| b₆.toUInt64 <<< 48 ||| b₇.toUInt64 <<< 56) ::
        lanes rest
  | _ => []

/-- Takes whole blocks of seventeen lanes into the state, with a permutation after each. A list that
is too short for a block ends the message. -/
def absorb (x : State) : List UInt64 → State
  | l₀ :: l₁ :: l₂ :: l₃ :: l₄ :: l₅ :: l₆ :: l₇ :: l₈ :: l₉ :: l₁₀ :: l₁₁ :: l₁₂ :: l₁₃ :: l₁₄ ::
      l₁₅ :: l₁₆ :: rest =>
    absorb
      (permute (x.xor
        ⟨⟨l₀, l₁, l₂, l₃, l₄⟩, ⟨l₅, l₆, l₇, l₈, l₉⟩, ⟨l₁₀, l₁₁, l₁₂, l₁₃, l₁₄⟩,
          ⟨l₁₅, l₁₆, 0, 0, 0⟩, .zero⟩))
      rest
  | _ => x

/-- The eight bytes of a lane, least significant first. -/
def laneBytes (lane : UInt64) : Bytes :=
  [lane.toUInt8, (lane >>> 8).toUInt8, (lane >>> 16).toUInt8, (lane >>> 24).toUInt8,
    (lane >>> 32).toUInt8, (lane >>> 40).toUInt8, (lane >>> 48).toUInt8, (lane >>> 56).toUInt8]

/-- The first thirty-two bytes of the state. -/
def squeeze (x : State) : Hash :=
  ⟨laneBytes x.p.a ++ laneBytes x.p.b ++ laneBytes x.p.c ++ laneBytes x.p.d, rfl⟩

/-- The hash of a message. -/
def hash (message : Bytes) : Hash :=
  squeeze (absorb .zero (lanes (message ++ padding message.length)))

end MetaTransaction.Keccak
