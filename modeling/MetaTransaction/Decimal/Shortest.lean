/-!
# The shortest decimal text of a binary number

The text of a binary floating-point number with the fewest digits that still reads back as it. The
number is taken as `mantissa * 2 ^ exponent`, together with the interval of reals that round to it.
Decimal grids are tried from the coarsest to finer ones, in exact arithmetic: the first grid with a
point inside the interval gives the digits, and of two such points the nearer one.
-/

namespace MetaTransaction.Decimal.Shortest

/-- The number `mantissa * 2 ^ exponent`. -/
structure Binary where
  mantissa : Nat
  exponent : Int
deriving DecidableEq, Repr

/-- The magnitude of a finite floating-point number of sixty-four bits. -/
def Binary.ofFloat (x : Float) : Binary :=
  let bits := x.toBits.toNat
  let exponent : Nat := bits / Nat.pow 2 52 % Nat.pow 2 11
  let fraction : Nat := bits % Nat.pow 2 52
  if exponent = 0 then ⟨fraction, -1074⟩ else ⟨Nat.pow 2 52 + fraction, (exponent : Int) - 1075⟩

/-- A value and the ends of the interval that rounds to it, as numerators over one denominator.
Working in whole numbers keeps the comparisons exact. -/
structure Interval where
  low : Nat
  value : Nat
  high : Nat
  denominator : Nat
  /-- whether the ends round to the value too -/
  closed : Bool
deriving DecidableEq, Repr

/-- The interval of a binary number: half a step up and half a step down, where the step below a
power of two is half as long. -/
def Binary.interval (b : Binary) : Interval :=
  let unit := Nat.pow 2 b.exponent.toNat
  let below := if b.mantissa = Nat.pow 2 52 then 1 else 2
  { low := (4 * b.mantissa - below) * unit
    value := 4 * b.mantissa * unit
    high := (4 * b.mantissa + 2) * unit
    denominator := 4 * Nat.pow 2 (-b.exponent).toNat
    closed := b.mantissa % 2 = 0 }

/-- Whether a numerator lies in the interval. -/
def Interval.contains (i : Interval) (n : Nat) : Bool :=
  if i.closed then i.low ≤ n && n ≤ i.high else i.low < n && n < i.high

/-- The interval with every numerator and the denominator scaled. -/
def Interval.scale (i : Interval) (numerators denominator : Nat) : Interval :=
  { i with
    low := i.low * numerators
    value := i.value * numerators
    high := i.high * numerators
    denominator := i.denominator * denominator }

/-- The interval in units of `10 ^ place`. -/
def Interval.inUnits (i : Interval) (place : Int) : Interval :=
  i.scale (Nat.pow 10 (-place).toNat) (Nat.pow 10 place.toNat)

/-- The whole number in the interval that is nearest to its value, the upper one of two. -/
def Interval.nearest? (i : Interval) : Option Nat :=
  let lower := i.value / i.denominator
  let upper := lower + 1
  let takesLower := i.contains (lower * i.denominator)
  let takesUpper := i.contains (upper * i.denominator)
  let lowerIsNearer := i.value - lower * i.denominator < upper * i.denominator - i.value
  if takesLower && (lowerIsNearer || !takesUpper) then some lower
  else if takesUpper then some upper
  else none

/-- Tries `fuel` places downwards from `place`, and gives the digits and the place of the last. -/
def search (i : Interval) : (fuel : Nat) → (place : Int) → Option (Nat × Int)
  | 0, _ => none
  | fuel + 1, place =>
    match (i.inUnits place).nearest? with
    | some digits => some (digits, place)
    | none => search i fuel (place - 1)

/-- The fewest digits that read back, and the place of the last one. -/
def digits (b : Binary) : Nat × Int :=
  let i := b.interval
  let wholeDigits := (Nat.toDigits 10 (i.value / i.denominator)).length
  (search i (wholeDigits + 360) wholeDigits).getD (0, 0)

/-- Digits and the place of the last one in positional notation, without an exponent. -/
def positional (digits : Nat) (place : Int) : List Char :=
  let text := Nat.toDigits 10 digits
  if 0 ≤ place then text ++ List.replicate place.toNat '0'
  else
    let fractional := (-place).toNat
    let padded := List.replicate (fractional + 1 - text.length) '0' ++ text
    padded.take (padded.length - fractional) ++ '.' :: padded.drop (padded.length - fractional)

/-- The text of a floating-point number that is finite and not negative. -/
def text (x : Float) : String :=
  let b := Binary.ofFloat x
  if b.mantissa = 0 then "0"
  else
    let (digits, place) := digits b
    String.ofList (positional digits place)

end MetaTransaction.Decimal.Shortest
