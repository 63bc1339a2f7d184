import MetaTransaction.Decimal.Shortest

/-!
# Durations

A duration is a number of nanoseconds. The clock of a wait ticks in milliseconds, and a duration
ends with the first tick that is not before its end.
-/

namespace MetaTransaction

/-- A span of time. -/
structure Duration where
  nanoseconds : Nat
deriving DecidableEq, Repr, Inhabited

namespace Duration

def ofSeconds (n : Nat) : Duration := ⟨n * 1000000000⟩

def ofMilliseconds (n : Nat) : Duration := ⟨n * 1000000⟩

/-- Whole seconds and the nanoseconds after them. -/
def ofParts (seconds nanoseconds : Nat) : Duration := ⟨seconds * 1000000000 + nanoseconds⟩

/-- The whole seconds. -/
def seconds (d : Duration) : Nat := d.nanoseconds / 1000000000

/-- The nanoseconds after the whole seconds. -/
def subseconds (d : Duration) : Nat := d.nanoseconds % 1000000000

/-- The whole milliseconds. -/
def milliseconds (d : Duration) : Nat := d.nanoseconds / 1000000

/-- The ticks of the clock until the duration is over. A tick that has been begun counts, so that
nothing ends too early. -/
def ticks (d : Duration) : Nat := (d.nanoseconds + 999999) / 1000000

/-- The seconds as a decimal text, computed in floating point. It only serves messages. -/
def secondsText (d : Duration) : String :=
  Decimal.Shortest.text (Float.ofNat d.seconds + Float.ofNat d.subseconds / 1000000000)

theorem ticks_pos {d : Duration} (h : d.nanoseconds ≠ 0) : 0 < d.ticks := by
  unfold ticks
  omega

end Duration

end MetaTransaction
