import SnakeDraft.Decimal.Format
import SnakeDraft.Machine

/-!
Lengths of time in whole nanoseconds. The whole seconds of a duration fit 64 bits, so not every
number of seconds has one: `Duration.ofSeconds?` refuses negative, infinite and too large numbers.
The seconds of a clock fit a signed word, so not every duration can be added to a reading of it
(`Duration.after?`).
-/

namespace SnakeDraft

/-- A length of time. -/
structure Duration where
  nanoseconds : Nat
deriving DecidableEq, Repr

namespace Duration

/-- The nanoseconds of a second. -/
def perSecond : Nat := 1000000000

/-- The nanoseconds of a millisecond. -/
def perMillisecond : Nat := 1000000

def ofWholeSeconds (seconds : Nat) : Duration :=
  ⟨seconds * perSecond⟩

def ofMilliseconds (milliseconds : Nat) : Duration :=
  ⟨milliseconds * perMillisecond⟩

/-- The whole seconds of a duration. -/
def seconds (d : Duration) : Nat :=
  d.nanoseconds / perSecond

/-- The nanoseconds beyond the whole seconds. -/
def subsecond (d : Duration) : Nat :=
  d.nanoseconds % perSecond

def milliseconds (d : Duration) : Nat :=
  d.nanoseconds / perMillisecond

/-- The reading of a clock some time after another one, if the clock can tell it: it counts seconds in a signed
word. -/
def after? (reading length : Duration) : Option Duration :=
  let nanoseconds := reading.nanoseconds + length.nanoseconds
  if nanoseconds < signedSize * perSecond then some ⟨nanoseconds⟩ else none

theorem isSome_after? (reading length : Duration) :
    (reading.after? length).isSome = decide (reading.nanoseconds + length.nanoseconds < signedSize * perSecond) := by
  unfold after?
  simp only
  split <;> simp_all

/-- The nearest whole number of nanoseconds, a tie going to the even one, if its seconds fit 64
bits. -/
def ofSeconds? (x : Float) : Option Duration :=
  if x.isFinite ∧ ¬ x < 0 then
    let (num, den) := (Decimal.Magnitude.ofFloat x).ratio
    let nanoseconds := Decimal.roundDiv (num * perSecond) den .toEven
    if nanoseconds < UInt64.size * perSecond then some ⟨nanoseconds⟩ else none
  else none

/-- The seconds of a duration as a floating-point number. -/
def toSeconds (d : Duration) : Float :=
  d.seconds.toUInt64.toFloat + d.subsecond.toUInt64.toFloat / 1000000000

/-- A duration in the largest unit of which it has one whole, to two places. -/
def brief (d : Duration) : String :=
  let inUnit (size : Nat) (name : String) : String :=
    String.ofList (Decimal.withPoint (Decimal.roundDiv (d.nanoseconds * 100) size .up) 2) ++ name
  if perSecond ≤ d.nanoseconds then inUnit perSecond "s"
  else if perMillisecond ≤ d.nanoseconds then inUnit perMillisecond "ms"
  else if 1000 ≤ d.nanoseconds then inUnit 1000 "µs"
  else inUnit 1 "ns"

end Duration

end SnakeDraft
