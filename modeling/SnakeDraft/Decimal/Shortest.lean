import SnakeDraft.Decimal.Binary64

/-!
The shortest decimal that reads back. A decimal reads back as `v` when it lies in the interval of the
quantities that round to `v`; of the decimals with the fewest digits in that interval `shortest`
takes the one nearest to `v`.
-/

namespace SnakeDraft.Decimal

/-- The quantity `digits * 10 ^ exponent`. -/
structure Numeral where
  digits : Nat
  exponent : Int
deriving DecidableEq, Repr

/-- The quantities that round to a binary number, in quarters of the last place of its mantissa. -/
structure RoundingInterval where
  /-- The least quantity that rounds to the number. -/
  low : Nat
  /-- The greatest quantity that rounds to the number. -/
  high : Nat
  /-- Whether the two ends themselves do. -/
  closed : Bool

/-- Half a place on either side. Below a power of two the places are half as wide, and the ends
belong to the number with the even mantissa. -/
def Magnitude.interval (v : Magnitude) : RoundingInterval where
  low := 4 * v.mantissa - (if v.mantissa = leadingBit ∧ -1074 < v.exponent then 1 else 2)
  high := 4 * v.mantissa + 2
  closed := v.mantissa % 2 = 0

/-- A positive quantity with a unit in which it and its rounding interval are whole, and the unit of
a decimal grid in that unit: `value / grid` counts the steps of the grid. -/
structure Gridded where
  value : Nat
  low : Nat
  high : Nat
  closed : Bool
  grid : Nat

/-- The quantity on the grid of the multiples of `10 ^ step`. -/
def Magnitude.onGrid (v : Magnitude) (step : Int) : Gridded :=
  let interval := v.interval
  let scale := Nat.pow 2 v.exponent.toNat * Nat.pow 10 (-step).toNat
  { value := 4 * v.mantissa * scale
    low := interval.low * scale
    high := interval.high * scale
    closed := interval.closed
    grid := 4 * Nat.pow 2 (-v.exponent).toNat * Nat.pow 10 step.toNat }

/-- Whether the grid point with this number lies in the rounding interval. -/
def Gridded.holds (g : Gridded) (point : Nat) : Bool :=
  let place := point * g.grid
  if g.closed then g.low ≤ place && place ≤ g.high else g.low < place && place < g.high

/-- The grid point nearest to the quantity among its two neighbours in the rounding interval. -/
def Gridded.nearest? (g : Gridded) (tie : Tie) : Option Nat :=
  let below := g.value / g.grid
  match g.holds below, g.holds (below + 1) with
  | true, true => some (roundDiv g.value g.grid tie)
  | true, false => some below
  | false, true => some (below + 1)
  | false, false => none

/-- The exponent of the leading decimal digit of a positive quotient: the greatest `e` with
`10 ^ e ≤ num / den`, found from a guess by the binary logarithms. -/
def leadingExponent (num den : Nat) : Int :=
  let guess : Int := ((num.log2 : Int) - den.log2) * 30103 / 100000 - 1
  let reaches (e : Int) : Bool := den * Nat.pow 10 e.toNat ≤ num * Nat.pow 10 (-e).toNat
  if reaches (guess + 2) then guess + 2 else if reaches (guess + 1) then guess + 1 else guess

/-- A decimal without zeros at its end; `fuel` bounds the zeros removed. -/
def Numeral.stripZeros : Nat → Numeral → Numeral
  | 0, d => d
  | fuel + 1, d =>
    if d.digits % 10 = 0 ∧ d.digits ≠ 0 then stripZeros fuel ⟨d.digits / 10, d.exponent + 1⟩ else d

/-- The shortest decimal for a positive finite number. Seventeen digits always suffice. -/
def shortest (v : Magnitude) (tie : Tie) : Numeral :=
  let (num, den) := v.ratio
  let leading := leadingExponent num den
  let found := (List.range 17).findSome? fun (extra : Nat) =>
    let step := leading - extra
    ((v.onGrid step).nearest? tie).map fun point => (⟨point, step⟩ : Numeral)
  (found.getD ⟨roundDiv num den tie, 0⟩).stripZeros 20

end SnakeDraft.Decimal
