import SnakeDraft.Decimal.Rounding

/-!
Binary floating-point numbers of 64 bits as exact quantities: a finite number is `± m * 2 ^ q` for a
whole `m` below `2 ^ 53`. `Magnitude.ofFloat` reads `m` and `q` off the bits, and `ofRatio` gives the
number nearest to a quotient.
-/

namespace SnakeDraft.Decimal

/-- The bit that leads the mantissa of a normal number: `2 ^ 52`. -/
def leadingBit : Nat := 0x10000000000000

/-- The quantity `mantissa * 2 ^ exponent`. -/
structure Magnitude where
  mantissa : Nat
  exponent : Int
deriving DecidableEq, Repr

namespace Magnitude

/-- The quantity as a quotient of whole numbers, numerator first. -/
def ratio (v : Magnitude) : Nat × Nat :=
  (v.mantissa * Nat.pow 2 v.exponent.toNat, Nat.pow 2 (-v.exponent).toNat)

/-- The absolute value of a finite number. The numbers with exponent field zero are the subnormal
ones, which lack the leading bit. -/
def ofFloat (x : Float) : Magnitude :=
  let bits := x.toBits.toNat
  let field : Nat := bits / leadingBit % 0x800
  let fraction : Nat := bits % leadingBit
  if field = 0 then ⟨fraction, -1074⟩ else ⟨fraction + leadingBit, (field : Int) - 1075⟩

end Magnitude

/-- Whether the sign bit is set, as it is in negative zero. -/
def isNegative (x : Float) : Bool :=
  0x8000000000000000 ≤ x.toBits.toNat

/-- The bits of positive infinity. -/
def infinityBits : Nat := 0x7FF * leadingBit

/-- The bits of the number nearest to `num / den`, a tie going to the even mantissa. The bits of
consecutive numbers are consecutive, so a mantissa that rounds up to the next power of two carries
into the exponent by itself, and everything beyond the largest number is infinite. -/
def nearestBits (num den : Nat) : Nat :=
  let guess : Int := num.log2 - den.log2
  let tooBig := num * Nat.pow 2 (-guess).toNat < den * Nat.pow 2 guess.toNat
  let leading := if tooBig then guess - 1 else guess
  let exponent := max (leading - 52) (-1074)
  let mantissa :=
    roundDiv (num * Nat.pow 2 (-exponent).toNat) (den * Nat.pow 2 exponent.toNat) .toEven
  min ((exponent + 1074).toNat * leadingBit + mantissa) infinityBits

/-- The number nearest to `num / den`, for a positive `den`. -/
def ofRatio (num den : Nat) : Float :=
  Float.ofBits (nearestBits num den).toUInt64

/-- The number nearest to `digits * 10 ^ exponent`. -/
def ofDecimal (digits : Nat) (exponent : Int) : Float :=
  ofRatio (digits * Nat.pow 10 exponent.toNat) (Nat.pow 10 (-exponent).toNat)

end SnakeDraft.Decimal
