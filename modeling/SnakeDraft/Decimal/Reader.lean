import SnakeDraft.Decimal.Binary64

/-!
Reading floating-point numbers. A number is an optional sign before either a word for infinity or for
no number, in any case of letters, or decimal digits with an optional point (a digit on at least one
side of it) and an optional exponent. It stands for the nearest number of 64 bits.
-/

namespace SnakeDraft.Decimal

/-- The whole number that a list of decimal digits writes. -/
def ofDigits (cs : List Char) : Nat :=
  cs.foldl (fun n c => n * 10 + (c.toNat - '0'.toNat)) 0

/-- The digits at the start of a text, and the rest. -/
def spanDigits (cs : List Char) : List Char × List Char :=
  (cs.takeWhile Char.isDigit, cs.dropWhile Char.isDigit)

/-- A sign at the start of a text (true for minus), and the rest. -/
def spanSign : List Char → Bool × List Char
  | '-' :: rest => (true, rest)
  | '+' :: rest => (false, rest)
  | cs => (false, cs)

/-- The number nearest to `digits * 10 ^ exponent`. Past the ends of the range the answer is zero or
infinity, whatever the digits are, and no power of ten is computed for it. -/
def nearest (digits : Nat) (exponent : Int) : Float :=
  let size : Int := digits.log2 * 30103 / 100000 + exponent
  if digits = 0 ∨ size < -400 then 0
  else if 400 < size then Float.ofBits infinityBits.toUInt64
  else ofDecimal digits exponent

/-- The exponent at the end of a number; an empty text is exponent zero. -/
def readExponent? : List Char → Option Int
  | [] => some 0
  | c :: cs =>
    if c = 'e' ∨ c = 'E' then
      let (negative, ds) := spanSign cs
      if ds.isEmpty ∨ ¬ ds.all Char.isDigit then none
      else some (if negative then -(ofDigits ds : Int) else ofDigits ds)
    else none

/-- A number without its sign, in digits. -/
def readDigits? (cs : List Char) : Option Float :=
  let (whole, rest) := spanDigits cs
  let (fraction, rest) := match rest with
    | '.' :: after => spanDigits after
    | _ => ([], rest)
  if whole.isEmpty ∧ fraction.isEmpty then none
  else (readExponent? rest).map fun exponent =>
    nearest (ofDigits (whole ++ fraction)) (exponent - fraction.length)

/-- A number without its sign. -/
def readUnsigned? (cs : List Char) : Option Float :=
  let word := String.ofList (cs.map Char.toLower)
  if word = "inf" ∨ word = "infinity" then some (Float.ofBits infinityBits.toUInt64)
  else if word = "nan" then some (0 / 0)
  else readDigits? cs

/-- The number a text writes, if it is one. -/
def read? (text : String) : Option Float :=
  let (negative, cs) := spanSign text.toList
  (readUnsigned? cs).map fun x => if negative then -x else x

end SnakeDraft.Decimal
