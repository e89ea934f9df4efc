import SnakeDraft.Decimal.Shortest

/-!
Written forms of floating-point numbers. `plain` and `ofJson` write the shortest decimal that reads
back, the first never with an exponent, the second with one for very large and very small numbers;
`places` writes a fixed number of places, rounded from the exact value.
-/

namespace SnakeDraft.Decimal

/-- The digits of a whole number. -/
def decimalDigits (n : Nat) : List Char :=
  Nat.toDigits 10 n

/-- A whole number read as a decimal with this many places. -/
def withPoint (n places : Nat) : List Char :=
  let ds := decimalDigits n
  let padded := List.replicate (places + 1 - ds.length) '0' ++ ds
  let cut := padded.length - places
  if places = 0 then padded else padded.take cut ++ '.' :: padded.drop cut

/-- The decimal without an exponent. -/
def Numeral.positional (d : Numeral) : List Char :=
  match d.exponent with
  | .ofNat zeros => decimalDigits (d.digits * Nat.pow 10 zeros)
  | .negSucc places => withPoint d.digits (places + 1)

/-- An exponent of ten with its sign, which is written also when it is a plus. -/
def exponentText (e : Int) : List Char :=
  match e with
  | .ofNat n => 'e' :: '+' :: decimalDigits n
  | .negSucc n => 'e' :: '-' :: decimalDigits (n + 1)

/-- The decimal with one digit before the point and an exponent. -/
def Numeral.scientific (d : Numeral) : List Char :=
  let ds := decimalDigits d.digits
  let mantissa := match ds with
    | [] => []
    | [lead] => [lead]
    | lead :: rest => lead :: '.' :: rest
  mantissa ++ exponentText (d.exponent + (ds.length - 1 : Nat))

/-- The sign of a number before its written absolute value. -/
def signed (x : Float) (text : List Char) : String :=
  String.ofList (if isNegative x then '-' :: text else text)

/-- The text of a number that is not finite. -/
def nonFinite (x : Float) : String :=
  if x.isNaN then "NaN" else signed x "inf".toList

/-- The shortest decimal that reads back, without an exponent and without a point in a whole number;
of two equally near decimals the larger one. -/
def plain (x : Float) : String :=
  if x.isFinite then
    if x == 0 then signed x ['0'] else signed x (shortest (.ofFloat x) .up).positional
  else nonFinite x

/-- The exact value rounded to a number of places, a tie going to the even digit. -/
def places (count : Nat) (x : Float) : String :=
  if x.isFinite then
    let (num, den) := (Magnitude.ofFloat x).ratio
    signed x (withPoint (roundDiv (num * Nat.pow 10 count) den .toEven) count)
  else nonFinite x

/-- The text of a number in a JSON document: the shortest decimal that reads back, of two equally near
ones the even one, with a point or an exponent in every number. Positional notation serves from
`10 ^ -5` up to `10 ^ 16`. JSON has no infinities, so `null` stands for what is not finite. -/
def ofJson (x : Float) : String :=
  if x.isFinite then
    if x == 0 then signed x "0.0".toList
    else
      let d := shortest (.ofFloat x) .toEven
      let pointAt := d.exponent + (decimalDigits d.digits).length
      if -5 < pointAt ∧ pointAt ≤ 16 then
        signed x (if 0 ≤ d.exponent then d.positional ++ ".0".toList else d.positional)
      else signed x d.scientific
  else "null"

end SnakeDraft.Decimal
