import SnakeDraft.Decimal.Reader
import SnakeDraft.Toml.Text

/-!
TOML numbers. Underscores may stand between digits; a decimal number has no leading zeros, an integer
fits 64 bits with a sign, and hexadecimal, octal and binary integers have none. A float that is too
large is refused unless it is negative.
-/

namespace SnakeDraft.Toml

/-- A number as a document holds it. -/
inductive Number where
  | integer (n : Int)
  | float (x : Float)
deriving Repr

/-- The digits after a first one, single underscores between them left out, and the rest. -/
def moreDigits (isDigit : Char → Bool) : List Char → List Char × List Char
  | [] => ([], [])
  | [c] => if isDigit c then ([c], []) else ([], [c])
  | c :: d :: cs =>
    if isDigit c then
      let (ds, rest) := moreDigits isDigit (d :: cs)
      (c :: ds, rest)
    else if c = '_' ∧ isDigit d then
      let (ds, rest) := moreDigits isDigit cs
      (d :: ds, rest)
    else ([], c :: d :: cs)

/-- Digits, at least one. -/
def digits? (isDigit : Char → Bool) : Scanner (List Char)
  | c :: cs =>
    if isDigit c then
      let (ds, rest) := moreDigits isDigit cs
      some (c :: ds, rest)
    else none
  | [] => none

/-- Decimal digits without a leading zero. -/
def wholeDigits? : Scanner (List Char)
  | '0' :: cs => some (['0'], cs)
  | cs => digits? Char.isDigit cs

/-- The value of digits in a base. -/
def valueOf (base : Nat) (ds : List Char) : Nat :=
  ds.foldl (fun n c => n * base + (hexDigit? c).getD 0) 0

/-- An integer that fits 64 bits with a sign. -/
def integer? (n : Int) : Option Number :=
  if Int64.minValue.toInt ≤ n ∧ n ≤ Int64.maxValue.toInt then some (.integer n) else none

/-- An integer in another base after the two characters that announce it. -/
def basedInteger? (base : Nat) (isDigit : Char → Bool) (cs : List Char) :
    Option (Number × List Char) := do
  let (ds, rest) ← digits? isDigit cs
  let n ← integer? (valueOf base ds)
  some (n, rest)

/-- The exponent of a float after its letter. -/
def exponent? (cs : List Char) : Option (Int × List Char) := do
  let (negative, cs) := Decimal.spanSign cs
  let (ds, rest) ← digits? Char.isDigit cs
  let n : Int := valueOf 10 ds
  some (if negative then -n else n, rest)

/-- A number with a sign, from its sign and absolute value. -/
def signedFloat? (negative : Bool) (x : Float) : Option Number :=
  if negative then some (.float (-x)) else if x == 1 / 0 then none else some (.float x)

/-- What follows the whole part of a decimal number, after the digits of its fraction. -/
def floatRest? (negative : Bool) (whole fraction : List Char) (cs : List Char) :
    Option (Number × List Char) := do
  let (exponent, rest) ← match cs with
    | 'e' :: cs | 'E' :: cs => exponent? cs
    | _ => some (0, cs)
  let x := Decimal.nearest (valueOf 10 (whole ++ fraction)) (exponent - fraction.length)
  let n ← signedFloat? negative x
  some (n, rest)

/-- A decimal number after its sign. -/
def decimal? (negative : Bool) (cs : List Char) : Option (Number × List Char) := do
  let (whole, rest) ← wholeDigits? cs
  match rest with
  | '.' :: cs =>
    let (fraction, rest) ← digits? Char.isDigit cs
    floatRest? negative whole fraction rest
  | 'e' :: _ | 'E' :: _ => floatRest? negative whole [] rest
  | _ =>
    let n : Int := valueOf 10 whole
    let n ← integer? (if negative then -n else n)
    some (n, rest)

/-- Infinity, the absence of a number, or a decimal number, after a sign. -/
def unsigned? (negative : Bool) : Scanner Number
  | 'i' :: 'n' :: 'f' :: cs => some (.float (if negative then -(1 / 0) else 1 / 0), cs)
  | 'n' :: 'a' :: 'n' :: cs => some (.float (0 / 0), cs)
  | cs => decimal? negative cs

/-- A number of any kind. -/
def number? : Scanner Number
  | '0' :: 'x' :: cs => basedInteger? 16 (fun c => (hexDigit? c).isSome) cs
  | '0' :: 'o' :: cs => basedInteger? 8 (fun c => '0' ≤ c && c ≤ '7') cs
  | '0' :: 'b' :: cs => basedInteger? 2 (fun c => c == '0' || c == '1') cs
  | '-' :: cs => unsigned? true cs
  | '+' :: cs => unsigned? false cs
  | cs => unsigned? false cs

end SnakeDraft.Toml
