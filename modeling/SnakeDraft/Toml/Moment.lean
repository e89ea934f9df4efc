import SnakeDraft.Decimal.Reader
import SnakeDraft.Toml.Scanner

/-!
TOML dates and times. Only their form and their ranges are checked; no part of a document that is read
here keeps the value of one.
-/

namespace SnakeDraft.Toml

/-- A number of exactly this many digits, between two bounds. -/
def field? (count low high : Nat) (cs : List Char) : Option (Nat × List Char) :=
  let ds := cs.take count
  let n := Decimal.ofDigits ds
  if ds.length = count ∧ ds.all Char.isDigit ∧ low ≤ n ∧ n ≤ high then some (n, cs.drop count)
  else none

def isLeapYear (year : Nat) : Bool :=
  year % 4 == 0 && (year % 100 != 0 || year % 400 == 0)

def daysIn (year month : Nat) : Nat :=
  if month = 2 then (if isLeapYear year then 29 else 28)
  else if month = 4 ∨ month = 6 ∨ month = 9 ∨ month = 11 then 30
  else 31

/-- The rest after a date. -/
def date? (cs : List Char) : Option (List Char) := do
  let (year, cs) ← field? 4 0 9999 cs
  let cs ← expect? ['-'] cs
  let (month, cs) ← field? 2 1 12 cs
  let cs ← expect? ['-'] cs
  let (_, cs) ← field? 2 1 (daysIn year month) cs
  some cs

/-- The rest after a fraction of a second, if there is one. -/
def afterFraction : List Char → List Char
  | '.' :: c :: cs => if c.isDigit then cs.dropWhile Char.isDigit else '.' :: c :: cs
  | cs => cs

/-- The rest after a time of day, which may be a leap second. -/
def time? (cs : List Char) : Option (List Char) := do
  let (_, cs) ← field? 2 0 23 cs
  let cs ← expect? [':'] cs
  let (_, cs) ← field? 2 0 59 cs
  let cs ← expect? [':'] cs
  let (_, cs) ← field? 2 0 60 cs
  some (afterFraction cs)

/-- The rest after an offset from universal time. -/
def offset? : List Char → Option (List Char)
  | 'Z' :: cs | 'z' :: cs => some cs
  | '+' :: cs | '-' :: cs => do
    let (_, cs) ← field? 2 0 23 cs
    let cs ← expect? [':'] cs
    let (_, cs) ← field? 2 0 59 cs
    some cs
  | _ => none

/-- The rest after the time that may follow a date. -/
def afterDate : List Char → List Char
  | c :: cs =>
    if c = 'T' ∨ c = 't' ∨ c = ' ' then
      match time? cs with
      | some rest => (offset? rest).getD rest
      | none => c :: cs
    else c :: cs
  | [] => []

/-- The rest after a date, a time or both. -/
def moment? (cs : List Char) : Option (List Char) :=
  match date? cs with
  | some rest => some (afterDate rest)
  | none => time? cs

end SnakeDraft.Toml
