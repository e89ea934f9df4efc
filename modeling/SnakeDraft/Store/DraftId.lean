/-!
Ids of drafts. The id of a draft names the moment it was started at, to the microsecond in universal
time, so ids sort in the order of their drafts.
-/

namespace SnakeDraft

/-- A day of the calendar. -/
structure Day where
  year : Nat
  month : Nat
  day : Nat
deriving DecidableEq, Repr

/-- The day that comes a number of days after the first of January 1970. Years are counted from March
here, so that the leap day is the last of its year, and the months from March on then have 31, 30, 31,
30 and 31 days over and over. -/
def Day.ofNumber (number : Nat) : Day :=
  let sinceEra := number + 719468
  let dayOfEra := sinceEra % 146097
  let yearOfEra := (dayOfEra - dayOfEra / 1460 + dayOfEra / 36524 - dayOfEra / 146096) / 365
  let dayOfYear := dayOfEra - (365 * yearOfEra + yearOfEra / 4 - yearOfEra / 100)
  let month := (5 * dayOfYear + 2) / 153
  let year := sinceEra / 146097 * 400 + yearOfEra
  { year := if month < 10 then year else year + 1
    month := if month < 10 then month + 3 else month - 9
    day := dayOfYear - (153 * month + 2) / 5 + 1 }

example : Day.ofNumber 0 = ⟨1970, 1, 1⟩ ∧ Day.ofNumber 19782 = ⟨2024, 2, 29⟩ := by decide

/-- A number in decimal digits, with zeros in front up to a width. -/
def zeroFilled (width n : Nat) : String :=
  let digits := toString n
  "".pushn '0' (width - digits.length) ++ digits

/-- The id of a draft that is started a number of microseconds after 1970 began. -/
def draftIdAt (microseconds : Nat) : String :=
  let seconds := microseconds / 1000000
  let d := Day.ofNumber (seconds / 86400)
  "draft_" ++ zeroFilled 4 d.year ++ zeroFilled 2 d.month ++ zeroFilled 2 d.day ++
    "_" ++ zeroFilled 2 (seconds / 3600 % 24) ++ zeroFilled 2 (seconds / 60 % 60) ++
    zeroFilled 2 (seconds % 60) ++ "_" ++ zeroFilled 6 (microseconds % 1000000)

end SnakeDraft
