/-!
# Dates and times

A date of the proleptic Gregorian calendar with a time of day, without a time zone.

## Main definitions

* `DateTime` — the parts of a date and time
* `DateTime.text` — the date and time as it is shown
-/

namespace Localization

/-- A date with a time of day. In a leap second the seconds are 59, and the nanoseconds go on
beyond a second. -/
structure DateTime where
  year : Int
  month : Nat
  day : Nat
  hour : Nat
  minute : Nat
  second : Nat
  nanosecond : Nat
  deriving DecidableEq

namespace DateTime

/-- A number with zeros in front up to a width. -/
def padded (width n : Nat) : String :=
  let digits := toString n
  String.ofList (List.replicate (width - digits.length) '0') ++ digits

/-- A year in four digits; beyond those it has a sign and at least four digits. -/
def yearText (year : Int) : String :=
  if 0 ≤ year ∧ year ≤ 9999 then padded 4 year.toNat
  else (if year < 0 then "-" else "+") ++ padded 4 year.natAbs

/-- A fraction of a second in three, six or nine digits, whichever are the fewest that hold it. -/
def fractionText (nanosecond : Nat) : String :=
  if nanosecond = 0 then ""
  else if nanosecond % 1000000 = 0 then "." ++ padded 3 (nanosecond / 1000000)
  else if nanosecond % 1000 = 0 then "." ++ padded 6 (nanosecond / 1000)
  else "." ++ padded 9 nanosecond

/-- The date and time as `year-month-day hour:minute:second`. A leap second shows as second 60. -/
def text (t : DateTime) : String :=
  let date := yearText t.year ++ "-" ++ padded 2 t.month ++ "-" ++ padded 2 t.day
  let (second, nanosecond) :=
    if 1000000000 ≤ t.nanosecond then (t.second + 1, t.nanosecond - 1000000000)
    else (t.second, t.nanosecond)
  let time := padded 2 t.hour ++ ":" ++ padded 2 t.minute ++ ":" ++ padded 2 second
  date ++ " " ++ time ++ fractionText nanosecond

end DateTime

end Localization
