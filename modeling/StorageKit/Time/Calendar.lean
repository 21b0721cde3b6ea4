/-
Moments and their calendar text.

A moment is a count of milliseconds since the start of 1970, in either direction, without leap
seconds.  Main definitions:

* `Moment.isInRange` — the moments that the calendar covers, 100 million days either way;
* `Calendar.ofMoment` — year, month, day and time of day;
* `Moment.iso` — `2025-03-02T08:15:00.000Z`; years outside four digits have a sign and six;
* `Moment.long` — `Sun Mar 02 2025 08:15:00 GMT+0000 (Coordinated Universal Time)`.

Design notes: the year is found with the usual device of starting it in March, so that the leap
day is the last of its year, and of counting eras of 400 years (146097 days).
-/
namespace StorageKit

/-- Milliseconds since the start of 1970. -/
abbrev Moment := Int

/-- A moment on the calendar. -/
structure Calendar where
  year : Int
  month : Nat
  day : Nat
  weekday : Nat
  hour : Nat
  minute : Nat
  second : Nat
  millisecond : Nat
  deriving Repr, DecidableEq

namespace Calendar

/-- The milliseconds of a day. -/
def dayLength : Int := 86400000

/-- The date of a day, counted from the first day of 1970. -/
def ofMoment (t : Moment) : Calendar :=
  let days := Int.fdiv t dayLength
  let clock := (Int.fmod t dayLength).toNat
  let shifted := days + 719468
  let era := Int.fdiv shifted 146097
  let dayOfEra := (Int.fmod shifted 146097).toNat
  let yearOfEra :=
    (dayOfEra - dayOfEra / 1460 + dayOfEra / 36524 - dayOfEra / 146096) / 365
  let dayOfYear := dayOfEra - (365 * yearOfEra + yearOfEra / 4 - yearOfEra / 100)
  let fromMarch := (5 * dayOfYear + 2) / 153
  let month := if fromMarch < 10 then fromMarch + 3 else fromMarch - 9
  { year := (yearOfEra : Int) + era * 400 + (if month ≤ 2 then 1 else 0)
    month
    day := dayOfYear - (153 * fromMarch + 2) / 5 + 1
    weekday := (Int.fmod (days + 4) 7).toNat
    hour := clock / 3600000
    minute := clock / 60000 % 60
    second := clock / 1000 % 60
    millisecond := clock % 1000 }

/-- A natural with zeros in front, at least `width` digits. -/
def padded (width n : Nat) : String :=
  let ds := Nat.toDigits 10 n
  String.ofList (List.replicate (width - ds.length) '0' ++ ds)

/-- Four digits, or a sign and six digits for a year that needs them. -/
def isoYear (y : Int) : String :=
  if 0 ≤ y ∧ y ≤ 9999 then padded 4 y.toNat
  else (if y < 0 then "-" else "+") ++ padded 6 y.natAbs

/-- At least four digits, after a sign for a negative year. -/
def longYear (y : Int) : String :=
  (if y < 0 then "-" else "") ++ padded 4 y.natAbs

def weekdayName (n : Nat) : String :=
  ["Sun", "Mon", "Tue", "Wed", "Thu", "Fri", "Sat"].getD n ""

def monthName (n : Nat) : String :=
  ["Jan", "Feb", "Mar", "Apr", "May", "Jun", "Jul", "Aug", "Sep", "Oct", "Nov", "Dec"].getD
    (n - 1) ""

/-- Hours, minutes and seconds. -/
def clockText (c : Calendar) : String :=
  padded 2 c.hour ++ ":" ++ padded 2 c.minute ++ ":" ++ padded 2 c.second

end Calendar

namespace Moment

/-- The moments the calendar covers. -/
def isInRange (t : Moment) : Bool := t.natAbs ≤ 8640000000000000

/-- The date and time of day with milliseconds, in universal time. -/
def iso (t : Moment) : String :=
  let c := Calendar.ofMoment t
  Calendar.isoYear c.year ++ "-" ++ Calendar.padded 2 c.month ++ "-" ++ Calendar.padded 2 c.day
    ++ "T" ++ c.clockText ++ "." ++ Calendar.padded 3 c.millisecond ++ "Z"

/-- The weekday, date and time of day in words, in universal time. -/
def long (t : Moment) : String :=
  let c := Calendar.ofMoment t
  Calendar.weekdayName c.weekday ++ " " ++ Calendar.monthName c.month ++ " "
    ++ Calendar.padded 2 c.day ++ " " ++ Calendar.longYear c.year ++ " " ++ c.clockText
    ++ " GMT+0000 (Coordinated Universal Time)"

end Moment
end StorageKit
