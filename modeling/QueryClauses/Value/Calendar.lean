/-!
# Calendar form of a point in time

Seconds since the start of 1970, without leap seconds, are split into days and a time of day; days
are counted in the Gregorian calendar, extended to all years. A count of nanoseconds of a second or
more is a leap second: it is shown as the second after the one that it extends.
-/

namespace QueryClauses

/-- A point in time: whole seconds since 1970-01-01T00:00:00Z and nanoseconds from there. -/
structure Timestamp where
  seconds : Int
  nanos : Nat
deriving DecidableEq, Repr

/-- A day of the Gregorian calendar. -/
structure CalendarDay where
  year : Int
  month : Nat
  day : Nat
deriving DecidableEq, Repr

namespace CalendarDay

/-- The day that lies `days` after 1970-01-01. Years are taken to start in March, so that the leap
day is the last of its year, and counted in cycles of 400 years, which have 146097 days. -/
def ofDays (days : Int) : CalendarDay :=
  let shifted := days + 719468
  let cycle := shifted / 146097
  let dayOfCycle := (shifted % 146097).toNat
  let yearOfCycle :=
    (dayOfCycle - dayOfCycle / 1460 + dayOfCycle / 36524 - dayOfCycle / 146096) / 365
  let dayOfYear := dayOfCycle - (365 * yearOfCycle + yearOfCycle / 4 - yearOfCycle / 100)
  let marchMonth := (5 * dayOfYear + 2) / 153
  let day := dayOfYear - (153 * marchMonth + 2) / 5 + 1
  let month := if marchMonth < 10 then marchMonth + 3 else marchMonth - 9
  let year := cycle * 400 + yearOfCycle
  ⟨if month ≤ 2 then year + 1 else year, month, day⟩

example : ofDays 11016 = ⟨2000, 2, 29⟩ := by decide
example : ofDays (-719529) = ⟨-1, 12, 31⟩ := by decide

end CalendarDay

/-- A number with zeros in front, `width` characters at least. -/
def padded (width n : Nat) : String :=
  let ds := (toString n).toList
  String.ofList (List.replicate (width - ds.length) '0' ++ ds)

/-- A year: four digits, and outside of 0 to 9999 a sign in front of them. -/
def yearText (year : Int) : String :=
  if 0 ≤ year ∧ year ≤ 9999 then padded 4 year.toNat
  else (if year < 0 then "-" else "+") ++ padded 4 year.natAbs

/-- A fraction of a second, with as many groups of three digits as it needs. -/
def fractionText (nanos : Nat) : String :=
  if nanos = 0 then ""
  else if nanos % 1000000 = 0 then "." ++ padded 3 (nanos / 1000000)
  else if nanos % 1000 = 0 then "." ++ padded 6 (nanos / 1000)
  else "." ++ padded 9 nanos

namespace Timestamp

/-- Date and time of day in universal time. -/
def render (t : Timestamp) : String :=
  let day := CalendarDay.ofDays (t.seconds / 86400)
  let time := (t.seconds % 86400).toNat
  let leap := 1000000000 ≤ t.nanos
  let second := if leap then time % 60 + 1 else time % 60
  let nanos := if leap then t.nanos - 1000000000 else t.nanos
  yearText day.year ++ "-" ++ padded 2 day.month ++ "-" ++ padded 2 day.day ++ "T" ++
    padded 2 (time / 3600) ++ ":" ++ padded 2 (time / 60 % 60) ++ ":" ++ padded 2 second ++
    fractionText nanos ++ "Z"

/-- Whole microseconds since 2000-01-01T00:00:00Z, rounded toward that point. -/
def microseconds (t : Timestamp) : Int :=
  ((t.seconds - 946684800) * 1000000000 + t.nanos).tdiv 1000

end Timestamp

end QueryClauses
