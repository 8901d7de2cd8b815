/-!
# Civil dates and instants

Dates of the Gregorian calendar, carried on before its introduction, and the instants that they
denote: milliseconds since the first of January 1970, universal time.
-/

namespace TagGraph.Calendar

/-! ## Dates -/

/-- Whether the year has a 29th of February. -/
def isLeapYear (year : Int) : Bool :=
  year % 4 == 0 && (year % 100 != 0 || year % 400 == 0)

/-- The number of days of a month; other numbers than 1 to 12 have none. -/
def daysInMonth (year : Int) (month : Nat) : Nat :=
  match month with
  | 1 | 3 | 5 | 7 | 8 | 10 | 12 => 31
  | 4 | 6 | 9 | 11 => 30
  | 2 => if isLeapYear year then 29 else 28
  | _ => 0

/-- A date as written. -/
structure Date where
  year : Int
  month : Nat
  day : Nat
deriving DecidableEq

namespace Date

/-- Whether the calendar has the date, within the range of years that dates are kept for. -/
def isValid (d : Date) : Bool :=
  -262143 ≤ d.year && d.year ≤ 262142 && 1 ≤ d.day && d.day ≤ daysInMonth d.year d.month

/-- The days of the months before the given one. -/
def daysBeforeMonth (year : Int) (month : Nat) : Nat :=
  (List.range (month - 1)).foldl (fun days m => days + daysInMonth year (m + 1)) 0

/-- The days from the first of January of the year 1 to that of the given year. -/
def daysBeforeYear (year : Int) : Int :=
  365 * (year - 1) + (year - 1) / 4 - (year - 1) / 100 + (year - 1) / 400

/-- The days since the first of January 1970. -/
def epochDay (d : Date) : Int :=
  daysBeforeYear d.year - daysBeforeYear 1970 + daysBeforeMonth d.year d.month + (d.day - 1 : Nat)

end Date

/-! ## Times of day -/

/-- A time of day as written. The second 60 is a leap second. -/
structure Time where
  hour : Nat
  minute : Nat
  second : Nat
  nanosecond : Nat
deriving DecidableEq

namespace Time

/-- The first moment of a day. -/
def midnight : Time := ⟨0, 0, 0, 0⟩

/-- Whether a day can have the time. -/
def isValid (t : Time) : Bool :=
  t.hour < 24 && t.minute < 60 && t.second ≤ 60

/-- The milliseconds since midnight. A leap second counts like the second after it. -/
def milliseconds (t : Time) : Nat :=
  ((t.hour * 60 + t.minute) * 60 + t.second) * 1000 + t.nanosecond / 1000000

end Time

/-- The instant of a date and time at an offset, in minutes, ahead of universal time. -/
def instant (d : Date) (t : Time) (offset : Int) : Int :=
  d.epochDay * 86400000 + t.milliseconds - offset * 60000

/-- The instant, if the calendar has the date and the day the time. -/
def instant? (d : Date) (t : Time) (offset : Int) : Option Int :=
  if d.isValid && t.isValid then some (instant d t offset) else none

end TagGraph.Calendar
