/-!
# Dates

The proleptic Gregorian calendar. Days are numbered from zero, which is Monday the first of
January of year 1; four hundred years have 146097 days.

- `Date`: year, month and day.
- `Date.dayNumber`: the number of a date, and `Date.ofDayNumber`: the date with a number.
- `Date.weekday`: the weekday of a day number, Monday being zero.
- `Calendar.daysIn`: the length of a month.
-/

namespace ScanPolicy

namespace Calendar

/-- Whether a year has 366 days. -/
def isLeap (y : Nat) : Bool := y % 4 == 0 && (y % 100 != 0 || y % 400 == 0)

/-- The number of days of a year. -/
def yearLength (y : Nat) : Nat := if isLeap y then 366 else 365

/-- The lengths of the twelve months. -/
def monthLengths (leap : Bool) : List Nat :=
  [31, if leap then 29 else 28, 31, 30, 31, 30, 31, 31, 30, 31, 30, 31]

/-- The length of a month, months being numbered from one. -/
def daysIn (y m : Nat) : Nat := (monthLengths (isLeap y)).getD (m - 1) 0

/-- The number of days of the years before `y`, from year 1 on. -/
def daysBeforeYear (y : Nat) : Nat :=
  let n := y - 1
  365 * n + n / 4 - n / 100 + n / 400

/-- The number of days of the months before month `m`. -/
def daysBeforeMonth (y m : Nat) : Nat := ((monthLengths (isLeap y)).take (m - 1)).foldr (· + ·) 0

/-- The last year of the calendar. -/
def lastYear : Nat := 9999

/-- The number of days of the calendar. -/
def dayCount : Nat := 3652059

/-- The month and the day, from a list of month lengths of which the first belongs to month `m`. -/
def locate (m : Nat) : List Nat → Nat → Nat × Nat
  | [], d => (m, d + 1)
  | len :: rest, d => if d < len then (m, d + 1) else locate (m + 1) rest (d - len)

end Calendar

/-- A date of the calendar. -/
structure Date where
  year : Nat
  month : Nat
  day : Nat
deriving DecidableEq, Repr

namespace Date

open Calendar

/-- The number of days before a date. -/
def dayNumber (d : Date) : Nat := daysBeforeYear d.year + daysBeforeMonth d.year d.month + (d.day - 1)

/-- The year with day number `n`, and the number of days of it that are before that day. The days
are split into periods of 400, 100, 4 years and one year; the last period of the second and the
fourth split is the longer one. -/
def yearOfDay (n : Nat) : Nat × Nat :=
  let cycles := n / 146097
  let n := n % 146097
  let centuries := min (n / 36524) 3
  let n := n - centuries * 36524
  let fours := n / 1461
  let n := n % 1461
  let years := min (n / 365) 3
  (400 * cycles + 100 * centuries + 4 * fours + years + 1, n - years * 365)

/-- The date with a day number. -/
def ofDayNumber (n : Nat) : Date :=
  let (y, inYear) := yearOfDay n
  let (m, d) := locate 1 (monthLengths (isLeap y)) inYear
  ⟨y, m, d⟩

/-- The weekday of a day number, Monday being zero. -/
def weekday (n : Nat) : Nat := n % 7

/-- Whether a date is one of the calendar. -/
def isValid (d : Date) : Bool :=
  1 ≤ d.year && d.year ≤ lastYear && 1 ≤ d.month && d.month ≤ 12 && 1 ≤ d.day &&
    d.day ≤ daysIn d.year d.month

end Date

end ScanPolicy
