import ScanPolicy.Moment.Basic

/-!
# Parts of recurrence rules

A recurrence rule has a frequency and an interval, bounds, and parts that expand or limit its
dates: months, days of the month, weekdays and so on. This module holds the parts as they are
given; absent and empty are told apart.

- `Frequency`: the six frequencies.
- `WeekdayPart`: a weekday, possibly with its number in a month or a year.
- `Parts`: the given parts.
-/

namespace ScanPolicy

/-- How long a period of a rule is. -/
inductive Frequency where
  | yearly
  | monthly
  | weekly
  | daily
  | hourly
  | minutely
deriving DecidableEq, Repr

namespace Frequency

/-- The name of a frequency. -/
def name : Frequency → String
  | yearly => "YEARLY"
  | monthly => "MONTHLY"
  | weekly => "WEEKLY"
  | daily => "DAILY"
  | hourly => "HOURLY"
  | minutely => "MINUTELY"

/-- All frequencies, the longest period first. -/
def all : List Frequency := [yearly, monthly, weekly, daily, hourly, minutely]

/-- The frequency with a name. -/
def ofName? (t : Text) : Option Frequency := all.find? fun f => f.name.toList == t

/-- Whether a period is shorter than a day. -/
def isSubDaily : Frequency → Bool
  | hourly | minutely => true
  | _ => false

/-- Whether a period is a month or a year, in which weekdays can be numbered. -/
def numbersWeekdays : Frequency → Bool
  | yearly | monthly => true
  | _ => false

end Frequency

/-- A weekday, Monday being zero, and its number in a period: from the start if positive, from the
end if negative. -/
structure WeekdayPart where
  weekday : Nat
  number : Option Int
deriving DecidableEq, Repr

/-- The parts of a rule that are given. -/
structure Parts where
  positions : Option (List Int) := none
  months : Option (List Int) := none
  monthDays : Option (List Int) := none
  yearDays : Option (List Int) := none
  easters : Option (List Int) := none
  weekNumbers : Option (List Int) := none
  weekdays : Option (List WeekdayPart) := none
  hours : Option (List Int) := none
  minutes : Option (List Int) := none
  seconds : Option (List Int) := none
deriving DecidableEq, Repr

namespace Parts

/-- Whether a part is given with at least one value. -/
def isGiven {α : Type} : Option (List α) → Bool
  | some (_ :: _) => true
  | _ => false

/-- Whether the parts choose days within a year or a month. -/
def choosesDays (p : Parts) : Bool :=
  isGiven p.weekNumbers || isGiven p.yearDays || isGiven p.monthDays || p.weekdays.isSome ||
    p.easters.isSome

end Parts

end ScanPolicy
