import ScanPolicy.Calendar.Easter
import ScanPolicy.Recurrence.Rule

/-!
# The days that a rule chooses in a year

Week numbers, numbered weekdays and days around Easter are laid out once for a year; days are
given by their index, the first of January being zero. A week may reach over the end of the year,
so indices go up to a week beyond it.

- `YearFrame`: the layout of a year.
- `Rule.frame`: the layout for the parts of a rule.
- `Rule.choosesDay`: whether a rule chooses a day.
-/

namespace ScanPolicy

/-- The layout of one year for the parts of a rule. -/
structure YearFrame where
  year : Nat
  /-- The day number of the first of January. -/
  first : Nat
  length : Nat
  nextLength : Nat
  /-- Chosen weeks: first index, and the index after the last one. -/
  weeks : List (Nat × Nat)
  /-- The indices of the numbered weekdays. -/
  numbered : List Nat
  /-- The indices of the days around Easter. -/
  easterDays : List Nat

namespace YearFrame

/-- The weekday of the day with an index in a year that starts on day `first`. -/
def weekdayAt (first i : Nat) : Nat := Date.weekday (first + i)

/-! ## Weeks -/

/-- The days from index `i` up to the next start of a week. -/
def weekFrom (first weekStart i : Nat) : Nat × Nat :=
  (i, i + 1 + (weekStart + 7 - weekdayAt first (i + 1)) % 7)

/-- The index of the first weekday on which weeks start. -/
def firstWeekStart (first weekStart : Nat) : Nat := (7 - Date.weekday first + weekStart) % 7

/-- Where the first week of a year starts, and the number of its weeks. The first week is the one
with at least four days in the year; what it has in the year before is not counted as an index. -/
def weekCount (first length weekStart : Nat) : Nat × Nat :=
  let start := firstWeekStart first weekStart
  let (origin, days) :=
    if 4 ≤ start then (0, length + (Date.weekday first + 7 - weekStart) % 7)
    else (start, length - start)
  (origin, days / 7 + days % 7 / 4)

/-- The index at which week `n` starts, for the first week the first day of it in the year. -/
def weekIndex (first length weekStart n : Nat) : Nat :=
  let start := firstWeekStart first weekStart
  let (origin, _) := weekCount first length weekStart
  if n ≤ 1 then origin
  else origin + (n - 1) * 7 - (if origin = start then 0 else 7 - start)

/-- The number of weeks of the year before, as seen from a year whose first days belong to the last
one of them. -/
def weeksBefore (year length weekStart : Nat) : Nat :=
  let first := Calendar.daysBeforeYear year
  let (origin, _) := weekCount first length weekStart
  let before := Calendar.daysBeforeYear (year - 1)
  let weekday := Date.weekday before
  if 4 ≤ firstWeekStart before weekStart then
    52 + (Calendar.yearLength (year - 1) + (weekday + 7 - weekStart) % 7) % 7 / 4
  else 52 + (length - origin) % 7 / 4

/-- The chosen weeks of a year. -/
def chosenWeeks (year length weekStart : Nat) (numbers : List Int) :
    Except Fault (List (Nat × Nat)) :=
  if numbers.isEmpty then .ok []
  else
    let first := Calendar.daysBeforeYear year
    let (origin, count) := weekCount first length weekStart
    let own := numbers.filterMap fun n =>
      let k : Int := if n < 0 then n + (count : Int) + 1 else n
      if 0 < k && k ≤ (count : Int) then
        some (weekFrom first weekStart (weekIndex first length weekStart k.toNat))
      else none
    let nextIndex := weekIndex first length weekStart (count + 1)
    let next :=
      if numbers.contains 1 && nextIndex < length then [weekFrom first weekStart nextIndex] else []
    if origin = 0 then .ok (own ++ next)
    else if numbers.contains (-1) then .ok (own ++ next ++ [(0, origin)])
    else if year ≤ 1 then .error (.rule (.yearOutOfRange 0))
    else if numbers.contains (weeksBefore year length weekStart : Int) then
      .ok (own ++ next ++ [(0, origin)])
    else .ok (own ++ next)

/-! ## Numbered weekdays -/

/-- The indices at which the months start, and the one after the year. -/
def monthStarts (year : Nat) : List Nat :=
  (List.range 13).map fun m => Calendar.daysBeforeMonth year (m + 1)

/-- First index of a month and the index after its last one. Months below zero are counted from
the end of the list of starts, and months that are not in it have no bounds. -/
def monthBounds (year : Nat) (month : Int) : Except Fault (Nat × Nat) :=
  let place (k : Int) : Nat := (if k < 0 then max (k + 13) 0 else min k 13).toNat
  let start := place (month - 1)
  let stop := place (month + 1)
  match ((monthStarts year).take stop).drop start with
  | [a, b] => .ok (a, b)
  | other => .error (.rule (.tooFewValues other.length))

/-- The number of days, over the end of the year, of which the weekday is known. -/
def knownDays (first : Nat) : Nat := 385 - Date.weekday first

/-- The index of a numbered weekday between `low` and `high`, if it is there at all. -/
def numberedDay (first low high weekday : Nat) (number : Int) : Except Fault (Option Nat) :=
  let inside (i : Int) : Option Nat :=
    if (low : Int) ≤ i && i < (high : Int) then some i.toNat else none
  if number < 0 then
    let i : Int := (high : Int) - 1 + (number + 1) * 7
    if i < -(knownDays first : Int) then .error .beyondYear
    else if i < 0 then .ok none
    else
      let back := (weekdayAt first i.toNat + 7 - weekday) % 7
      .ok (inside (i - (back : Int)))
  else
    let i : Int := (low : Int) + (number - 1) * 7
    if (knownDays first : Int) ≤ i then .error .beyondYear
    else
      let ahead := (7 - weekdayAt first i.toNat + weekday) % 7
      .ok (inside (i + (ahead : Int)))

/-- The periods of a year in which weekdays are numbered. -/
def numberingBounds (r : Rule) (year month : Nat) : Except Fault (List (Nat × Nat)) :=
  match r.freq with
  | .yearly =>
    if r.months.isEmpty then .ok [(0, Calendar.yearLength year)]
    else r.months.mapM (monthBounds year)
  | _ => do pure [← monthBounds year month]

/-- The indices of the numbered weekdays of a rule. -/
def numberedDays (r : Rule) (year month : Nat) : Except Fault (List Nat) :=
  if r.numberedWeekdays.isEmpty then .ok []
  else do
    let first := Calendar.daysBeforeYear year
    let days ← (← numberingBounds r year month).mapM fun (low, high) =>
      r.numberedWeekdays.mapM fun (weekday, number) => numberedDay first low high weekday number
    pure (days.flatten.filterMap id)

/-! ## Days around Easter -/

/-- The indices of the days around Easter. A negative index is counted from the end of the laid out
days. -/
def daysAroundEaster (year : Nat) (offsets : List Int) : Except Fault (List Nat) :=
  let laidOut : Int := (Calendar.yearLength year + 7 : Nat)
  let (month, day) := Calendar.easter year
  let sunday : Int := (Calendar.daysBeforeMonth year month + day - 1 : Nat)
  offsets.mapM fun offset =>
    let i := sunday + offset
    if laidOut ≤ i || i < -laidOut then .error .beyondYear
    else .ok (if i < 0 then (i + laidOut).toNat else i.toNat)

end YearFrame

namespace Rule

open YearFrame

/-- The layout of a year for the parts of a rule; `month` is the month of a monthly period. -/
def frame (r : Rule) (year month : Nat) : Except Fault YearFrame := do
  let length := Calendar.yearLength year
  let weeks ← chosenWeeks year length r.weekStart r.weekNumbers
  let numbered ← numberedDays r year month
  let easterDays ← daysAroundEaster year r.easters
  pure {
    year, length, weeks, numbered, easterDays
    first := Calendar.daysBeforeYear year
    nextLength := Calendar.yearLength (year + 1) }

/-- Whether the month and the day of the month of a day are chosen. -/
def choosesDate (r : Rule) (day : Nat) : Bool :=
  if r.months.isEmpty && r.monthDays.isEmpty && r.endMonthDays.isEmpty then true
  else
    let d := Date.ofDayNumber day
    (r.months.isEmpty || r.months.contains (d.month : Int)) &&
      ((r.monthDays.isEmpty && r.endMonthDays.isEmpty) ||
        r.monthDays.contains (d.day : Int) ||
        r.endMonthDays.contains ((d.day : Int) - (Calendar.daysIn d.year d.month : Int) - 1))

/-- Whether the index of a day is chosen, counted from the start or from the end of its year. -/
def choosesYearDay (r : Rule) (f : YearFrame) (i : Nat) : Bool :=
  if r.yearDays.isEmpty then true
  else
    let (i, length) := if i < f.length then (i, f.length) else (i - f.length, f.nextLength)
    r.yearDays.contains (i + 1 : Int) || r.yearDays.contains ((i : Int) - (length : Int))

/-- Whether a rule chooses a day, in the layout of the year of its period. -/
def choosesDay (r : Rule) (f : YearFrame) (day : Nat) : Bool :=
  let i := day - f.first
  (r.weekdays.isEmpty || r.weekdays.contains (Date.weekday day)) &&
    (r.weekNumbers.isEmpty || f.weeks.any fun (a, b) => a ≤ i && i < b) &&
    (r.numberedWeekdays.isEmpty || f.numbered.contains i) &&
    (r.easters.isEmpty || f.easterDays.contains i) &&
    r.choosesYearDay f i && r.choosesDate day

end Rule

end ScanPolicy
