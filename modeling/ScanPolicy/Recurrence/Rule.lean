import ScanPolicy.Recurrence.Parts
import ScanPolicy.Recurrence.Fault

/-!
# Recurrence rules

A rule is its given parts completed from its anchor, the date from which its periods are counted:
parts that are not given are taken from the date and the time of the anchor. The given parts are
kept, so that a rule can be anchored elsewhere.

- `Rule.ofParts`: completes and checks a rule.
- `Rule.withUntil`, `Rule.reanchor`: the rule with another bound or another anchor, completed anew
  from the given parts.
-/

namespace ScanPolicy

/-- A time of day: hour, minute and second. -/
structure TimeOfDay where
  hour : Nat
  minute : Nat
  second : Nat
deriving DecidableEq, Repr

namespace TimeOfDay

/-- The largest and the smallest number that a clock field is checked for at all. -/
def machineMax : Int := 2147483647
def machineMin : Int := -2147483648

/-- Whether a number is beyond what a clock field is checked for. -/
def isBeyondMachine (n : Int) : Bool := n < machineMin || machineMax < n

/-- The time of day with the given fields. -/
def check (hour minute second : Int) : Except Fault TimeOfDay :=
  if isBeyondMachine hour || isBeyondMachine minute || isBeyondMachine second then
    .error .beyondCalendar
  else if hour < 0 || 23 < hour then .error (.rule .hourOutOfRange)
  else if minute < 0 || 59 < minute then .error (.rule .minuteOutOfRange)
  else if second < 0 || 59 < second then .error (.rule .secondOutOfRange)
  else .ok ⟨hour.toNat, minute.toNat, second.toNat⟩

end TimeOfDay

/-- A completed recurrence rule. An empty list of hours or minutes means all of them, an empty
list of another part means that the part is not used. -/
structure Rule where
  freq : Frequency
  /-- The date from which the periods are counted, with no part of a second. -/
  anchor : Moment
  interval : Nat
  /-- The weekday on which weeks start, Monday being zero. -/
  weekStart : Nat
  count : Option Nat
  bound : Option Moment
  positions : List Int
  months : List Int
  monthDays : List Int
  /-- Days counted from the end of the month. -/
  endMonthDays : List Int
  yearDays : List Int
  easters : List Int
  weekNumbers : List Int
  weekdays : List Nat
  numberedWeekdays : List (Nat × Int)
  hours : List Int
  minutes : List Int
  seconds : List Int
  /-- The times of a day, for periods of at least a day. -/
  dayTimes : List TimeOfDay
  /-- The parts that were given. -/
  given : Parts

namespace Rule

/-- Insert a number into an increasing list without repetitions. -/
def insertNew {α : Type} [BEq α] (lt : α → α → Bool) (a : α) : List α → List α
  | [] => [a]
  | b :: rest =>
    if lt a b then a :: b :: rest else if a == b then b :: rest else b :: insertNew lt a rest

/-- The values of a list in increasing order, each one once. -/
def increasing {α : Type} [BEq α] (lt : α → α → Bool) (xs : List α) : List α :=
  xs.foldr (insertNew lt) []

/-- Numbers in increasing order, each one once. -/
def sortedInts (xs : List Int) : List Int := increasing (fun a b => a < b) xs

/-- Whether numbered weekday `a` comes before `b`. -/
def numberedBefore (a b : Nat × Int) : Bool := a.1 < b.1 || (a.1 == b.1 && a.2 < b.2)

/-- The values that are reached from `start` with steps of `interval` on a dial of `base`. -/
def reachable (interval base start : Nat) (values : List Int) : Except Fault (List Int) :=
  let g := Nat.gcd interval base
  match values.filter fun v => g == 1 || (v - start) % (g : Int) == 0 with
  | [] => .error (.rule .emptySet)
  | vs => .ok (sortedInts vs)

/-- Whether a position in a set is within the days of a year. -/
def isPosition (n : Int) : Bool := n != 0 && -366 ≤ n && n ≤ 366

/-- All times of a day with the given hours, minutes and seconds, in order. -/
def timesOf (hours minutes seconds : List Int) : Except Fault (List TimeOfDay) := do
  let times ← hours.mapM fun h => do
    let times ← minutes.mapM fun m => seconds.mapM fun s => TimeOfDay.check h m s
    pure times.flatten
  pure times.flatten

/-- Completes a rule from its given parts. Days are taken from the anchor if no part chooses days,
the time of day from it field by field. -/
def ofParts (freq : Frequency) (anchor : Moment) (interval weekStart : Nat) (count : Option Nat)
    (bound : Option Moment) (p : Parts) : Except Fault Rule := do
  let anchor := { anchor with wall := anchor.wall.wholeSecond }
  let date := anchor.wall.date
  let positions := p.positions.getD []
  unless positions.all isPosition do throw (.rule .positionOutOfRange)
  let pinned := !p.choosesDays
  let months := match p.months with
    | none => if pinned && freq == .yearly then [(date.month : Int)] else []
    | some ms => sortedInts ms
  let allMonthDays :=
    if pinned && freq.numbersWeekdays then [(date.day : Int)]
    else sortedInts (p.monthDays.getD [])
  let weekdayParts :=
    if pinned && freq == .weekly then [⟨anchor.wall.weekday, none⟩] else p.weekdays.getD []
  let isPlain (w : WeekdayPart) : Bool := w.number.isNone || !freq.numbersWeekdays
  let weekdays := increasing (fun a b => a < b) ((weekdayParts.filter isPlain).map (·.weekday))
  let numbered := increasing numberedBefore
    (weekdayParts.filterMap fun w => if isPlain w then none else w.number.map (w.weekday, ·))
  let hours ← match p.hours with
    | none => pure (if freq.isSubDaily then [] else [(anchor.wall.hour : Int)])
    | some hs =>
      if freq == .hourly then reachable interval 24 anchor.wall.hour hs else pure (sortedInts hs)
  let minutes ← match p.minutes with
    | none => pure (if freq == .minutely then [] else [(anchor.wall.minute : Int)])
    | some ms =>
      if freq == .minutely then reachable interval 60 anchor.wall.minute ms
      else pure (sortedInts ms)
  let seconds := match p.seconds with
    | none => [(anchor.wall.second : Int)]
    | some ss => sortedInts ss
  let dayTimes ← if freq.isSubDaily then pure [] else timesOf hours minutes seconds
  let positive := allMonthDays.filter (0 < ·)
  let negative := allMonthDays.filter (· < 0)
  pure {
    freq, anchor, interval, weekStart, count, bound, positions, months
    monthDays := positive
    endMonthDays := negative
    yearDays := sortedInts (p.yearDays.getD [])
    easters := p.easters.getD []
    weekNumbers := sortedInts (p.weekNumbers.getD [])
    weekdays, numberedWeekdays := numbered, hours, minutes, seconds, dayTimes
    given := {
      positions := p.positions
      months := p.months.map sortedInts
      monthDays := if pinned && freq.numbersWeekdays then none
        else p.monthDays.map fun _ => positive ++ negative
      yearDays := p.yearDays.map sortedInts
      easters := p.easters
      weekNumbers := p.weekNumbers.map sortedInts
      weekdays := if pinned && freq == .weekly then none
        else p.weekdays.map fun _ =>
          weekdays.map (⟨·, none⟩) ++ numbered.map fun (w, n) => ⟨w, some n⟩
      hours := p.hours.map fun _ => hours
      minutes := p.minutes.map fun _ => minutes
      seconds := p.seconds.map sortedInts } }

/-- The rule bounded by a last moment. -/
def withUntil (r : Rule) (bound : Moment) : Except Fault Rule :=
  ofParts r.freq r.anchor r.interval r.weekStart r.count (some bound) r.given

/-- The rule with its periods counted from another anchor, and with some parts given anew. -/
def reanchor (r : Rule) (anchor : Moment) (change : Parts → Parts) : Except Fault Rule :=
  ofParts r.freq anchor r.interval r.weekStart r.count r.bound (change r.given)

end Rule

end ScanPolicy
