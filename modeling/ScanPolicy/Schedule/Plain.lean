import ScanPolicy.Schedule.Descriptor

/-!
# Plain rules

The occurrences of a rule without expanding parts are numbered from zero, and each one is computed
from its number: minutes and hours are counted in universal time, days and weeks on the wall of the
zone, and months and years on the calendar, a day that a month does not have being its last one.

- `Plain.occurrence`: the occurrence with a number.
- `Plain.firstIndexAfter`: the number of the first occurrence after a moment.
- `Plain.excludedIndices`: the numbers of the excluded occurrences.
- `Plain.advance`: the number reached after passing a number of occurrences that are not excluded.
-/

namespace ScanPolicy

/-- A value, or the fault that a moment or a span is beyond the calendar. -/
def within {α : Type} : Option α → Except Fault α
  | some a => .ok a
  | none => .error .beyondCalendar

namespace Frequency

/-- What one period adds. -/
inductive Unit where
  /-- A span of universal time. -/
  | absolute (span : Int)
  /-- A span on the wall of the zone. -/
  | wall (span : Int)
  | months (count : Nat)

/-- What one period of a frequency adds. -/
def unit : Frequency → Unit
  | minutely => .absolute Span.minute
  | hourly => .absolute Span.hour
  | daily => .wall Span.day
  | weekly => .wall Span.week
  | monthly => .months 1
  | yearly => .months 12

end Frequency

namespace Plain

/-- The moment a number of months later, the day cut off at the end of the month. -/
def addMonths (m : Moment) (count : Nat) : Except Fault Moment :=
  let d := m.wall.date
  let n := 12 * d.year + (d.month - 1) + count
  let year := n / 12
  let month := n % 12 + 1
  if Calendar.lastYear < year then
    if TimeOfDay.machineMax < year then .error .beyondCalendar
    else .error (.rule (.yearOutOfRange year))
  else
    let day := Date.dayNumber ⟨year, month, min d.day (Calendar.daysIn year month)⟩
    within ((WallTime.ofTicks? ((day : Int) * Span.day + m.wall.sinceMidnight)).map
      (⟨·, m.clock, false⟩))

/-- The occurrence with a number. -/
def occurrence (start : Moment) (c : Component) (index : Nat) : Except Fault Moment :=
  match c.freq with
  | none => .ok start
  | some f =>
    let steps := index * c.interval
    match f.unit with
    | .absolute unit => within do
      let from_ ← start.universal?
      let span ← Span.times? steps unit
      let t ← from_.add? span
      t.on? start.clock
    | .wall unit => within ((Span.times? steps unit).bind start.add?)
    | .months unit => addMonths start (steps * unit)

/-- The number of whole periods between the start and a moment, give or take one. -/
def elapsedPeriods (start : Moment) (c : Component) (f : Frequency) (now : Moment) :
    Except Fault Int :=
  match f.unit with
  | .absolute unit => do
    let period ← within (Span.times? c.interval unit)
    pure ((now.since start).fdiv period)
  | .wall unit => do
    let here ← within (now.on? start.clock)
    let period ← within (Span.times? c.interval unit)
    pure ((here.wall.ticks - start.wall.ticks).fdiv period)
  | .months unit => do
    let here ← within (now.on? start.clock)
    let d := here.wall.date
    let s := start.wall.date
    let months := ((d.year : Int) - (s.year : Int)) * 12 + (d.month : Int) - (s.month : Int)
    pure (months.fdiv (c.interval * unit : Nat))

/-- Goes down from a number while the occurrence before it is still after `now`. -/
def descend (start : Moment) (c : Component) (now : Moment) : Nat → Except Fault Nat
  | 0 => .ok 0
  | n + 1 =>
    match occurrence start c n with
    | .error e => .error e
    | .ok o => if now.before o then descend start c now n else .ok (n + 1)

/-- Goes up from a number while its occurrence is not after `now`. -/
def ascend (start : Moment) (c : Component) (now : Moment) : Nat → Nat → Except Fault Nat
  | 0, _ => .error .beyondCalendar
  | fuel + 1, n =>
    match occurrence start c n with
    | .error e => .error e
    | .ok o => if o.notAfter now then ascend start c now fuel (n + 1) else .ok n

/-- More than the number of minutes of the calendar, and so of occurrences within it. -/
def horizon : Nat := 1440 * Calendar.dayCount + 1

/-- The number of the first occurrence after a moment. -/
def firstIndexAfter (start : Moment) (c : Component) (now : Moment) : Except Fault Nat :=
  match c.freq with
  | none => .ok (if now.before start then 0 else 1)
  | some f => do
    let estimate ← elapsedPeriods start c f now
    let index ← descend start c now estimate.toNat
    ascend start c now horizon index

/-- The number of the occurrence that an excluded date removes, if it removes one. -/
def excludedIndex (start : Moment) (c : Component) (date : Moment) : Except Fault (Option Nat) := do
  let justBefore ← within (date.add? (-1))
  let index ← firstIndexAfter start c justBefore
  let o ← occurrence start c index
  pure (if o.same date then some index else none)

/-- The numbers of the occurrences that the excluded dates remove, in order. Excluded dates before
the start remove none, and neither do those that lead out of the calendar. -/
def excludedIndices (d : Descriptor) (c : Component) : List Nat :=
  let indices := (d.excluded.filter fun m => !m.before d.start).filterMap fun m =>
    match excludedIndex d.start c m with
    | .ok index => index
    | .error _ => none
  Rule.increasing (fun a b => a < b) indices

/-- The number reached from `index` after `steps` further numbers that are not excluded; an excluded
number at the start counts as not there. The excluded numbers are in order. -/
def advance (index steps : Nat) (excluded : List Nat) : Nat :=
  excluded.foldl (fun reached e => if index ≤ e && e ≤ reached then reached + 1 else reached)
    (index + steps)

end Plain

end ScanPolicy
