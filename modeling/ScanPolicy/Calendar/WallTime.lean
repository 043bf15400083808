import ScanPolicy.Calendar.Date

/-!
# Wall times

What a calendar and a clock on the wall show: a date of the years 1 to 9999 and a time of day, to
the microsecond. A wall time is the number of microseconds since the first midnight of the
calendar, so adding a span is adding numbers, and comparing is comparing numbers.

- `WallTime`: a number of microseconds within the calendar.
- `WallTime.ofTicks?`, `WallTime.add?`: nothing beyond the calendar has a wall time.
- `WallTime.ofFields?`: the wall time with the given fields.
- `Span`: lengths of time; a span has at most 999999999 days.
-/

namespace ScanPolicy

/-! ## Spans -/

namespace Span

/-- Microseconds of a second, a minute, an hour, a day and a week. -/
def second : Int := 1000000
def minute : Int := 60 * second
def hour : Int := 60 * minute
def day : Int := 24 * hour
def week : Int := 7 * day

/-- The largest number of days of a span. -/
def dayLimit : Int := 999999999

/-- `count` times a unit, if that is a span. -/
def times? (count unit : Int) : Option Int :=
  let ticks := count * unit
  let days := ticks.fdiv day
  if -dayLimit ≤ days && days ≤ dayLimit then some ticks else none

end Span

/-! ## Wall times -/

/-- A number of microseconds since the first midnight, within the years 1 to 9999. -/
structure WallTime where
  ticks : Int
  nonneg : 0 ≤ ticks
  inCalendar : ticks < (Calendar.dayCount : Int) * Span.day

namespace WallTime

instance : DecidableEq WallTime := fun a b =>
  decidable_of_iff (a.ticks = b.ticks) ⟨fun h => by cases a; cases b; simp_all, fun h => h ▸ rfl⟩

instance : Inhabited WallTime := ⟨⟨0, by decide, by decide⟩⟩

/-- The wall time with a number of microseconds, if it is within the calendar. -/
def ofTicks? (n : Int) : Option WallTime :=
  if h : 0 ≤ n ∧ n < (Calendar.dayCount : Int) * Span.day then some ⟨n, h.1, h.2⟩ else none

/-- The wall time a span later. -/
def add? (t : WallTime) (span : Int) : Option WallTime := ofTicks? (t.ticks + span)

/-- The number of the day. -/
def dayNumber (t : WallTime) : Nat := (t.ticks.fdiv Span.day).toNat

/-- The microseconds since midnight. -/
def sinceMidnight (t : WallTime) : Int := t.ticks.fmod Span.day

/-- The date. -/
def date (t : WallTime) : Date := Date.ofDayNumber t.dayNumber

/-- The year. -/
def year (t : WallTime) : Nat := (Date.yearOfDay t.dayNumber).1

/-- The weekday, Monday being zero. -/
def weekday (t : WallTime) : Nat := Date.weekday t.dayNumber

/-- The hour of the day. -/
def hour (t : WallTime) : Nat := (t.sinceMidnight.fdiv Span.hour).toNat

/-- The minute of the hour. -/
def minute (t : WallTime) : Nat := ((t.sinceMidnight.fdiv Span.minute).fmod 60).toNat

/-- The second of the minute. -/
def second (t : WallTime) : Nat := ((t.sinceMidnight.fdiv Span.second).fmod 60).toNat

/-- The microsecond of the second. -/
def microsecond (t : WallTime) : Nat := (t.ticks.fmod Span.second).toNat

/-- The number of microseconds that a day number and a time of day stand for. -/
def ticksAt (dayNumber hour minute second microsecond : Nat) : Int :=
  (dayNumber : Int) * Span.day + (hour : Int) * Span.hour + (minute : Int) * Span.minute +
    (second : Int) * Span.second + (microsecond : Int)

/-- The wall time at a time of day of a date. -/
def ofFields? (d : Date) (hour minute second microsecond : Nat) : Option WallTime :=
  if d.isValid && hour < 24 && minute < 60 && second < 60 && microsecond < 1000000 then
    ofTicks? (ticksAt d.dayNumber hour minute second microsecond)
  else none

/-- The same wall time with no part of a second. -/
def wholeSecond (t : WallTime) : WallTime :=
  (ofTicks? (t.ticks - t.ticks.fmod Span.second)).getD t

theorem ofTicks?_ticks (t : WallTime) : ofTicks? t.ticks = some t := by
  simp [ofTicks?, t.nonneg, t.inCalendar]

theorem ticks_of_ofTicks? {n : Int} {t : WallTime} (h : ofTicks? n = some t) : t.ticks = n := by
  simp only [ofTicks?] at h
  split at h
  · cases h; rfl
  · cases h

end WallTime

end ScanPolicy
