import ScanPolicy.Recurrence.YearFrame

/-!
# Periods of a rule

A rule is expanded period by period: years, months, weeks, days, hours or minutes, every
`interval`-th one counted from the anchor. The dates of a period are the chosen times of its chosen
days; of these, positions may choose again.

- `Period`: one period.
- `Rule.firstPeriod`: the period of the anchor.
- `Rule.nextPeriod`: the next period that counts.
- `Rule.datesIn`: the dates of a period, in order.
-/

namespace ScanPolicy

/-- A period of a rule. Days are given by their numbers; a week is given by the day on which it
starts in the rule, which for the first one is the day of the anchor. -/
inductive Period where
  | year (year : Nat)
  | month (year month : Nat)
  | week (day : Nat)
  | day (day : Nat)
  | hour (day hour : Nat)
  | minute (day hour minute : Nat)
deriving DecidableEq, Repr

/-- What comes after a period. -/
inductive Following (α : Type) where
  | more (next : α)
  /-- The calendar ends. -/
  | done
  | failed (fault : Fault)

namespace Period

/-- The year and the month of a period, as far as it has them. -/
def yearMonth : Period → Nat × Nat
  | year y => (y, 1)
  | month y m => (y, m)
  | week d | day d | hour d _ | minute d _ _ =>
    let date := Date.ofDayNumber d
    (date.year, date.month)

/-- The numbers of the days that a period touches. -/
def days (weekStart : Nat) : Period → List Nat
  | year y => List.range' (Calendar.daysBeforeYear y) (Calendar.yearLength y)
  | month y m =>
    List.range' (Calendar.daysBeforeYear y + Calendar.daysBeforeMonth y m) (Calendar.daysIn y m)
  | week d => List.range' d ((weekStart + 6 - Date.weekday d) % 7 + 1)
  | day d | hour d _ | minute d _ _ => [d]

/-- The period that `make` gives for a day, if the calendar has that day. -/
def onDay (d : Nat) (make : Nat → Period) : Following Period :=
  if d < Calendar.dayCount then .more (make d) else .done

end Period

namespace Rule

/-- The period of the anchor. -/
def firstPeriod (r : Rule) : Period :=
  let t := r.anchor.wall
  let date := t.date
  match r.freq with
  | .yearly => .year date.year
  | .monthly => .month date.year date.month
  | .weekly => .week t.dayNumber
  | .daily => .day t.dayNumber
  | .hourly => .hour t.dayNumber t.hour
  | .minutely => .minute t.dayNumber t.hour t.minute

/-! ## Times of a period -/

/-- Whether a number is among the hours or minutes of a rule, all of them if none are listed. -/
def allows (values : List Int) (n : Nat) : Bool := values.isEmpty || values.contains (n : Int)

/-- The times of day of a period. -/
def timesIn (r : Rule) : Period → Except Fault (List TimeOfDay)
  | .hour _ h => if allows r.hours h then timesOf [(h : Int)] r.minutes r.seconds else .ok []
  | .minute _ h m =>
    if allows r.hours h && allows r.minutes m then timesOf [(h : Int)] [(m : Int)] r.seconds
    else .ok []
  | _ => .ok r.dayTimes

/-! ## The next period -/

/-- Steps of `interval` from `value` on a dial of `base`, up to one that is allowed: the turns of
the dial, and the value reached. -/
def turnTo (values : List Int) (interval base : Nat) : Nat → Nat → Nat → Option (Nat × Nat)
  | 0, _, _ => none
  | fuel + 1, turns, value =>
    let turns := turns + (value + interval) / base
    let value := (value + interval) % base
    if values.contains (value : Int) then some (turns, value)
    else turnTo values interval base fuel turns value

/-- The next value on a dial, the turns of the dial coming first. -/
def turn (values : List Int) (interval base value : Nat) : Option (Nat × Nat) :=
  if values.isEmpty then some ((value + interval) / base, (value + interval) % base)
  else turnTo values interval base base 0 value

/-- The next allowed minute in an allowed hour: turns of the day, hour and minute. -/
def nextMinute (r : Rule) : Nat → Nat → Nat → Nat → Except Fault (Nat × Nat × Nat)
  | 0, _, _, _ => .error (.rule .noCommonHour)
  | fuel + 1, days, hour, minute =>
    match turn r.minutes r.interval 60 minute with
    | none => .error .neverReached
    | some (hours, minute) =>
      let days := days + (hour + hours) / 24
      let hour := (hour + hours) % 24
      if allows r.hours hour then .ok (days, hour, minute)
      else nextMinute r fuel days hour minute

/-- The last value before `limit` that is reached from `value` with steps of `interval`. -/
def lastBefore (limit interval value : Nat) : Nat := value + (limit - 1 - value) / interval * interval

/-- The period that follows one; `skipsDay` tells that no time of the day can be chosen, so that the
rest of it is passed over. -/
def nextPeriod (r : Rule) (skipsDay : Bool) : Period → Following Period
  | .year y => if y + r.interval ≤ Calendar.lastYear then .more (.year (y + r.interval)) else .done
  | .month y m =>
    let n := 12 * y + (m - 1) + r.interval
    if n / 12 ≤ Calendar.lastYear then .more (.month (n / 12) (n % 12 + 1)) else .done
  | .week d =>
    let back := (Date.weekday d + 7 - r.weekStart) % 7
    Period.onDay (d + 7 * r.interval - back) .week
  | .day d => Period.onDay (d + r.interval) .day
  | .hour d h =>
    let h := if skipsDay then lastBefore 24 r.interval h else h
    match turn r.hours r.interval 24 h with
    | none => .failed .neverReached
    | some (days, hour) => Period.onDay (d + days) (.hour · hour)
  | .minute d h m =>
    let m := if skipsDay then lastBefore 1440 r.interval (60 * h + m) - 60 * h else m
    match r.nextMinute (1440 / Nat.gcd r.interval 1440) 0 h m with
    | .error e => .failed e
    | .ok (days, hour, minute) => Period.onDay (d + days) (.minute · hour minute)

/-! ## Dates of a period -/

/-- A date as a wall time. -/
def dateAt (day : Nat) (t : TimeOfDay) : Option WallTime :=
  WallTime.ofTicks? (WallTime.ticksAt day t.hour t.minute t.second 0)

/-- Dates of a period, and the fault that breaks off the list of them. -/
structure Dates where
  times : List WallTime
  fault : Option Fault

/-- All times of the days, up to the end of the calendar. -/
def allDates (days : List Nat) (times : List TimeOfDay) : Dates :=
  match days with
  | [] => ⟨[], none⟩
  | day :: rest =>
    if day < Calendar.dayCount then
      let more := allDates rest times
      ⟨times.filterMap (dateAt day) ++ more.times, more.fault⟩
    else ⟨[], some (.rule (.yearOutOfRange 10000))⟩

/-- The date at a position among the times of the days: from the start if the position is positive,
from the end if it is negative. -/
def atPosition (days : List Nat) (times : List TimeOfDay) (position : Int) :
    Option (Nat × TimeOfDay) :=
  let size : Int := times.length
  let index := if position < 0 then position else position - 1
  let dayIndex := index.fdiv size
  let timeIndex := (index.fmod size).toNat
  let day := if dayIndex < 0 then
      (if -dayIndex ≤ (days.length : Int) then days[((days.length : Int) + dayIndex).toNat]? else none)
    else days[dayIndex.toNat]?
  match day, times[timeIndex]? with
  | some d, some t => some (d, t)
  | _, _ => none

/-- The dates at the given positions, in order, each one once. -/
def datesAt (positions : List Int) (days : List Nat) (times : List TimeOfDay) : Dates :=
  let chosen := positions.filterMap (atPosition days times)
  if chosen.any fun (d, _) => Calendar.dayCount ≤ d then
    ⟨[], some (.rule (.yearOutOfRange 10000))⟩
  else
    ⟨increasing (fun a b => a.ticks < b.ticks) (chosen.filterMap fun (d, t) => dateAt d t), none⟩

/-- The dates of a period with the given times, and whether some day of it is not chosen. -/
def datesIn (r : Rule) (f : YearFrame) (p : Period) (times : List TimeOfDay) : Dates × Bool :=
  let days := p.days r.weekStart
  let chosen := days.filter (r.choosesDay f)
  let dates :=
    if !r.positions.isEmpty && !times.isEmpty then datesAt r.positions chosen times
    else allDates chosen times
  (dates, chosen.length < days.length)

end Rule

end ScanPolicy
