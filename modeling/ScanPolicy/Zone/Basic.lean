import ScanPolicy.Calendar.WallTime

/-!
# Time zones

A zone tells how far its wall clocks are ahead of universal time. The offset is constant between
transitions; after the last listed transition a yearly rule goes on, or the offset stays.

Reading a wall time in a zone is not always unique: when clocks are set back, an hour is shown
twice, and when they are set forward, an hour is never shown. The *fold* tells the two readings
apart: without it the offset before the transition holds, with it the offset after it.

- `Zone`: offsets as a list of transitions and a rule for the time after it.
- `Zone.offsetAt`: the offset at a wall time, for either fold.
- `Zone.ofUniversal`: the offset at a universal time, and whether the wall time shown then is the
  second one of its kind.
-/

namespace ScanPolicy

/-- From a second of universal time on (counted from the first of January 1970) the offset, in
seconds, is the given one. -/
structure Transition where
  instant : Int
  offset : Int
deriving DecidableEq, Repr

/-- A day and a time in every year: a weekday (Sunday being zero) of a week of a month, the fifth
week being the last one; the time is in seconds after midnight. -/
structure YearlyMoment where
  month : Nat
  week : Nat
  weekday : Nat
  time : Int
deriving DecidableEq, Repr

/-- The offsets after the last transition. -/
inductive Footer where
  /-- The offset stays. -/
  | steady (offset : Int)
  /-- Summer time with offset `summer` runs from `start` on the standard clock to `finish` on the
  summer clock, every year. -/
  | yearly (standard summer : Int) (start finish : YearlyMoment)
deriving DecidableEq, Repr

/-- A time zone. -/
structure Zone where
  name : String
  /-- The offset before the first transition. -/
  initial : Int
  transitions : List Transition
  footer : Footer

namespace Zone

/-- The day number of the first of January 1970. -/
def epochDay : Nat := 719162

/-- The seconds between the first midnight of the calendar and the first of January 1970. -/
def epochSeconds : Int := (epochDay : Int) * 86400

end Zone

namespace YearlyMoment

/-- The day number of a yearly moment. -/
def dayNumber (m : YearlyMoment) (year : Nat) : Nat :=
  let first := Date.dayNumber ⟨year, m.month, 1⟩
  -- Sunday is the last weekday of the calendar and the first one of the rule
  let firstWeekday := (Date.weekday first + 1) % 7
  let day := (m.weekday + 7 - firstWeekday) % 7 + (m.week - 1) * 7
  first + (if day < Calendar.daysIn year m.month then day else day - 7)

/-- The second at which a yearly moment is shown, counted from the start of 1970. -/
def seconds (m : YearlyMoment) (year : Nat) : Int :=
  (m.dayNumber year : Int) * 86400 + m.time - Zone.epochSeconds

end YearlyMoment

namespace Zone

/-- Whether a time lies in a period of the year that may reach across its end. -/
def inPeriod (start finish time : Int) : Bool :=
  if start < finish then start ≤ time && time < finish else time < finish || start ≤ time

/-! ## Offsets at wall times -/

/-- The offset of the footer at second `wall` of a wall clock, in the year it shows. -/
def footerOffset (footer : Footer) (fold : Bool) (wall : Int) (year : Nat) : Int :=
  match footer with
  | .steady offset => offset
  | .yearly standard summer start finish =>
    let gain := summer - standard
    let start := start.seconds year
    let finish := finish.seconds year
    -- the period with the smaller offset starts after the gap and ends after the repeated hour
    -- without fold, and starts with the gap and ends with the repeated hour with fold
    let isSummer :=
      if fold == decide (0 ≤ gain) then inPeriod start (finish - gain) wall
      else inPeriod (start + gain) finish wall
    if isSummer then summer else standard

/-- The wall second from which on a transition counts: the later one of the two readings without
fold, the earlier one with it. -/
def wallThreshold (fold : Bool) (before : Int) (t : Transition) : Int :=
  t.instant + if fold then min before t.offset else max before t.offset

/-- The offset at a wall second, `before` being the offset before the listed transitions. -/
def offsetFrom (footer : Footer) (fold : Bool) (wall : Int) (year : Nat) (before : Int) :
    List Transition → Int
  | [] => footerOffset footer fold wall year
  | [t] =>
    let threshold := wallThreshold fold before t
    if wall < threshold then before
    else if wall = threshold then t.offset
    else footerOffset footer fold wall year
  | t :: u :: rest =>
    if wall < wallThreshold fold before t then before
    else offsetFrom footer fold wall year t.offset (u :: rest)

/-- The offset in seconds at a wall time. -/
def offsetAt (z : Zone) (t : WallTime) (fold : Bool) : Int :=
  let wall := t.ticks.fdiv Span.second - epochSeconds
  offsetFrom z.footer fold wall t.year z.initial z.transitions

/-! ## Offsets at universal times -/

/-- The offset of the footer at a second of universal time, and whether the wall clock shows that
time for the second time. -/
def footerOfUniversal (footer : Footer) (instant : Int) (year : Nat) : Int × Bool :=
  match footer with
  | .steady offset => (offset, false)
  | .yearly standard summer start finish =>
    let gain := summer - standard
    let start := start.seconds year - standard
    let finish := finish.seconds year - summer
    let again :=
      if 0 < gain then finish ≤ instant && instant < finish + gain
      else start ≤ instant && instant < start - gain
    (if inPeriod start finish instant then summer else standard, again)

/-- The offset from the last passed transition `t` on, `before` being the offset before it. -/
def universalFrom (footer : Footer) (instant : Int) (year : Nat) (before : Int) (t : Transition) :
    List Transition → Int × Bool
  | [] =>
    if instant = t.instant then (t.offset, before - t.offset > 0)
    else
      let (offset, again) := footerOfUniversal footer instant year
      let lost := before - offset
      (offset, again || (0 < lost && instant < t.instant + lost))
  | u :: rest =>
    if instant < u.instant then (t.offset, instant - t.instant < before - t.offset)
    else universalFrom footer instant year t.offset u rest

/-- The offset in seconds at a universal time, and whether the wall clock shows that time for the
second time. -/
def ofUniversal (z : Zone) (t : WallTime) : Int × Bool :=
  let instant := t.ticks.fdiv Span.second - epochSeconds
  match z.transitions with
  | [] => footerOfUniversal z.footer instant t.year
  | u :: rest =>
    if instant < u.instant then (z.initial, false)
    else universalFrom z.footer instant t.year z.initial u rest

end Zone

end ScanPolicy
