import ScanPolicy.Proofs.Recurrence.Increasing
import ScanPolicy.Proofs.Recurrence.Times

/-!
# Completed rules

A rule is completed from its given parts in three steps that may fail, the hours,
the minutes and the times of a day; everything else follows.

- `Rule.completed`: the rule from its parts and from what the three steps give.
- `Rule.ofParts_eq_ok_iff`: when a rule can be completed.
- `Rule.IsComplete`: what every completed rule has.
-/

namespace ScanPolicy

namespace Rule

/-! ## The steps that may fail -/

/-- The hours of a rule from the given ones. -/
def hoursOf (f : Frequency) (interval hour : Nat) : Option (List Int) → Except Fault (List Int)
  | none => pure (if f.isSubDaily then [] else [(hour : Int)])
  | some hs => if f == .hourly then reachable interval 24 hour hs else pure (sortedInts hs)

/-- The minutes of a rule from the given ones. -/
def minutesOf (f : Frequency) (interval minute : Nat) : Option (List Int) → Except Fault (List Int)
  | none => pure (if f == .minutely then [] else [(minute : Int)])
  | some ms => if f == .minutely then reachable interval 60 minute ms else pure (sortedInts ms)

/-- The seconds of a rule from the given ones. -/
def secondsOf (second : Nat) : Option (List Int) → List Int
  | none => [(second : Int)]
  | some ss => sortedInts ss

/-- The times of a day of a rule. -/
def dayTimesOf (f : Frequency) (hours minutes seconds : List Int) : Except Fault (List TimeOfDay) :=
  if f.isSubDaily then pure [] else timesOf hours minutes seconds

/-! ## The other parts -/

/-- Whether days are taken from the anchor. -/
def takesDays (p : Parts) : Bool := !p.choosesDays

/-- The months of a rule. -/
def monthsOf (f : Frequency) (t : WallTime) (p : Parts) : List Int :=
  match p.months with
  | none => if takesDays p && f == .yearly then [(t.date.month : Int)] else []
  | some ms => sortedInts ms

/-- The days of the month, counted from the start or from the end. -/
def monthDaysOf (f : Frequency) (t : WallTime) (p : Parts) : List Int :=
  if takesDays p && f.numbersWeekdays then [(t.date.day : Int)] else sortedInts (p.monthDays.getD [])

/-- The weekdays with or without numbers. -/
def weekdayPartsOf (f : Frequency) (t : WallTime) (p : Parts) : List WeekdayPart :=
  if takesDays p && f == .weekly then [⟨t.weekday, none⟩] else p.weekdays.getD []

/-- Whether a weekday counts without its number. -/
def isPlain (f : Frequency) (w : WeekdayPart) : Bool := w.number.isNone || !f.numbersWeekdays

/-- The weekdays without numbers. -/
def plainWeekdays (f : Frequency) (ws : List WeekdayPart) : List Nat :=
  increasing (fun a b => a < b) ((ws.filter (isPlain f)).map (·.weekday))

/-- The weekdays with numbers. -/
def numberedWeekdaysOf (f : Frequency) (ws : List WeekdayPart) : List (Nat × Int) :=
  increasing numberedBefore
    (ws.filterMap fun w => if isPlain f w then none else w.number.map (w.weekday, ·))

/-- The rule from its parts, its hours, its minutes and its times of a day. -/
def completed (f : Frequency) (anchor : Moment) (interval weekStart : Nat) (count : Option Nat)
    (bound : Option Moment) (p : Parts) (hours minutes : List Int) (dayTimes : List TimeOfDay) :
    Rule :=
  let t := anchor.wall.wholeSecond
  let days := monthDaysOf f t p
  let plain := plainWeekdays f (weekdayPartsOf f t p)
  let numbered := numberedWeekdaysOf f (weekdayPartsOf f t p)
  { freq := f, anchor := { anchor with wall := t }, interval, weekStart, count, bound
    positions := p.positions.getD []
    months := monthsOf f t p
    monthDays := days.filter (0 < ·)
    endMonthDays := days.filter (· < 0)
    yearDays := sortedInts (p.yearDays.getD [])
    easters := p.easters.getD []
    weekNumbers := sortedInts (p.weekNumbers.getD [])
    weekdays := plain, numberedWeekdays := numbered, hours, minutes
    seconds := secondsOf t.second p.seconds
    dayTimes
    given := {
      positions := p.positions
      months := p.months.map sortedInts
      monthDays := if takesDays p && f.numbersWeekdays then none
        else p.monthDays.map fun _ => days.filter (0 < ·) ++ days.filter (· < 0)
      yearDays := p.yearDays.map sortedInts
      easters := p.easters
      weekNumbers := p.weekNumbers.map sortedInts
      weekdays := if takesDays p && f == .weekly then none
        else p.weekdays.map fun _ =>
          plain.map (⟨·, none⟩) ++ numbered.map fun (w, n) => ⟨w, some n⟩
      hours := p.hours.map fun _ => hours
      minutes := p.minutes.map fun _ => minutes
      seconds := p.seconds.map sortedInts } }

section Completing

variable {f : Frequency} {anchor : Moment} {interval weekStart : Nat} {count : Option Nat}
  {bound : Option Moment} {p : Parts} {r : Rule}

theorem ofParts_eq : ofParts f anchor interval weekStart count bound p =
    if (p.positions.getD []).all isPosition then do
      let hours ← hoursOf f interval anchor.wall.wholeSecond.hour p.hours
      let minutes ← minutesOf f interval anchor.wall.wholeSecond.minute p.minutes
      let dayTimes ← dayTimesOf f hours minutes (secondsOf anchor.wall.wholeSecond.second p.seconds)
      pure (completed f anchor interval weekStart count bound p hours minutes dayTimes)
    else .error (.rule .positionOutOfRange) := by
  obtain ⟨positions, months, monthDays, yearDays, easters, weekNumbers, weekdays, hours, minutes,
    seconds⟩ := p
  unfold ofParts
  by_cases hall : (positions.getD []).all isPosition
  · rw [if_pos hall]
    simp only [hall]
    cases hours <;> cases minutes <;> cases f <;> rfl
  · rw [if_neg hall]
    simp only [hall]
    rfl

/-- A rule can be completed if its positions are within a year and the three steps
succeed. -/
theorem ofParts_eq_ok_iff : ofParts f anchor interval weekStart count bound p = .ok r ↔
    (p.positions.getD []).all isPosition ∧
      hoursOf f interval anchor.wall.wholeSecond.hour p.hours = .ok r.hours ∧
      minutesOf f interval anchor.wall.wholeSecond.minute p.minutes = .ok r.minutes ∧
      dayTimesOf f r.hours r.minutes (secondsOf anchor.wall.wholeSecond.second p.seconds) =
        .ok r.dayTimes ∧
      r = completed f anchor interval weekStart count bound p r.hours r.minutes r.dayTimes := by
  rw [ofParts_eq]
  constructor
  · intro h
    split_ifs at h with hall
    obtain ⟨hours, hhours, h⟩ := bind_eq_ok_iff.mp h
    obtain ⟨minutes, hminutes, h⟩ := bind_eq_ok_iff.mp h
    obtain ⟨dayTimes, hdayTimes, h⟩ := bind_eq_ok_iff.mp h
    cases h
    exact ⟨hall, hhours, hminutes, hdayTimes, rfl⟩
  · rintro ⟨hall, hhours, hminutes, hdayTimes, hr⟩
    rw [if_pos hall]
    refine bind_eq_ok_iff.mpr ⟨_, hhours, bind_eq_ok_iff.mpr ⟨_, hminutes,
      bind_eq_ok_iff.mpr ⟨_, hdayTimes, ?_⟩⟩⟩
    rw [← hr]
    rfl

/-- The last moment of a rule is only kept. -/
theorem ofParts_withBound (h : ofParts f anchor interval weekStart count bound p = .ok r)
    (bound' : Option Moment) :
    ofParts f anchor interval weekStart count bound' p = .ok { r with bound := bound' } := by
  obtain ⟨hall, hhours, hminutes, hdayTimes, hr⟩ := ofParts_eq_ok_iff.mp h
  refine ofParts_eq_ok_iff.mpr ⟨hall, hhours, hminutes, hdayTimes, ?_⟩
  exact congrArg (fun r : Rule => { r with bound := bound' }) hr

/-! ## What every completed rule has -/

/-- A rule that was completed from its parts. -/
structure IsComplete (r : Rule) : Prop where
  interval_pos : 0 < r.interval
  weekStart_lt : r.weekStart < 7
  minutes_sorted : r.minutes.Pairwise (· < ·)
  seconds_sorted : r.seconds.Pairwise (· < ·)
  dayTimes_sorted : r.dayTimes.Pairwise fun a b => a.ticks < b.ticks
  dayTimes_valid : ∀ t ∈ r.dayTimes, t.IsValid
  numbered_eq_nil : r.freq.numbersWeekdays = false → r.numberedWeekdays = []

/-- Whether a value is reached from `start` in whole steps. -/
def isReached (interval base start : Nat) (v : Int) : Bool :=
  Nat.gcd interval base == 1 || (v - start) % (Nat.gcd interval base : Int) == 0

theorem reachable_eq_ok_iff {base start : Nat} {values reached : List Int} :
    reachable interval base start values = .ok reached ↔
      values.filter (isReached interval base start) ≠ [] ∧
        reached = sortedInts (values.filter (isReached interval base start)) := by
  unfold reachable isReached
  dsimp only
  generalize values.filter _ = reachedValues
  cases reachedValues with
  | nil =>
    constructor
    · intro h
      cases h
    · intro h
      exact absurd rfl h.1
  | cons v vs =>
    constructor
    · intro h
      cases h
      exact ⟨List.cons_ne_nil _ _, rfl⟩
    · rintro ⟨-, rfl⟩
      rfl

theorem hoursOf_sorted {hour : Nat} {given : Option (List Int)} {hours : List Int}
    (h : hoursOf f interval hour given = .ok hours) : hours.Pairwise (· < ·) := by
  cases given with
  | none =>
    cases h
    split
    · exact List.Pairwise.nil
    · exact List.pairwise_singleton _ _
  | some hs =>
    unfold hoursOf at h
    simp only at h
    split at h
    · obtain ⟨-, rfl⟩ := reachable_eq_ok_iff.mp h
      exact sortedInts_pairwise _
    · cases h
      exact sortedInts_pairwise _

theorem minutesOf_sorted {minute : Nat} {given : Option (List Int)} {minutes : List Int}
    (h : minutesOf f interval minute given = .ok minutes) : minutes.Pairwise (· < ·) := by
  cases given with
  | none =>
    cases h
    split
    · exact List.Pairwise.nil
    · exact List.pairwise_singleton _ _
  | some ms =>
    unfold minutesOf at h
    simp only at h
    split at h
    · obtain ⟨-, rfl⟩ := reachable_eq_ok_iff.mp h
      exact sortedInts_pairwise _
    · cases h
      exact sortedInts_pairwise _

theorem secondsOf_sorted (second : Nat) (given : Option (List Int)) :
    (secondsOf second given).Pairwise (· < ·) := by
  cases given with
  | none => exact List.pairwise_singleton _ _
  | some ss => exact sortedInts_pairwise _

theorem isComplete_of_ofParts (h : ofParts f anchor interval weekStart count bound p = .ok r)
    (hinterval : 0 < interval) (hweek : weekStart < 7) : r.IsComplete := by
  obtain ⟨-, hhours, hminutes, htimes, hr⟩ := ofParts_eq_ok_iff.mp h
  have hh := hoursOf_sorted hhours
  have hm := minutesOf_sorted hminutes
  have hs := secondsOf_sorted anchor.wall.wholeSecond.second p.seconds
  have hdays : (r.dayTimes.Pairwise fun a b => a.ticks < b.ticks) ∧ ∀ t ∈ r.dayTimes, t.IsValid := by
    unfold dayTimesOf at htimes
    split at htimes
    · rw [← Except.ok.inj htimes]
      exact ⟨List.Pairwise.nil, fun t ht => (nomatch ht)⟩
    · obtain ⟨hsorted, hvalid⟩ := timesOf_spec htimes hh hm hs
      refine ⟨hsorted, fun t ht => ?_⟩
      obtain ⟨-, -, -, -, ht, -⟩ := hvalid t ht
      exact ht
  rw [hr]
  refine ⟨hinterval, hweek, hm, hs, hdays.1, hdays.2, fun hnumbers => ?_⟩
  show numberedWeekdaysOf f _ = []
  unfold numberedWeekdaysOf
  rw [increasing_eq_nil_iff, List.filterMap_eq_nil_iff]
  intro w _
  have hplain : isPlain f w = true := by
    unfold isPlain
    rw [show f.numbersWeekdays = false from hnumbers, Bool.not_false, Bool.or_true]
  rw [if_pos hplain]

end Completing

end Rule

end ScanPolicy
