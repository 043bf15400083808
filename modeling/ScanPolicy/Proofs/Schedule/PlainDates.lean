import Mathlib.Tactic.Ring
import ScanPolicy.Schedule.Plain
import ScanPolicy.Proofs.Moment.Universal

/-!
# The numbered dates of a plain rule in universal time

The dates of a plain rule that starts in universal time are numbered from zero
and have a closed form. Months and years keep the time of day and cut the day
off at the end of the month.

- `Plain.point`: the date with a number, in microseconds, whether or not the
  calendar still has it.
- `Plain.point_strictMono`: the dates are in the order of their numbers.
- `Plain.point_span`, `Plain.liesIn_point`: where they are, by the kind of the period.
- `Plain.occurrence_eq`: `Plain.occurrence` gives the date with a number, or a
  fault that ends the search if the date is beyond the calendar.
- `Plain.elapsedPeriods_absolute`, `Plain.elapsedPeriods_wall`,
  `Plain.elapsedPeriods_months`: the estimate of the passed periods.
- `Plain.elapsedPeriods_spec`: the dates that the estimate passes over are not after
  the moment.
-/

namespace ScanPolicy

/-- The first microsecond after the calendar. -/
def WallTime.calendarEnd : Int := (Calendar.dayCount : Int) * Span.day

theorem some_of_within {α : Type} {o : Option α} {a : α} (h : within o = .ok a) : o = some a := by
  cases o with
  | none => cases h
  | some b =>
    cases h
    rfl

namespace Plain

open Calendar

/-- The day of a month on which a day of the month falls, the last one if the
month is too short. -/
def dayInMonth (month day : Nat) : Nat := monthStart month + (min day (monthLength month) - 1)

/-- The date of a rule with a number, counted from its start: whole periods
later, a day that a month does not have being its last one. -/
def point (start : WallTime) (f : Frequency) (interval index : Nat) : Int :=
  match f.unit with
  | .absolute unit | .wall unit => start.ticks + (index * interval : Nat) * unit
  | .months unit =>
    (dayInMonth (start.date.monthNumber + index * interval * unit) start.date.day : Int) *
      Span.day + start.sinceMidnight

/-- Whether the period of a rule is a span. -/
def HasSpan (f : Frequency) (interval : Nat) : Prop :=
  match f.unit with
  | .absolute unit | .wall unit => (Span.times? interval unit).isSome
  | .months _ => True

variable (start : WallTime) (f : Frequency) {interval : Nat}

/-! ## Order -/

/-- The unit of a rule that is a span is at least a minute. -/
theorem minute_le_unit {f : Frequency} {unit : Int} (h : f.unit = .absolute unit ∨ f.unit = .wall unit) :
    Span.minute ≤ unit := by
  cases f <;> rcases h with h | h <;> cases h <;> decide

theorem unit_months_pos {f : Frequency} {unit : Nat} (h : f.unit = .months unit) : 0 < unit := by
  cases f <;> cases h <;> decide

/-- A period is at least as long as its unit. -/
theorem unit_le_period {f : Frequency} {unit : Int} (h : f.unit = .absolute unit ∨ f.unit = .wall unit)
    (hinterval : 0 < interval) : unit ≤ interval * unit := by
  have hminute := minute_le_unit h
  rw [Span.minute_eq] at hminute
  exact le_mul_of_one_le_left (by omega) (by exact_mod_cast hinterval)

theorem period_pos {f : Frequency} {unit : Int} (h : f.unit = .absolute unit ∨ f.unit = .wall unit)
    (hinterval : 0 < interval) : 0 < interval * unit := by
  have hminute := minute_le_unit h
  rw [Span.minute_eq] at hminute
  have hle := unit_le_period h hinterval
  omega

theorem period_months_pos {f : Frequency} {unit : Nat} (h : f.unit = .months unit)
    (hinterval : 0 < interval) : 0 < ((interval * unit : Nat) : Int) :=
  Int.natCast_pos.mpr (Nat.mul_pos hinterval (unit_months_pos h))

theorem dayInMonth_bounds {month : Nat} (hmonth : 12 ≤ month) (day : Nat) :
    monthStart month ≤ dayInMonth month day ∧ dayInMonth month day < monthStart (month + 1) := by
  have := (monthLength_bounds month).1
  rw [monthStart_succ hmonth]
  unfold dayInMonth
  omega

/-- A later month has later days. -/
theorem dayInMonth_lt {m n : Nat} (hm : 12 ≤ m) (hmn : m < n) (day : Nat) :
    dayInMonth m day < dayInMonth n day := by
  have h₁ := (dayInMonth_bounds hm day).2
  have h₂ := (dayInMonth_bounds (show 12 ≤ n by omega) day).1
  have h₃ := monthStart_mono (m := m + 1) (by omega) hmn
  omega

/-- The first date is the start. -/
theorem point_zero (interval : Nat) : point start f interval 0 = start.ticks := by
  unfold point
  split
  · simp
  · simp
  · have hmonth := start.date_inMonth
    have hday : dayInMonth start.date.monthNumber start.date.day = start.dayNumber := by
      unfold dayInMonth
      rw [hmonth.monthLength_eq, Nat.min_eq_left hmonth.day_le, ← hmonth.dayNumber_eq,
        start.date_dayNumber]
    rw [Nat.zero_mul, Nat.zero_mul, Nat.add_zero, hday, ← start.ticks_eq]

/-- The dates of a rule whose period is a span are as many periods after the start. -/
theorem point_span {f : Frequency} {unit : Int} (h : f.unit = .absolute unit ∨ f.unit = .wall unit)
    (interval index : Nat) :
    point start f interval index = start.ticks + index * (interval * unit) := by
  have hassoc : ((index * interval : Nat) : Int) * unit = index * (interval * unit) := by
    push_cast
    ring
  rcases h with h | h <;> simp only [point, h, hassoc]

/-- The months of the other rules. -/
theorem liesIn_point {f : Frequency} {unit : Nat} (h : f.unit = .months unit) (interval index : Nat) :
    LiesIn (start.date.monthNumber + index * interval * unit) (point start f interval index) := by
  have hmonth := start.date_inMonth.twelve_le
  have hday := dayInMonth_bounds
    (show 12 ≤ start.date.monthNumber + index * interval * unit by omega) start.date.day
  have htime := start.sinceMidnight_bounds
  simp only [point, h]
  unfold LiesIn
  rw [Span.day_eq] at *
  omega

theorem point_succ_of_span {f : Frequency} {unit : Int}
    (h : f.unit = .absolute unit ∨ f.unit = .wall unit) (interval index : Nat) :
    point start f interval (index + 1) = point start f interval index + interval * unit := by
  rw [point_span start h, point_span start h]
  push_cast
  ring

/-- Dates of different months are a day apart. -/
theorem point_succ_of_months {f : Frequency} {unit : Nat} (h : f.unit = .months unit)
    (hinterval : 0 < interval) (index : Nat) :
    point start f interval index + Span.day ≤ point start f interval (index + 1) := by
  have hsteps : index * interval * unit < (index + 1) * interval * unit :=
    Nat.mul_lt_mul_of_pos_right (Nat.mul_lt_mul_of_pos_right (Nat.lt_succ_self index) hinterval)
      (unit_months_pos h)
  have hmonth := start.date_inMonth.twelve_le
  have hlt := dayInMonth_lt
    (show 12 ≤ start.date.monthNumber + index * interval * unit by omega)
    (show _ < start.date.monthNumber + (index + 1) * interval * unit by omega) start.date.day
  simp only [point, h]
  rw [Span.day_eq]
  omega

/-- A date is at least a minute after the one before it. -/
theorem point_succ (hinterval : 0 < interval) (index : Nat) :
    point start f interval index + Span.minute ≤ point start f interval (index + 1) := by
  have hspan : ∀ {unit : Int}, (f.unit = .absolute unit ∨ f.unit = .wall unit) →
      point start f interval index + Span.minute ≤ point start f interval (index + 1) := by
    intro unit hunit
    have hminute := minute_le_unit hunit
    have hunits := unit_le_period hunit hinterval
    rw [point_succ_of_span start hunit]
    omega
  cases hunit : f.unit with
  | absolute unit => exact hspan (.inl hunit)
  | wall unit => exact hspan (.inr hunit)
  | months unit =>
    have hday := point_succ_of_months start hunit hinterval index
    rw [Span.day_eq] at hday
    rw [Span.minute_eq]
    omega

/-- A date is at least as many minutes later as its number says. -/
theorem point_add (hinterval : 0 < interval) (i n : Nat) :
    point start f interval i + n * Span.minute ≤ point start f interval (i + n) := by
  induction n with
  | zero => simp
  | succ n ih =>
    have h := point_succ start f hinterval (i + n)
    rw [Span.minute_eq] at *
    push_cast
    rw [← Nat.add_assoc]
    omega

/-- The dates are in the order of their numbers. -/
theorem point_strictMono (hinterval : 0 < interval) {i j : Nat} (hij : i < j) :
    point start f interval i < point start f interval j := by
  obtain ⟨n, rfl⟩ := Nat.exists_eq_add_of_lt hij
  have h := point_add start f hinterval i (n + 1)
  rw [Span.minute_eq] at h
  rw [Nat.add_assoc]
  push_cast at h
  omega

theorem point_mono (hinterval : 0 < interval) {i j : Nat} (hij : i ≤ j) :
    point start f interval i ≤ point start f interval j := by
  rcases Nat.eq_or_lt_of_le hij with rfl | h
  · exact le_rfl
  · exact le_of_lt (point_strictMono start f hinterval h)

theorem start_le_point (hinterval : 0 < interval) (index : Nat) :
    start.ticks ≤ point start f interval index := by
  rw [← point_zero start f interval]
  exact point_mono start f hinterval (Nat.zero_le _)

/-- A number of periods after which every rule has left the calendar. -/
theorem calendarEnd_le_point {index : Nat} (hinterval : 0 < interval)
    (h : 1440 * Calendar.dayCount ≤ index) : WallTime.calendarEnd ≤ point start f interval index := by
  have hle := point_add start f hinterval 0 index
  have hnonneg := start.nonneg
  have hend : WallTime.calendarEnd = (1440 * Calendar.dayCount : Nat) * Span.minute := rfl
  rw [Nat.zero_add, point_zero] at hle
  rw [hend]
  rw [Span.minute_eq] at *
  omega

/-! ## Occurrences -/

/-- What is left of a computation within the calendar: a moment on the universal
clock at the given point of time if the calendar has it, or else a fault that
ends the search. -/
def IsAt (point : Int) (x : Except Fault Moment) : Prop :=
  (∃ t : WallTime, t.ticks = point ∧ x = .ok (Moment.universal t)) ∨
    WallTime.calendarEnd ≤ point ∧ ∃ e : Fault, e.endsSearch ∧ x = .error e

theorem isAt_within {n : Int} (h : 0 ≤ n) :
    IsAt n (within ((WallTime.ofTicks? n).map Moment.universal)) := by
  cases ht : WallTime.ofTicks? n with
  | some t => exact .inl ⟨t, WallTime.ofTicks?_eq_some_iff.mp ht, rfl⟩
  | none =>
    refine .inr ⟨?_, .beyondCalendar, rfl, rfl⟩
    rcases WallTime.ofTicks?_eq_none_iff.mp ht with hneg | hend
    · omega
    · exact hend

/-- A span that leads beyond the spans also leads beyond the calendar. -/
theorem isAt_times {steps : Nat} {unit : Int} (hunit : 0 ≤ unit) :
    IsAt (start.ticks + steps * unit)
      (within ((Span.times? steps unit).bind (Moment.universal start).add?)) := by
  have hnonneg := start.nonneg
  have hsteps : 0 ≤ (steps : Int) * unit := Int.mul_nonneg (Int.natCast_nonneg _) hunit
  cases hspan : Span.times? steps unit with
  | some span =>
    obtain ⟨rfl, -⟩ := Span.times?_eq_some_iff.mp hspan
    exact isAt_within (by omega)
  | none =>
    refine .inr ⟨?_, .beyondCalendar, rfl, rfl⟩
    by_contra hlt
    unfold WallTime.calendarEnd at hlt
    rw [Span.times?_of_le hsteps (by omega)] at hspan
    cases hspan

/-- The months of the calendar are those before its last year is over. -/
theorem isAt_addMonths (count : Nat) :
    IsAt ((dayInMonth (start.date.monthNumber + count) start.date.day : Int) * Span.day +
      start.sinceMidnight) (addMonths (Moment.universal start) count) := by
  have hmonth := start.date_inMonth.twelve_le
  have htime := start.sinceMidnight_bounds
  have hn : 12 * start.date.year + (start.date.month - 1) + count =
      start.date.monthNumber + count := rfl
  unfold addMonths
  simp only [Moment.wall_universal, hn]
  generalize start.date.monthNumber + count = n at *
  split
  · next hyear =>
    have hstart : dayCount ≤ monthStart n := by
      rw [← monthStart_end]
      exact monthStart_mono (by decide) (by omega)
    have hday := (dayInMonth_bounds (show 12 ≤ n by omega) start.date.day).1
    refine .inr ⟨?_, ?_⟩
    · unfold WallTime.calendarEnd
      rw [Span.day_eq] at *
      omega
    · split
      · exact ⟨_, rfl, rfl⟩
      · exact ⟨_, rfl, rfl⟩
  · have hday : Date.dayNumber ⟨n / 12, n % 12 + 1, min start.date.day (daysIn (n / 12) (n % 12 + 1))⟩ =
        dayInMonth n start.date.day := rfl
    rw [hday]
    exact isAt_within (by rw [Span.day_eq] at *; omega)

/-- The occurrence with a number is at its date. -/
theorem isAt_occurrence {c : Component} {f : Frequency} (hf : c.freq = some f) (index : Nat) :
    IsAt (point start f c.interval index) (occurrence (Moment.universal start) c index) := by
  unfold occurrence
  rw [hf]
  cases hunit : f.unit with
  | absolute unit =>
    have hminute := minute_le_unit (.inl hunit)
    rw [Span.minute_eq] at hminute
    -- on the universal clock the way through universal time is the way on the wall
    have hway : ∀ x : Option Int, (do
        let from_ ← (Moment.universal start).universal?
        let span ← x
        let t ← from_.add? span
        t.on? (Moment.universal start).clock) = x.bind (Moment.universal start).add? := by
      intro x
      cases x with
      | none => rfl
      | some span =>
        show ((Moment.universal start).add? span).bind (·.on? Clock.universal) =
          (Moment.universal start).add? span
        rw [Moment.add?_universal]
        cases start.add? span <;> rfl
    simp only [point, hunit]
    rw [hway]
    exact isAt_times start (by omega)
  | wall unit =>
    have hminute := minute_le_unit (.inr hunit)
    rw [Span.minute_eq] at hminute
    simp only [point, hunit]
    exact isAt_times start (by omega)
  | months unit =>
    simp only [point, hunit]
    exact isAt_addMonths start _

/-! ## The estimate -/

/-- A quotient that is rounded down, by the multiples that it passes. -/
theorem le_fdiv_iff {n d p : Int} (hp : 0 < p) : n ≤ d.fdiv p ↔ n * p ≤ d := by
  rw [Int.fdiv_eq_ediv_of_nonneg _ (le_of_lt hp)]
  exact Int.le_ediv_iff_mul_le hp

/-- A number of months that the quotient passes is a whole period before the last month. -/
theorem months_passed {f : Frequency} {unit : Nat} (hunit : f.unit = .months unit)
    (hinterval : 0 < interval) {m n i : Nat}
    (hi : (i : Int) < ((n : Int) - m).fdiv (interval * unit : Nat)) :
    m + i * interval * unit + interval * unit ≤ n := by
  have hnext := (le_fdiv_iff (period_months_pos hunit hinterval)).mp (Int.add_one_le_iff.mpr hi)
  have hassoc : ((i : Int) + 1) * (interval * unit : Nat) =
      (i * interval * unit : Nat) + (interval * unit : Nat) := by
    push_cast
    ring
  omega

theorem period_of_hasSpan {f : Frequency} {unit : Int}
    (hunit : f.unit = .absolute unit ∨ f.unit = .wall unit) (hspan : HasSpan f interval) :
    Span.times? interval unit = some (interval * unit) := by
  unfold HasSpan at hspan
  have hsome : (Span.times? interval unit).isSome = true := by
    rcases hunit with hunit | hunit
    · rwa [hunit] at hspan
    · rwa [hunit] at hspan
  obtain ⟨period, hperiod⟩ := Option.isSome_iff_exists.mp hsome
  rw [hperiod, (Span.times?_eq_some_iff.mp hperiod).1]

section Estimate

variable {start now here : Moment} {c : Component} {f : Frequency} {unit period : Int}

/-- In minutes and hours the estimate is made in universal time. -/
theorem elapsedPeriods_absolute (hunit : f.unit = .absolute unit)
    (hperiod : Span.times? c.interval unit = some period) :
    elapsedPeriods start c f now = .ok ((now.since start).fdiv period) := by
  unfold elapsedPeriods
  rw [hunit]
  dsimp only
  rw [hperiod]
  rfl

/-- In days and weeks it is made on the wall. -/
theorem elapsedPeriods_wall (hunit : f.unit = .wall unit)
    (hperiod : Span.times? c.interval unit = some period) (hhere : now.on? start.clock = some here) :
    elapsedPeriods start c f now = .ok ((here.wall.ticks - start.wall.ticks).fdiv period) := by
  unfold elapsedPeriods
  rw [hunit]
  dsimp only
  rw [hhere, hperiod]
  rfl

/-- In months and years it is made by the numbers of the months. -/
theorem elapsedPeriods_months {unit : Nat} (hunit : f.unit = .months unit)
    (hhere : now.on? start.clock = some here) :
    elapsedPeriods start c f now = .ok (((here.wall.date.monthNumber : Int) -
      start.wall.date.monthNumber).fdiv (c.interval * unit : Nat)) := by
  unfold elapsedPeriods
  rw [hunit]
  dsimp only
  rw [hhere, ← start.wall.date_inMonth.months_between here.wall.date_inMonth]
  rfl

end Estimate

/-- The estimate of the periods that have passed: the dates with smaller numbers
are not after the moment. -/
theorem elapsedPeriods_spec {c : Component} {f : Frequency} (hinterval : 0 < c.interval)
    (hspan : HasSpan f c.interval) (now : WallTime) :
    ∃ elapsed, elapsedPeriods (Moment.universal start) c f (Moment.universal now) = .ok elapsed ∧
      ∀ i < elapsed.toNat, point start f c.interval i ≤ now.ticks := by
  -- a span is contained in what has passed as often as the quotient says
  have hdiv : ∀ {unit : Int}, (f.unit = .absolute unit ∨ f.unit = .wall unit) →
      ∀ i < ((now.ticks - start.ticks).fdiv (c.interval * unit)).toNat,
        point start f c.interval i ≤ now.ticks := by
    intro unit hunit i hi
    have hle := (le_fdiv_iff (n := i) (d := now.ticks - start.ticks)
      (period_pos hunit hinterval)).mp (by omega)
    rw [point_span start hunit]
    omega
  cases hunit : f.unit with
  | absolute unit =>
    have hperiod := period_of_hasSpan (.inl hunit) hspan
    exact ⟨_, elapsedPeriods_absolute hunit hperiod, hdiv (.inl hunit)⟩
  | wall unit =>
    have hperiod := period_of_hasSpan (.inr hunit) hspan
    exact ⟨_, elapsedPeriods_wall hunit hperiod rfl, hdiv (.inr hunit)⟩
  | months unit =>
    refine ⟨_, elapsedPeriods_months hunit rfl, fun i hi => ?_⟩
    have hmonth := start.date_inMonth.twelve_le
    have hperiod := period_months_pos hunit hinterval
    have hpassed : start.date.monthNumber + i * c.interval * unit + c.interval * unit ≤
        now.date.monthNumber := months_passed hunit hinterval (Int.lt_toNat.mp hi)
    exact le_of_lt ((liesIn_point start hunit c.interval i).lt now.liesIn_ticks (by omega)
      (by omega))

end Plain

end ScanPolicy
