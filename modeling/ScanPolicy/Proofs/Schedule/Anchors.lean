import ScanPolicy.Proofs.Moment.Utc
import ScanPolicy.Proofs.Outcome
import ScanPolicy.Proofs.Recurrence.Number
import ScanPolicy.Proofs.Schedule.PlainDates

/-!
# Anchors shortly before a moment

A rule is moved to one of the numbered dates of its start, so that it stays a whole number
of intervals away. The period of that date is over at the moment, as the estimate of the
passed periods is one more.

- `Plain.point_spans`: the period in which a numbered date lies.
- `Plain.elapsed_number`: the periods that have passed.
- `Plain.anchor_spec`: the anchor, in a schedule that is read in universal time.
-/

namespace ScanPolicy

/-! ## Periods of numbered dates -/

namespace Frequency

variable {f : Frequency} {weekStart n : Nat}

theorem startOf_add {unit : Int} (hunit : f.unit = .absolute unit ∨ f.unit = .wall unit)
    (weekStart n k : Nat) : f.startOf weekStart (n + k) = f.startOf weekStart n + k * unit := by
  have hweek : Span.week = 7 * Span.day := rfl
  cases f <;> rcases hunit with h | h <;> cases h <;> simp only [startOf, hweek] <;> push_cast <;> ring

theorem Spans.add {unit : Int} (hunit : f.unit = .absolute unit ∨ f.unit = .wall unit) {t : Int}
    (h : f.Spans weekStart n t) (k : Nat) : f.Spans weekStart (n + k) (t + k * unit) := by
  obtain ⟨hfirst, hstart, hend⟩ := h
  refine ⟨hfirst.trans (Nat.le_add_right _ _), ?_, ?_⟩
  · rw [startOf_add hunit]
    omega
  · rw [Nat.add_right_comm, startOf_add hunit]
    omega

end Frequency

namespace WallTime

theorem hour_eq (t : WallTime) : (t.hour : Int) = t.ticks / Span.hour % 24 := by
  have hpos := t.nonneg
  unfold hour sinceMidnight
  rw [Int.fmod_eq_emod_of_nonneg _ (by decide), Int.fdiv_eq_ediv_of_nonneg _ (by decide)]
  rw [Span.day_eq, Span.hour_eq]
  omega

theorem minute_eq (t : WallTime) : (t.minute : Int) = t.ticks / Span.minute % 60 := by
  have hpos := t.nonneg
  unfold minute sinceMidnight
  rw [Int.fmod_eq_emod_of_nonneg _ (by decide), Int.fdiv_eq_ediv_of_nonneg _ (by decide),
    Int.fmod_eq_emod_of_nonneg _ (by decide)]
  rw [Span.day_eq, Span.minute_eq]
  omega

end WallTime

/-- A dial that is turned by whole steps shows a number that is whole steps away. -/
theorem dial_phase (base interval index : Nat) (n : Int) :
    ((n + (index * interval : Nat)) % base - n % base) % (Nat.gcd interval base : Int) = 0 := by
  have hbase : (Nat.gcd interval base : Int) ∣ base :=
    Int.natCast_dvd_natCast.mpr (Nat.gcd_dvd_right interval base)
  have hsteps : (Nat.gcd interval base : Int) ∣ (index * interval : Nat) :=
    Int.natCast_dvd_natCast.mpr ((Nat.gcd_dvd_left interval base).mul_left index)
  have hturned := Int.emod_add_mul_ediv (n + (index * interval : Nat)) base
  have hdial := Int.emod_add_mul_ediv n base
  have hdiff : (n + (index * interval : Nat)) % base - n % base = (index * interval : Nat) -
      base * ((n + (index * interval : Nat)) / base - n / base) := by
    rw [mul_sub]
    omega
  rw [hdiff]
  exact Int.emod_eq_zero_of_dvd (Int.dvd_sub hsteps (hbase.mul_right _))

theorem Calendar.monthStart_year (y : Nat) : monthStart (12 * y) = daysBeforeYear y := by
  unfold monthStart
  rw [Nat.mul_div_cancel_left y (by decide), Nat.mul_mod_right, daysBeforeMonth_one, Nat.add_zero]

namespace Plain

open Calendar

variable (start : WallTime) (f : Frequency) {interval weekStart : Nat}

/-- A numbered date lies as many intervals after the period of the start as its number says. -/
theorem point_spans (hweek : weekStart < 7) (interval index : Nat) :
    f.Spans weekStart ((Period.ofTime f start).number weekStart + index * interval)
      (point start f interval index) := by
  have hstart := Period.ofTime_spans f hweek start
  have hspan : ∀ {unit : Int}, f.unit = .absolute unit ∨ f.unit = .wall unit →
      f.Spans weekStart ((Period.ofTime f start).number weekStart + index * interval)
        (point start f interval index) := by
    intro unit hunit
    have hpoint : point start f interval index = start.ticks + (index * interval : Nat) * unit := by
      rcases hunit with h | h <;> simp only [point, h]
    rw [hpoint]
    exact hstart.add hunit _
  have hmonth := start.date_inMonth
  have htwelve := hmonth.twelve_le
  have htime := start.sinceMidnight_bounds
  rw [Span.day_eq] at htime
  cases hunit : f.unit with
  | absolute unit => exact hspan (.inl hunit)
  | wall unit => exact hspan (.inr hunit)
  | months unit =>
    have hbounds := dayInMonth_bounds (show 12 ≤ start.date.monthNumber + index * interval * unit by omega)
      start.date.day
    cases f with
    | yearly =>
      cases hunit
      have hpos := hmonth.year_pos
      have hle := hmonth.month_le
      have hnumber : start.date.monthNumber + index * interval * 12 =
          12 * (start.date.year + index * interval) + (start.date.month - 1) := by
        unfold Date.monthNumber
        ring
      rw [hnumber] at hbounds
      have hlow := monthStart_mono (m := 12 * (start.date.year + index * interval)) (by omega)
        (Nat.le_add_right _ (start.date.month - 1))
      have hhigh := monthStart_mono
        (m := 12 * (start.date.year + index * interval) + (start.date.month - 1) + 1) (by omega)
        (show _ ≤ 12 * (start.date.year + index * interval + 1) by omega)
      rw [monthStart_year] at hlow hhigh
      refine ⟨?_, ?_, ?_⟩
      · show 1 ≤ start.date.year + index * interval
        omega
      · simp only [point, Frequency.unit, Frequency.startOf, Period.ofTime, Period.number]
        rw [hnumber, Span.day_eq]
        omega
      · simp only [point, Frequency.unit, Frequency.startOf, Period.ofTime, Period.number]
        rw [hnumber, Span.day_eq]
        omega
    | monthly =>
      cases hunit
      rw [Nat.mul_one] at hbounds
      refine ⟨?_, ?_, ?_⟩
      · show 12 ≤ start.date.monthNumber + index * interval
        omega
      · simp only [point, Frequency.unit, Frequency.startOf, Period.ofTime, Period.number, Nat.mul_one]
        rw [← Date.monthNumber, Span.day_eq]
        omega
      · simp only [point, Frequency.unit, Frequency.startOf, Period.ofTime, Period.number, Nat.mul_one]
        rw [← Date.monthNumber, Span.day_eq]
        omega
    | weekly => cases hunit
    | daily => cases hunit
    | hourly => cases hunit
    | minutely => cases hunit

variable {start f}

/-- As many intervals as the estimate says lie between the period of the start and the one of
the moment. -/
theorem elapsed_number (hweek : weekStart < 7) {c : Component} (hinterval : 0 < c.interval)
    {now : WallTime} {elapsed : Int}
    (h : elapsedPeriods (Moment.universal start) c f (Moment.universal now) = .ok elapsed)
    {i : Nat} (hi : (i : Int) ≤ elapsed) :
    (Period.ofTime f start).number weekStart + i * c.interval ≤
      (Period.ofTime f now).number weekStart := by
  have hspan : ∀ {unit : Int}, f.unit = .absolute unit ∨ f.unit = .wall unit →
      elapsed = (now.ticks - start.ticks).fdiv (c.interval * unit) →
      (Period.ofTime f start).number weekStart + i * c.interval ≤
        (Period.ofTime f now).number weekStart := by
    intro unit hunit helapsed
    have hle := (le_fdiv_iff (period_pos hunit hinterval)).mp (helapsed ▸ hi)
    refine (point_spans start f hweek c.interval i).le_of_le (Period.ofTime_spans f hweek now) ?_
    rw [point_span start hunit]
    omega
  unfold elapsedPeriods at h
  cases hunit : f.unit with
  | absolute unit =>
    simp only [hunit] at h
    obtain ⟨period, hperiod, h⟩ := bind_eq_ok_iff.mp h
    obtain ⟨rfl, -⟩ := Span.times?_eq_some_iff.mp (some_of_within hperiod)
    cases h
    exact hspan (.inl hunit) rfl
  | wall unit =>
    simp only [hunit] at h
    obtain ⟨here, hhere, h⟩ := bind_eq_ok_iff.mp h
    obtain ⟨period, hperiod, h⟩ := bind_eq_ok_iff.mp h
    obtain ⟨rfl, -⟩ := Span.times?_eq_some_iff.mp (some_of_within hperiod)
    cases hhere
    cases h
    exact hspan (.inr hunit) rfl
  | months unit =>
    simp only [hunit] at h
    obtain ⟨here, hhere, h⟩ := bind_eq_ok_iff.mp h
    cases hhere
    have hstart := start.date_inMonth
    have hnow := now.date_inMonth
    have hmonths : (i : Int) * (c.interval * unit : Nat) ≤
        ((now.date.year : Int) - (start.date.year : Int)) * 12 + (now.date.month : Int) -
          (start.date.month : Int) :=
      (le_fdiv_iff (period_months_pos hunit hinterval)).mp (Except.ok.inj h ▸ hi)
    have hassoc : (i : Int) * (c.interval * unit : Nat) = (i * c.interval : Nat) * (unit : Int) := by
      push_cast
      ring
    rw [hassoc] at hmonths
    generalize i * c.interval = steps at hmonths ⊢
    have := hstart.month_pos
    have := hstart.month_le
    have := hnow.month_pos
    have := hnow.month_le
    cases f with
    | yearly =>
      cases hunit
      show start.date.year + steps ≤ now.date.year
      omega
    | monthly =>
      cases hunit
      show 12 * start.date.year + (start.date.month - 1) + steps ≤
        12 * now.date.year + (now.date.month - 1)
      omega
    | weekly => cases hunit
    | daily => cases hunit
    | hourly => cases hunit
    | minutely => cases hunit

/-! ## The anchor -/

/-- The hours or the minutes of a numbered date are whole steps of the interval away from those of
the start. -/
theorem point_phase {t : WallTime} {index : Nat} (ht : t.ticks = point start f interval index) :
    (f = .hourly → ((t.hour : Int) - start.hour) % (Nat.gcd interval 24 : Int) = 0) ∧
      (f = .minutely → ((t.minute : Int) - start.minute) % (Nat.gcd interval 60 : Int) = 0) := by
  constructor
  · rintro rfl
    have hticks : t.ticks / Span.hour = start.ticks / Span.hour + (index * interval : Nat) := by
      rw [ht]
      exact Int.add_mul_ediv_right _ _ (by decide)
    rw [t.hour_eq, start.hour_eq, hticks]
    exact dial_phase 24 interval index _
  · rintro rfl
    have hticks : t.ticks / Span.minute = start.ticks / Span.minute + (index * interval : Nat) := by
      rw [ht]
      exact Int.add_mul_ediv_right _ _ (by decide)
    rw [t.minute_eq, start.minute_eq, hticks]
    exact dial_phase 60 interval index _

/-- A numbered date has no part of a second if the start has none. -/
theorem point_wholeSecond (hstart : start.ticks % Span.second = 0) (index : Nat) :
    point start f interval index % Span.second = 0 := by
  have hunit : ∀ {unit : Int}, f.unit = .absolute unit ∨ f.unit = .wall unit →
      unit % Span.second = 0 := by
    intro unit h
    cases f <;> rcases h with h | h <;> cases h <;> decide
  have hspan : ∀ {unit : Int}, unit % Span.second = 0 → ∀ steps : Nat,
      (start.ticks + steps * unit) % Span.second = 0 := by
    intro unit hunit steps
    exact Int.emod_eq_zero_of_dvd (Int.dvd_add (Int.dvd_of_emod_eq_zero hstart)
      ((Int.dvd_of_emod_eq_zero hunit).mul_left _))
  cases hf : f.unit with
  | absolute unit =>
    simp only [point, hf]
    exact hspan (hunit (.inl hf)) _
  | wall unit =>
    simp only [point, hf]
    exact hspan (hunit (.inr hf)) _
  | months unit =>
    have hticks := start.ticks_eq
    simp only [point, hf]
    rw [Span.day_eq] at *
    rw [Span.second_eq] at *
    omega

/-- What the anchor has from the start: it is a numbered date whose period is over at the moment. -/
structure IsAnchor (start : WallTime) (f : Frequency) (interval weekStart : Nat) (now anchor : WallTime) :
    Prop where
  number_eq : ∃ index, 0 < index ∧ (Period.ofTime f anchor).number weekStart =
    (Period.ofTime f start).number weekStart + index * interval
  isOver : (Period.ofTime f anchor).number weekStart < (Period.ofTime f now).number weekStart
  wholeSecond : anchor.ticks % Span.second = 0
  hour : f = .hourly → ((anchor.hour : Int) - start.hour) % (Nat.gcd interval 24 : Int) = 0
  minute : f = .minutely → ((anchor.minute : Int) - start.minute) % (Nat.gcd interval 60 : Int) = 0

/-- The occurrence before the last one that the estimate passes over is an anchor. -/
theorem anchor_spec (hweek : weekStart < 7) {c : Component} (hf : c.freq = some f)
    (hinterval : 0 < c.interval) (hstart : start.ticks % Span.second = 0) {now : WallTime}
    {elapsed : Int}
    (h : elapsedPeriods (Moment.universal start) c f (Moment.universal now) = .ok elapsed)
    (hindex : (elapsed - 1).toNat ≠ 0) :
    ∃ anchor : WallTime, occurrence (Moment.universal start) c (elapsed - 1).toNat =
      .ok (Moment.universal anchor) ∧ IsAnchor start f c.interval weekStart now anchor := by
  generalize hi : (elapsed - 1).toNat = index at hindex ⊢
  have hspans := point_spans start f hweek c.interval index
  have hnow := Period.ofTime_spans f hweek now
  have hnext := elapsed_number hweek hinterval h (i := index + 1) (by omega)
  have hover : (Period.ofTime f start).number weekStart + index * c.interval <
      (Period.ofTime f now).number weekStart := by
    rw [Nat.succ_mul] at hnext
    omega
  rcases isAt_occurrence start hf index with ⟨anchor, hanchor, hoccurrence⟩ | ⟨hend, -⟩
  · have hown := Period.ofTime_spans f hweek anchor
    rw [hanchor] at hown
    have hnumber := hown.unique hspans
    obtain ⟨hhour, hminute⟩ := point_phase hanchor
    refine ⟨anchor, hoccurrence, ⟨index, Nat.pos_of_ne_zero hindex, hnumber⟩, ?_, ?_, hhour, hminute⟩
    · rw [hnumber]
      exact hover
    · rw [hanchor]
      exact point_wholeSecond hstart index
  · have hlt := hspans.lt_of_lt hnow hover
    exact absurd (lt_of_le_of_lt hend (hlt.trans now.inCalendar)) (lt_irrefl _)

end Plain

end ScanPolicy
