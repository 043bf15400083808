import ScanPolicy.Recurrence.Period
import ScanPolicy.Proofs.Calendar.WallTime

/-!
# Numbers of periods

The periods of one frequency are numbered through the calendar: years and months
from year zero on, weeks from the first start of a week on, days, hours and minutes
from the first midnight on. A period with a number lasts from its start to the
start of the next one.

- `Period.number`: the number of a period.
- `Frequency.startOf`: the start of the period with a number.
- `Frequency.Spans`: the times of the period with a number; `spans_number_unique`,
  `Spans.lt_of_lt`.
- `Rule.firstPeriod_spans`: the anchor lies in its own period.
-/

namespace ScanPolicy

namespace Frequency

/-- The start of the period with a number, in microseconds. -/
def startOf (f : Frequency) (weekStart n : Nat) : Int :=
  match f with
  | yearly => (Calendar.daysBeforeYear n : Int) * Span.day
  | monthly => (Calendar.monthStart n : Int) * Span.day
  | weekly => (7 * (n : Int) + weekStart - 7) * Span.day
  | daily => (n : Int) * Span.day
  | hourly => (n : Int) * Span.hour
  | minutely => (n : Int) * Span.minute

/-- The number of the first period of the calendar. -/
def firstNumber : Frequency → Nat
  | yearly => 1
  | monthly => 12
  | _ => 0

/-- A period lasts at least a minute. -/
theorem startOf_succ (f : Frequency) (weekStart : Nat) {n : Nat} (hn : f.firstNumber ≤ n) :
    f.startOf weekStart n + Span.minute ≤ f.startOf weekStart (n + 1) := by
  cases f with
  | yearly =>
    have := Calendar.daysBeforeYear_strictMono hn (Nat.lt_add_one n)
    simp only [startOf]
    rw [Span.day_eq, Span.minute_eq]
    omega
  | monthly =>
    have := Calendar.monthStart_strictMono hn (Nat.lt_add_one n)
    simp only [startOf]
    rw [Span.day_eq, Span.minute_eq]
    omega
  | weekly =>
    simp only [startOf]
    rw [Span.day_eq, Span.minute_eq]
    omega
  | daily =>
    simp only [startOf]
    rw [Span.day_eq, Span.minute_eq]
    omega
  | hourly =>
    simp only [startOf]
    rw [Span.hour_eq, Span.minute_eq]
    omega
  | minutely =>
    simp only [startOf]
    rw [Span.minute_eq]
    omega

theorem startOf_lt (f : Frequency) (weekStart : Nat) {m n : Nat} (hm : f.firstNumber ≤ m)
    (hmn : m < n) : f.startOf weekStart m + Span.minute ≤ f.startOf weekStart n := by
  induction n, hmn using Nat.le_induction with
  | base => exact startOf_succ f weekStart hm
  | succ n hn ih =>
    have hstep := startOf_succ f weekStart (n := n) (by omega)
    rw [Span.minute_eq] at *
    omega

theorem startOf_mono (f : Frequency) (weekStart : Nat) {m n : Nat} (hm : f.firstNumber ≤ m)
    (hmn : m ≤ n) : f.startOf weekStart m ≤ f.startOf weekStart n := by
  rcases Nat.eq_or_lt_of_le hmn with rfl | h
  · exact le_rfl
  · have := startOf_lt f weekStart hm h
    rw [Span.minute_eq] at this
    omega

/-- The start of a period is a whole minute. -/
theorem startOf_wholeMinute (f : Frequency) (weekStart n : Nat) :
    f.startOf weekStart n % Span.minute = 0 := by
  cases f <;> simp only [startOf] <;> simp only [Span.day_eq, Span.hour_eq, Span.minute_eq] <;> omega

/-- Whether a point of time lies in the period with a number. -/
structure Spans (f : Frequency) (weekStart n : Nat) (t : Int) : Prop where
  number_ge : f.firstNumber ≤ n
  start_le : f.startOf weekStart n ≤ t
  lt_end : t < f.startOf weekStart (n + 1)

/-- Times of later periods are later. -/
theorem Spans.lt_of_lt {f : Frequency} {weekStart m n : Nat} {s t : Int}
    (hs : f.Spans weekStart m s) (ht : f.Spans weekStart n t) (hmn : m < n) : s < t :=
  lt_of_lt_of_le hs.lt_end (le_trans
    (startOf_mono f weekStart (Nat.le_trans hs.number_ge (Nat.le_succ m)) hmn) ht.start_le)

theorem Spans.le_of_le {f : Frequency} {weekStart m n : Nat} {s t : Int}
    (hs : f.Spans weekStart m s) (ht : f.Spans weekStart n t) (hst : s ≤ t) : m ≤ n := by
  by_contra hnm
  exact absurd (ht.lt_of_lt hs (not_le.mp hnm)) (not_lt.mpr hst)

/-- A time lies in one period. -/
theorem Spans.unique {f : Frequency} {weekStart m n : Nat} {t : Int}
    (hm : f.Spans weekStart m t) (hn : f.Spans weekStart n t) : m = n :=
  le_antisymm (hm.le_of_le hn le_rfl) (hn.le_of_le hm le_rfl)

end Frequency

namespace Period

/-- The number of a period; the days of a week that begins in the middle belong to
the same week as the whole one. -/
def number (weekStart : Nat) : Period → Nat
  | year y => y
  | month y m => 12 * y + (m - 1)
  | week d => (d + 7 - weekStart) / 7
  | day d => d
  | hour d h => 24 * d + h
  | minute d h m => 1440 * d + 60 * h + m

/-- A period of a frequency within the calendar. -/
inductive Fits : Frequency → Period → Prop
  | year {y : Nat} (hpos : 1 ≤ y) (hle : y ≤ Calendar.lastYear) : Fits .yearly (year y)
  | month {y m : Nat} (hpos : 1 ≤ y) (hle : y ≤ Calendar.lastYear) (hm : 1 ≤ m) (hm' : m ≤ 12) :
      Fits .monthly (month y m)
  | week {d : Nat} (hd : d < Calendar.dayCount) : Fits .weekly (week d)
  | day {d : Nat} (hd : d < Calendar.dayCount) : Fits .daily (day d)
  | hour {d h : Nat} (hd : d < Calendar.dayCount) (hh : h < 24) : Fits .hourly (hour d h)
  | minute {d h m : Nat} (hd : d < Calendar.dayCount) (hh : h < 24) (hm : m < 60) :
      Fits .minutely (minute d h m)

theorem Fits.firstNumber_le {f : Frequency} {p : Period} (h : Fits f p) {weekStart : Nat} :
    f.firstNumber ≤ p.number weekStart := by
  cases h <;> simp only [Frequency.firstNumber, number] <;> omega

/-- A period of the calendar starts within it. -/
theorem Fits.start_lt {f : Frequency} {p : Period} (h : Fits f p) {weekStart : Nat}
    (hweek : weekStart < 7) :
    f.startOf weekStart (p.number weekStart) < (Calendar.dayCount : Int) * Span.day := by
  have hend := Calendar.daysBeforeYear_lastYear_succ
  have hmonths := Calendar.monthStart_end
  cases h with
  | year hpos hle =>
    have := Calendar.daysBeforeYear_strictMono hpos (Nat.lt_add_one_of_le hle)
    simp only [Frequency.startOf, number]
    rw [Span.day_eq]
    omega
  | month hpos hle hm hm' =>
    rename_i y m
    have := Calendar.monthStart_strictMono (show 12 ≤ 12 * y + (m - 1) by omega)
      (show _ < 12 * (Calendar.lastYear + 1) by omega)
    simp only [Frequency.startOf, number]
    rw [Span.day_eq]
    omega
  | week hd =>
    simp only [Frequency.startOf, number]
    rw [Span.day_eq]
    omega
  | day hd =>
    simp only [Frequency.startOf, number]
    rw [Span.day_eq]
    omega
  | hour hd hh =>
    simp only [Frequency.startOf, number]
    rw [Span.day_eq, Span.hour_eq]
    omega
  | minute hd hh hm =>
    simp only [Frequency.startOf, number]
    rw [Span.day_eq, Span.minute_eq]
    omega

/-- The period of a frequency in which a wall time lies; a week begins with the day. -/
def ofTime (f : Frequency) (t : WallTime) : Period :=
  match f with
  | .yearly => .year t.date.year
  | .monthly => .month t.date.year t.date.month
  | .weekly => .week t.dayNumber
  | .daily => .day t.dayNumber
  | .hourly => .hour t.dayNumber t.hour
  | .minutely => .minute t.dayNumber t.hour t.minute

end Period

namespace WallTime

/-- The hour and the minute of a wall time. -/
theorem hour_minute_spec (t : WallTime) : t.hour < 24 ∧ t.minute < 60 ∧
    (t.hour : Int) * Span.hour + t.minute * Span.minute ≤ t.sinceMidnight ∧
    t.sinceMidnight < (t.hour : Int) * Span.hour + t.minute * Span.minute + Span.minute := by
  obtain ⟨h₀, h₁⟩ := t.sinceMidnight_bounds
  unfold hour minute
  rw [Int.fdiv_eq_ediv_of_nonneg _ (by decide), Int.fdiv_eq_ediv_of_nonneg _ (by decide),
    Int.fmod_eq_emod_of_nonneg _ (by decide)]
  rw [Span.day_eq] at h₁
  rw [Span.hour_eq, Span.minute_eq]
  omega

theorem year_bounds (t : WallTime) : 1 ≤ t.date.year ∧ t.date.year ≤ Calendar.lastYear := by
  have h := t.monthNumber_lt
  unfold Date.monthNumber at h
  exact ⟨t.date_inMonth.year_pos, by omega⟩

end WallTime

namespace Period

theorem ofTime_fits (f : Frequency) (t : WallTime) : Fits f (ofTime f t) := by
  obtain ⟨hy, hy'⟩ := t.year_bounds
  obtain ⟨hh, hm, -⟩ := t.hour_minute_spec
  have hmonth := t.date_inMonth
  cases f with
  | yearly => exact .year hy hy'
  | monthly => exact .month hy hy' hmonth.month_pos hmonth.month_le
  | weekly => exact .week t.dayNumber_lt
  | daily => exact .day t.dayNumber_lt
  | hourly => exact .hour t.dayNumber_lt hh
  | minutely => exact .minute t.dayNumber_lt hh hm

/-- A time lies in its period. -/
theorem ofTime_spans (f : Frequency) {weekStart : Nat} (hweek : weekStart < 7) (t : WallTime) :
    f.Spans weekStart ((ofTime f t).number weekStart) t.ticks := by
  have hticks := t.ticks_eq
  obtain ⟨h₀, h₁⟩ := t.sinceMidnight_bounds
  obtain ⟨hh, hm, hlow, hhigh⟩ := t.hour_minute_spec
  rw [Span.day_eq] at hticks h₁
  rw [Span.hour_eq, Span.minute_eq] at hlow hhigh
  refine ⟨(ofTime_fits f t).firstNumber_le, ?_, ?_⟩
  · cases f with
    | yearly =>
      obtain ⟨-, hsum, -⟩ := Date.yearOfDay_spec t.dayNumber
      simp only [Frequency.startOf, ofTime, number]
      rw [Span.day_eq, ← t.year_eq, WallTime.year]
      omega
    | monthly =>
      have hday := t.date_inMonth.dayNumber_bounds.1
      rw [t.date_dayNumber] at hday
      simp only [Frequency.startOf, ofTime, number]
      rw [Span.day_eq, ← Date.monthNumber]
      omega
    | weekly =>
      simp only [Frequency.startOf, ofTime, number]
      rw [Span.day_eq]
      omega
    | daily =>
      simp only [Frequency.startOf, ofTime, number]
      rw [Span.day_eq]
      omega
    | hourly =>
      simp only [Frequency.startOf, ofTime, number]
      rw [Span.hour_eq]
      omega
    | minutely =>
      simp only [Frequency.startOf, ofTime, number]
      rw [Span.minute_eq]
      omega
  · cases f with
    | yearly =>
      obtain ⟨hpos, hsum, hlt⟩ := Date.yearOfDay_spec t.dayNumber
      have hsucc := Calendar.daysBeforeYear_succ hpos
      simp only [Frequency.startOf, ofTime, number]
      rw [Span.day_eq, ← t.year_eq, WallTime.year]
      omega
    | monthly =>
      have hday := t.date_inMonth.dayNumber_bounds.2
      rw [t.date_dayNumber] at hday
      simp only [Frequency.startOf, ofTime, number]
      rw [Span.day_eq, ← Date.monthNumber]
      omega
    | weekly =>
      simp only [Frequency.startOf, ofTime, number]
      rw [Span.day_eq]
      omega
    | daily =>
      simp only [Frequency.startOf, ofTime, number]
      rw [Span.day_eq]
      omega
    | hourly =>
      simp only [Frequency.startOf, ofTime, number]
      rw [Span.hour_eq]
      omega
    | minutely =>
      simp only [Frequency.startOf, ofTime, number]
      rw [Span.minute_eq]
      omega

end Period

namespace Rule

theorem firstPeriod_eq (r : Rule) : r.firstPeriod = Period.ofTime r.freq r.anchor.wall := by
  unfold firstPeriod Period.ofTime
  cases r.freq <;> rfl

end Rule

end ScanPolicy
