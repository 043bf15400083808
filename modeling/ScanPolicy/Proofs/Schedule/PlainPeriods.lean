import Mathlib.Data.List.Nodup
import ScanPolicy.Proofs.Recurrence.Layout
import ScanPolicy.Proofs.Recurrence.RunDates
import ScanPolicy.Proofs.Recurrence.Settled
import ScanPolicy.Proofs.Schedule.Anchors

/-!
# Periods of rules without parts of their own

A rule that takes all its parts from its anchor has one date in each of its periods, and
this is the numbered date of the plain rule. Only the last week of the calendar may be
without one, if it is cut off before the weekday of the anchor.

- `Rule.TakesAll`: a rule that takes all its parts from its anchor;
  `Rule.takesAll_of_ofParts`: a rule to which only the second of its anchor is given.
- `Rule.IsNumbered`: the period of a numbered date; `Rule.TakesAll.dates_spec`: what it has.
- `Rule.TakesAll.nextPeriod_spec`: the next period is that of the next numbered date.
- `Rule.TakesAll.run_spec`: a run has the numbered dates in order.
-/

namespace ScanPolicy

/-- The time of day of a wall time, with no part of a second. -/
def WallTime.timeOfDay (t : WallTime) : TimeOfDay := ⟨t.hour, t.minute, t.second⟩

namespace WallTime

theorem timeOfDay_isValid (t : WallTime) : t.timeOfDay.IsValid := by
  obtain ⟨hhour, hminute, -⟩ := t.hour_minute_spec
  refine ⟨hhour, hminute, ?_⟩
  show ((t.sinceMidnight.fdiv Span.second).fmod 60).toNat < 60
  rw [Int.fmod_eq_emod_of_nonneg _ (by decide)]
  omega

/-- A whole second is its time of day after midnight. -/
theorem timeOfDay_ticks {t : WallTime} (h : t.ticks % Span.second = 0) :
    t.timeOfDay.ticks = t.sinceMidnight := by
  have hsplit := t.ticks_eq
  obtain ⟨h₀, h₁⟩ := t.sinceMidnight_bounds
  show (t.hour : Int) * Span.hour + (t.minute : Int) * Span.minute + (t.second : Int) * Span.second = _
  unfold hour minute second
  rw [Int.fdiv_eq_ediv_of_nonneg _ (by decide), Int.fdiv_eq_ediv_of_nonneg _ (by decide),
    Int.fdiv_eq_ediv_of_nonneg _ (by decide), Int.fmod_eq_emod_of_nonneg _ (by decide),
    Int.fmod_eq_emod_of_nonneg _ (by decide)]
  rw [Span.day_eq] at hsplit h₁
  rw [Span.second_eq] at h
  rw [Span.hour_eq, Span.minute_eq, Span.second_eq]
  omega

end WallTime

namespace Date

open Calendar

/-- The year and the month of a date, by the number of its month. -/
theorem InMonth.eq_of_monthNumber {d : Date} (h : d.InMonth) {y m : Nat} (hm : 1 ≤ m) (hm' : m ≤ 12)
    (hnumber : d.monthNumber = 12 * y + (m - 1)) : d.year = y ∧ d.month = m := by
  have hpos := h.month_pos
  have hle := h.month_le
  unfold monthNumber at hnumber
  omega

theorem year_of_mem_days {y day weekStart : Nat} (hy : 1 ≤ y)
    (h : day ∈ (Period.year y).days weekStart) : (ofDayNumber day).year = y := by
  obtain ⟨hlow, hhigh⟩ := List.mem_range'_1.mp h
  obtain ⟨hpos, hsum, hlt⟩ := yearOfDay_spec day
  have hsucc := daysBeforeYear_succ hpos
  have hnext := daysBeforeYear_succ hy
  show (yearOfDay day).1 = y
  refine le_antisymm (not_lt.mp fun h => ?_) (not_lt.mp fun h => ?_)
  · have := daysBeforeYear_mono (show 1 ≤ y + 1 by omega) h
    omega
  · have := daysBeforeYear_mono (show 1 ≤ (yearOfDay day).1 + 1 by omega) h
    omega

theorem monthNumber_of_mem_days {y m day weekStart : Nat} (hy : 1 ≤ y) (hm : 1 ≤ m) (hm' : m ≤ 12)
    (h : day ∈ (Period.month y m).days weekStart) :
    (ofDayNumber day).monthNumber = 12 * y + (m - 1) := by
  obtain ⟨hlow, hhigh⟩ := List.mem_range'_1.mp h
  obtain ⟨hstart, hend⟩ := monthStart_of_month hy hm hm'
  refine (ofDayNumber_inMonth day).monthNumber_eq (by omega) ?_ ?_
  · rw [dayNumber_ofDayNumber]
    omega
  · rw [dayNumber_ofDayNumber]
    omega

/-- A week has no weekday twice. -/
theorem weekday_eq_iff_of_mem_days {d weekStart day day' : Nat}
    (h : day ∈ (Period.week d).days weekStart) (h' : day' ∈ (Period.week d).days weekStart) :
    weekday day = weekday day' ↔ day = day' := by
  obtain ⟨hlow, hhigh⟩ := List.mem_range'_1.mp h
  obtain ⟨hlow', hhigh'⟩ := List.mem_range'_1.mp h'
  unfold weekday at *
  omega

end Date

namespace Rule

/-- A rule of which all parts are those of its anchor. -/
structure TakesAll (r : Rule) : Prop where
  positions : r.positions = []
  endMonthDays : r.endMonthDays = []
  yearDays : r.yearDays = []
  easters : r.easters = []
  weekNumbers : r.weekNumbers = []
  numbered : r.numberedWeekdays = []
  months : r.months = if r.freq = .yearly then [(r.anchor.wall.date.month : Int)] else []
  monthDays : r.monthDays =
    if r.freq.numbersWeekdays then [(r.anchor.wall.date.day : Int)] else []
  weekdays : r.weekdays = if r.freq = .weekly then [r.anchor.wall.weekday] else []
  hours : r.freq.isSubDaily → r.hours = []
  minutes : r.minutes = if r.freq = .minutely then [] else [(r.anchor.wall.minute : Int)]
  seconds : r.seconds = [(r.anchor.wall.second : Int)]
  dayTimes : ¬ r.freq.isSubDaily → r.dayTimes = [r.anchor.wall.timeOfDay]
  wholeSecond : r.anchor.wall.ticks % Span.second = 0

/-- Whether a period is that of a numbered date: it comes as many intervals after the period of the
anchor, and a week has begun by then. Only the first week may begin later than on its first day. -/
structure IsNumbered (r : Rule) (p : Period) (index : Nat) : Prop where
  fits : p.Fits r.freq
  number_eq : p.number r.weekStart =
    (Period.ofTime r.freq r.anchor.wall).number r.weekStart + index * r.interval
  begun : ∀ d, p = .week d →
    (d : Int) * Span.day ≤ Plain.point r.anchor.wall r.freq r.interval index

end Rule

/-- Parts of which only the second is given. -/
def Parts.ofSecond (second : Nat) : Parts := { seconds := some [(second : Int)] }

namespace Rule

theorem timesOf_singleton {h m s : Int} {t : TimeOfDay} (ht : TimeOfDay.check h m s = .ok t) :
    timesOf [h] [m] [s] = .ok [t] := by
  simp only [timesOf, List.mapM_cons, List.mapM_nil, ht]
  rfl

/-- The anchor has all parts of a rule to which only its second is given. -/
theorem takesAll_of_ofParts {f : Frequency} {anchor : Moment} {interval weekStart : Nat}
    {count : Option Nat} {bound : Option Moment} {r : Rule}
    (hwhole : anchor.wall.ticks % Span.second = 0)
    (h : ofParts f anchor interval weekStart count bound (.ofSecond anchor.wall.second) = .ok r) :
    r.TakesAll := by
  obtain ⟨-, hhours, hminutes, htimes, hr⟩ := ofParts_eq_ok_iff.mp h
  have hwall : anchor.wall.wholeSecond = anchor.wall := wholeSecond_eq hwhole
  have hday := anchor.wall.date_inMonth.day_pos
  have hfreq : r.freq = f := congrArg Rule.freq hr
  have hranchor : r.anchor.wall = anchor.wall := by
    rw [congrArg Rule.anchor hr]
    exact hwall
  have hmonths : r.months = monthsOf f anchor.wall.wholeSecond (.ofSecond anchor.wall.second) :=
    congrArg Rule.months hr
  have hdays : monthDaysOf f anchor.wall.wholeSecond (.ofSecond anchor.wall.second) =
      if f.numbersWeekdays then [(anchor.wall.wholeSecond.date.day : Int)] else [] := by
    cases f <;> rfl
  have hmonthDays : r.monthDays =
      (monthDaysOf f anchor.wall.wholeSecond (.ofSecond anchor.wall.second)).filter (0 < ·) :=
    congrArg Rule.monthDays hr
  have hendMonthDays : r.endMonthDays =
      (monthDaysOf f anchor.wall.wholeSecond (.ofSecond anchor.wall.second)).filter (· < 0) :=
    congrArg Rule.endMonthDays hr
  have hweekdays : r.weekdays = plainWeekdays f
      (weekdayPartsOf f anchor.wall.wholeSecond (.ofSecond anchor.wall.second)) :=
    congrArg Rule.weekdays hr
  have hseconds : r.seconds = [(anchor.wall.second : Int)] := congrArg Rule.seconds hr
  rw [hdays] at hmonthDays hendMonthDays
  rw [hwall] at hhours hminutes htimes hmonths hmonthDays hendMonthDays hweekdays
  constructor
  case positions => exact congrArg Rule.positions hr
  case yearDays => exact congrArg Rule.yearDays hr
  case easters => exact congrArg Rule.easters hr
  case weekNumbers => exact congrArg Rule.weekNumbers hr
  case wholeSecond => rw [hranchor, hwhole]
  case seconds => rw [hseconds, hranchor]
  case numbered =>
    refine (congrArg Rule.numberedWeekdays hr).trans ?_
    cases f <;> rfl
  case endMonthDays =>
    rw [hendMonthDays]
    split
    · exact List.filter_cons_of_neg (by simp)
    · rfl
  case monthDays =>
    rw [hmonthDays, hfreq, hranchor]
    split
    · exact List.filter_cons_of_pos (decide_eq_true (by omega))
    · rfl
  case months =>
    rw [hmonths, hfreq, hranchor]
    cases f <;> rfl
  case weekdays =>
    rw [hweekdays, hfreq, hranchor]
    cases f <;> rfl
  case hours =>
    intro hsub
    rw [← Except.ok.inj hhours, if_pos (hfreq ▸ hsub)]
  case minutes =>
    rw [← Except.ok.inj hminutes, hfreq, hranchor]
    cases f <;> rfl
  case dayTimes =>
    intro hsub
    rw [hfreq] at hsub
    have hlong : ¬ (f == .minutely) = true := by
      intro heq
      rw [beq_iff_eq] at heq
      exact hsub (heq ▸ rfl)
    unfold dayTimesOf at htimes
    rw [if_neg hsub, ← Except.ok.inj hhours, ← Except.ok.inj hminutes, if_neg hsub,
      if_neg hlong] at htimes
    rw [hranchor]
    refine Except.ok.inj (htimes.symm.trans (timesOf_singleton ?_))
    exact TimeOfDay.check_eq_ok_iff.mpr ⟨anchor.wall.timeOfDay_isValid, rfl, rfl, rfl⟩

/-! ## The day of a period -/

theorem filter_eq_singleton {days : List Nat} (hnodup : days.Nodup) {day : Nat} (hday : day ∈ days)
    {P : Nat → Bool} (hP : ∀ x ∈ days, P x = true ↔ x = day) : days.filter P = [day] := by
  rw [List.filter_congr (q := (· == day)) fun x hx => by rw [Bool.eq_iff_iff, hP x hx, beq_iff_eq],
    List.filter_beq, List.count_eq_one_of_mem hnodup hday]
  rfl

/-- The day of a time in a period is one of the days of the period, unless this is a week that begins
after it. -/
theorem mem_days_of_spans {f : Frequency} {p : Period} (hfits : p.Fits f) {weekStart : Nat}
    (hweek : weekStart < 7) {n : Int} (hnonneg : 0 ≤ n)
    (hspans : f.Spans weekStart (p.number weekStart) n)
    (hbegun : ∀ d, p = .week d → (d : Int) * Span.day ≤ n) :
    (n / Span.day).toNat ∈ p.days weekStart := by
  obtain ⟨hfirst, hlow, hhigh⟩ := hspans
  cases hfits with
  | @year y hpos hle =>
    have hsucc := Calendar.daysBeforeYear_succ hpos
    simp only [Frequency.startOf, Period.number] at hlow hhigh
    rw [Span.day_eq] at *
    exact List.mem_range'_1.mpr (by omega)
  | @month y m hpos hle hm hm' =>
    obtain ⟨hstart, hend⟩ := Date.monthStart_of_month hpos hm hm'
    simp only [Frequency.startOf, Period.number] at hlow hhigh
    rw [Span.day_eq] at *
    exact List.mem_range'_1.mpr (by omega)
  | @week d hd =>
    have hbegun := hbegun d rfl
    simp only [Frequency.startOf, Period.number] at hlow hhigh
    rw [Span.day_eq] at *
    refine List.mem_range'_1.mpr ?_
    unfold Date.weekday
    omega
  | @day d hd =>
    simp only [Frequency.startOf, Period.number] at hlow hhigh
    rw [Span.day_eq] at *
    exact List.mem_singleton.mpr (by omega)
  | @hour d h hd hh =>
    simp only [Frequency.startOf, Period.number] at hlow hhigh
    rw [Span.day_eq, Span.hour_eq] at *
    exact List.mem_singleton.mpr (by omega)
  | @minute d h m hd hh hm =>
    simp only [Frequency.startOf, Period.number] at hlow hhigh
    rw [Span.day_eq, Span.minute_eq] at *
    exact List.mem_singleton.mpr (by omega)

section Numbered

variable {r : Rule} (hr : r.IsComplete)

include hr

theorem point_nonneg (index : Nat) : 0 ≤ Plain.point r.anchor.wall r.freq r.interval index :=
  r.anchor.wall.nonneg.trans (Plain.start_le_point _ _ hr.interval_pos index)

/-- The period of a numbered date spans it. -/
theorem IsNumbered.spans {p : Period} {index : Nat} (hp : r.IsNumbered p index) :
    r.freq.Spans r.weekStart (p.number r.weekStart)
      (Plain.point r.anchor.wall r.freq r.interval index) := by
  rw [hp.number_eq]
  exact Plain.point_spans r.anchor.wall r.freq hr.weekStart_lt r.interval index

theorem isNumbered_firstPeriod : r.IsNumbered r.firstPeriod 0 := by
  rw [Rule.firstPeriod_eq]
  refine ⟨Period.ofTime_fits _ _, by rw [Nat.zero_mul, Nat.add_zero], fun d hd => ?_⟩
  have hle := Plain.start_le_point r.anchor.wall r.freq hr.interval_pos 0
  have hsplit := r.anchor.wall.ticks_eq
  have hbounds := r.anchor.wall.sinceMidnight_bounds
  generalize r.freq = g at hd hle ⊢
  cases g <;> cases hd
  omega

/-- A period that is made from its number begins before its numbered date. -/
theorem isNumbered_of_ofNumber {p : Period} {index : Nat} (hfits : p.Fits r.freq)
    (hnumber : p.number r.weekStart =
      (Period.ofTime r.freq r.anchor.wall).number r.weekStart + index * r.interval)
    (hp : p = Period.ofNumber r.freq r.weekStart (p.number r.weekStart)) :
    r.IsNumbered p index := by
  refine ⟨hfits, hnumber, fun d hd => ?_⟩
  have hnonneg := point_nonneg hr index
  have hstart := (Plain.point_spans r.anchor.wall r.freq hr.weekStart_lt r.interval index).start_le
  rw [← hnumber] at hstart
  generalize Plain.point r.anchor.wall r.freq r.interval index = n at *
  generalize p.number r.weekStart = number at *
  rw [hd] at hp
  generalize r.freq = f at *
  cases f <;> cases hp
  simp only [Frequency.startOf] at hstart
  rw [Span.day_eq] at *
  omega

end Numbered

namespace TakesAll

variable {r : Rule}

/-- A rule chooses the days with the weekday, the month or the day of the month of its anchor. -/
theorem choosesDay_iff (h : r.TakesAll) (f : YearFrame) (day : Nat) :
    r.choosesDay f day = true ↔
      (r.freq = .weekly → Date.weekday day = r.anchor.wall.weekday) ∧
      (r.freq = .yearly → (Date.ofDayNumber day).month = r.anchor.wall.date.month) ∧
      (r.freq.numbersWeekdays → (Date.ofDayNumber day).day = r.anchor.wall.date.day) := by
  unfold choosesDay choosesYearDay choosesDate
  rw [h.weekdays, h.months, h.monthDays, h.weekNumbers, h.numbered, h.easters, h.yearDays,
    h.endMonthDays]
  cases r.freq <;> simp [Frequency.numbersWeekdays]

/-- The day of a numbered date of months and years is that of one date, if every month has the day. -/
theorem exists_date_of_point (start : WallTime) {f : Frequency} {unit : Nat}
    (hunit : f.unit = .months unit) (hday : start.date.day ≤ 28) (interval index : Nat) :
    ∃ e : Date, e.InMonth ∧ e.monthNumber = start.date.monthNumber + index * interval * unit ∧
      e.day = start.date.day ∧ ∀ day, day = (Plain.point start f interval index / Span.day).toNat ↔
        Date.ofDayNumber day = e := by
  have hmonth : 12 ≤ start.date.monthNumber + index * interval * unit :=
    start.date_inMonth.twelve_le.trans (Nat.le_add_right _ _)
  have hpos := start.date_inMonth.day_pos
  have htime := start.sinceMidnight_bounds
  simp only [Plain.point, hunit]
  generalize start.date.monthNumber + index * interval * unit = month at *
  have hlength := (Calendar.monthLength_bounds month).1
  obtain ⟨e, he, hnumber, heday⟩ : ∃ e : Date, e.InMonth ∧ e.monthNumber = month ∧
      e.day = start.date.day := by
    refine ⟨⟨month / 12, month % 12 + 1, start.date.day⟩, ⟨?_, ?_, ?_, hpos, hday.trans hlength⟩, ?_, rfl⟩
    · show 1 ≤ month / 12
      omega
    · show 1 ≤ month % 12 + 1
      omega
    · show month % 12 + 1 ≤ 12
      omega
    · show 12 * (month / 12) + (month % 12 + 1 - 1) = month
      omega
  have hpoint : ((Plain.dayInMonth month start.date.day : Int) * Span.day + start.sinceMidnight) /
      Span.day = e.dayNumber := by
    rw [he.dayNumber_eq, hnumber, heday, Plain.dayInMonth, Nat.min_eq_left (hday.trans hlength)]
    rw [Span.day_eq] at *
    omega
  refine ⟨e, he, hnumber, heday, fun day => ?_⟩
  rw [hpoint, Int.toNat_natCast]
  constructor
  · rintro rfl
    exact Date.ofDayNumber_dayNumber he
  · intro heq
    rw [← heq, Date.dayNumber_ofDayNumber]

/-- The numbered dates of weeks have one weekday. -/
theorem weekday_point (start : WallTime) (interval index : Nat) :
    Date.weekday (Plain.point start .weekly interval index / Span.day).toNat = start.weekday := by
  have hticks := start.ticks_eq
  have htime := start.sinceMidnight_bounds
  have hpoint : Plain.point start .weekly interval index =
      start.ticks + (index * interval : Nat) * (7 * Span.day : Int) := rfl
  unfold WallTime.weekday Date.weekday
  rw [hpoint]
  rw [Span.day_eq] at *
  omega

/-- A rule chooses one day of a period, that of the numbered date. -/
theorem filter_days (h : r.TakesAll) (hr : r.IsComplete)
    (hday : r.freq.numbersWeekdays → r.anchor.wall.date.day ≤ 28) {p : Period} {index : Nat}
    (hp : r.IsNumbered p index) (f : YearFrame) :
    (p.days r.weekStart).filter (r.choosesDay f) =
      [(Plain.point r.anchor.wall r.freq r.interval index / Span.day).toNat] := by
  have hmem := mem_days_of_spans hp.fits hr.weekStart_lt (point_nonneg hr index) (hp.spans hr) hp.begun
  refine filter_eq_singleton ((days_sorted r.weekStart p).imp ne_of_lt) hmem fun day hin => ?_
  rw [h.choosesDay_iff]
  have hstart := r.anchor.wall.date_inMonth
  obtain ⟨hfits, hindex, -⟩ := hp
  generalize hfreq : r.freq = f at *
  cases hfits with
  | @year y hpos hle =>
    obtain ⟨e, he, hmonth, heday, hiff⟩ :=
      exists_date_of_point r.anchor.wall (f := .yearly) rfl (hday rfl) r.interval index
    have hindex : y = r.anchor.wall.date.year + index * r.interval := hindex
    obtain ⟨heyear, hemonth⟩ := he.eq_of_monthNumber (y := y) hstart.month_pos hstart.month_le
      (by unfold Date.monthNumber at *; omega)
    rw [hiff, Date.mk.injEq, Date.year_of_mem_days hpos hin, heyear, hemonth, heday]
    simp [Frequency.numbersWeekdays]
  | @month y m hpos hle hm hm' =>
    obtain ⟨e, he, hmonth, heday, hiff⟩ :=
      exists_date_of_point r.anchor.wall (f := .monthly) rfl (hday rfl) r.interval index
    have hindex : 12 * y + (m - 1) = r.anchor.wall.date.monthNumber + index * r.interval := hindex
    obtain ⟨heyear, hemonth⟩ := he.eq_of_monthNumber (y := y) hm hm' (by omega)
    obtain ⟨hyear, hmonth⟩ := (Date.ofDayNumber_inMonth day).eq_of_monthNumber hm hm'
      (Date.monthNumber_of_mem_days hpos hm hm' hin)
    rw [hiff, Date.mk.injEq, hyear, hmonth, heyear, hemonth, heday]
    simp [Frequency.numbersWeekdays]
  | @week d hd =>
    rw [← Date.weekday_eq_iff_of_mem_days hin hmem, weekday_point]
    simp [Frequency.numbersWeekdays]
  | @day d hd =>
    simp [Frequency.numbersWeekdays, List.mem_singleton.mp hin, List.mem_singleton.mp hmem]
  | @hour d h hd hh =>
    simp [Frequency.numbersWeekdays, List.mem_singleton.mp hin, List.mem_singleton.mp hmem]
  | @minute d h m hd hh hm =>
    simp [Frequency.numbersWeekdays, List.mem_singleton.mp hin, List.mem_singleton.mp hmem]

/-! ## The dates of a period -/

/-- Days and longer periods keep the time of day. -/
theorem point_emod_day (start : WallTime) {f : Frequency} (hf : ¬ f.isSubDaily)
    (interval index : Nat) : Plain.point start f interval index % Span.day = start.sinceMidnight := by
  have hticks := start.ticks_eq
  have htime := start.sinceMidnight_bounds
  have hweek : Span.week = 7 * Span.day := rfl
  cases f with
  | hourly => exact absurd rfl hf
  | minutely => exact absurd rfl hf
  | _ =>
    simp only [Plain.point, Frequency.unit, hweek]
    rw [Span.day_eq] at *
    omega

/-- A period has one time of day, that of the numbered date. -/
theorem timesIn_eq (h : r.TakesAll) {p : Period} {index : Nat} (hp : r.IsNumbered p index) :
    ∃ t : TimeOfDay, t.IsValid ∧ r.timesIn p = .ok [t] ∧
      Plain.point r.anchor.wall r.freq r.interval index % Span.day = t.ticks := by
  have hvalid := r.anchor.wall.timeOfDay_isValid
  have hticks := WallTime.timeOfDay_ticks h.wholeSecond
  have hlong : ∀ {q : Period}, ¬ r.freq.isSubDaily → r.timesIn q = .ok r.dayTimes →
      ∃ t : TimeOfDay, t.IsValid ∧ r.timesIn q = .ok [t] ∧
        Plain.point r.anchor.wall r.freq r.interval index % Span.day = t.ticks := by
    intro q hsub htimes
    rw [htimes, h.dayTimes hsub]
    exact ⟨_, hvalid, rfl, (point_emod_day _ hsub _ _).trans hticks.symm⟩
  have hsplit := r.anchor.wall.ticks_eq
  rw [← hticks] at hsplit
  have hhours := h.hours
  have hminutes := h.minutes
  obtain ⟨hfits, hindex, -⟩ := hp
  generalize hfreq : r.freq = f at *
  cases hfits with
  | year hpos hle => exact hlong (by decide) rfl
  | month hpos hle hm hm' => exact hlong (by decide) rfl
  | week hd => exact hlong (by decide) rfl
  | day hd => exact hlong (by decide) rfl
  | @hour d hour hd hh =>
    have hok : TimeOfDay.check hour r.anchor.wall.minute r.anchor.wall.second =
        .ok ⟨hour, r.anchor.wall.minute, r.anchor.wall.second⟩ :=
      TimeOfDay.check_eq_ok_iff.mpr ⟨⟨hh, hvalid.minute_lt, hvalid.second_lt⟩, rfl, rfl, rfl⟩
    refine ⟨⟨hour, r.anchor.wall.minute, r.anchor.wall.second⟩,
      ⟨hh, hvalid.minute_lt, hvalid.second_lt⟩, ?_, ?_⟩
    · unfold timesIn
      rw [hhours rfl, hminutes, h.seconds]
      exact timesOf_singleton hok
    · have hindex : 24 * d + hour = 24 * r.anchor.wall.dayNumber + r.anchor.wall.hour +
          index * r.interval := hindex
      have hminute := hvalid.minute_lt
      have hsecond := hvalid.second_lt
      simp only [Plain.point, Frequency.unit]
      dsimp only [TimeOfDay.ticks, WallTime.timeOfDay] at hsplit hminute hsecond ⊢
      rw [Span.day_eq, Span.hour_eq, Span.minute_eq, Span.second_eq] at *
      omega
  | @minute d hour minute hd hh hm =>
    have hok : TimeOfDay.check hour minute r.anchor.wall.second =
        .ok ⟨hour, minute, r.anchor.wall.second⟩ :=
      TimeOfDay.check_eq_ok_iff.mpr ⟨⟨hh, hm, hvalid.second_lt⟩, rfl, rfl, rfl⟩
    refine ⟨⟨hour, minute, r.anchor.wall.second⟩, ⟨hh, hm, hvalid.second_lt⟩, ?_, ?_⟩
    · unfold timesIn
      rw [hhours rfl, hminutes, h.seconds]
      exact timesOf_singleton hok
    · have hindex : 1440 * d + 60 * hour + minute = 1440 * r.anchor.wall.dayNumber +
          60 * r.anchor.wall.hour + r.anchor.wall.minute + index * r.interval := hindex
      have hsecond := hvalid.second_lt
      simp only [Plain.point, Frequency.unit]
      dsimp only [TimeOfDay.ticks, WallTime.timeOfDay] at hsplit hsecond ⊢
      rw [Span.day_eq, Span.hour_eq, Span.minute_eq, Span.second_eq] at *
      omega

/-- What a period has: the numbered date, or a fault in the last week of the calendar. -/
inductive HasPoint (point : Int) (weekly : Bool) : Dates → Prop
  | inside {t : WallTime} (ht : t.ticks = point) : HasPoint point weekly ⟨[t], none⟩
  | outside {e : Fault} (hend : WallTime.calendarEnd ≤ point) (hweekly : weekly = true)
      (he : e.endsSearch) : HasPoint point weekly ⟨[], some e⟩

/-- Only a week may go on after the calendar. -/
theorem startOf_succ_le {f : Frequency} {p : Period} (hp : p.Fits f) (hf : f ≠ .weekly)
    (weekStart : Nat) : f.startOf weekStart (p.number weekStart + 1) ≤ WallTime.calendarEnd := by
  unfold WallTime.calendarEnd
  cases hp with
  | @year y hpos hle =>
    have := Calendar.daysBeforeYear_mono (show 1 ≤ y + 1 by omega)
      (show y + 1 ≤ Calendar.lastYear + 1 by omega)
    have hend := Calendar.daysBeforeYear_lastYear_succ
    simp only [Frequency.startOf, Period.number]
    rw [Span.day_eq]
    omega
  | @month y m hpos hle hm hm' =>
    have := Calendar.monthStart_mono (show 12 ≤ 12 * y + (m - 1) + 1 by omega)
      (show 12 * y + (m - 1) + 1 ≤ 12 * (Calendar.lastYear + 1) by omega)
    have hend := Calendar.monthStart_end
    simp only [Frequency.startOf, Period.number]
    rw [Span.day_eq]
    omega
  | week hd => exact absurd rfl hf
  | day hd =>
    simp only [Frequency.startOf, Period.number]
    rw [Span.day_eq]
    omega
  | hour hd hh =>
    simp only [Frequency.startOf, Period.number]
    rw [Span.day_eq, Span.hour_eq]
    omega
  | minute hd hh hm =>
    simp only [Frequency.startOf, Period.number]
    rw [Span.day_eq, Span.minute_eq]
    omega

theorem exists_frame (h : r.TakesAll) (y m : Nat) : ∃ f, r.frame y m = .ok f := by
  rw [frame_eq h.numbered h.easters, h.weekNumbers]
  exact ⟨_, rfl⟩

/-- The date of a period is the numbered date. -/
theorem dates_spec (h : r.TakesAll) (hr : r.IsComplete)
    (hday : r.freq.numbersWeekdays → r.anchor.wall.date.day ≤ 28) {p : Period} {index : Nat}
    (hp : r.IsNumbered p index) (isFirst : Bool) :
    ∃ dates skips, r.dates p isFirst = .ok (dates, skips) ∧ (r.freq.isSubDaily → skips = false) ∧
      HasPoint (Plain.point r.anchor.wall r.freq r.interval index) (r.freq == .weekly) dates := by
  obtain ⟨t, hvalid, htimes, hticks⟩ := h.timesIn_eq hp
  have hnonneg := point_nonneg hr index
  obtain ⟨f, hframe⟩ := h.exists_frame p.yearMonth.1 p.yearMonth.2
  have hdates : r.datesIn f p [t] =
      (allDates [(Plain.point r.anchor.wall r.freq r.interval index / Span.day).toNat] [t],
        decide (1 < (p.days r.weekStart).length)) := by
    unfold datesIn
    dsimp only
    rw [h.filter_days hr hday hp f, h.positions]
    rfl
  refine ⟨_, _, dates_eq_ok_iff.mpr ⟨f, [t], hframe, htimes, hdates⟩, fun hsub => ?_, ?_⟩
  · have hfits := hp.fits
    generalize r.freq = g at hfits hsub
    cases hfits <;> first | rfl | cases hsub
  have hpoint : (((Plain.point r.anchor.wall r.freq r.interval index / Span.day).toNat : Nat) : Int) *
      Span.day + t.ticks = Plain.point r.anchor.wall r.freq r.interval index := by
    rw [Span.day_eq] at *
    omega
  have hin : (Plain.point r.anchor.wall r.freq r.interval index / Span.day).toNat < Calendar.dayCount ↔
      Plain.point r.anchor.wall r.freq r.interval index < WallTime.calendarEnd := by
    have hbounds := hvalid.ticks_bounds
    unfold WallTime.calendarEnd
    rw [Span.day_eq] at *
    omega
  unfold allDates
  split
  · next hlt =>
    obtain ⟨w, -, hw⟩ := WallTime.ofTicks?_isSome hnonneg (hin.mp hlt)
    have hdate := dateAt_eq_some_iff.mpr (hw.trans hpoint.symm)
    rw [List.filterMap_cons_some hdate, List.filterMap_nil]
    exact .inside hw
  · next hge =>
    have hend := not_lt.mp (mt hin.mpr hge)
    refine .outside hend ?_ rfl
    rw [beq_iff_eq]
    by_contra hweekly
    have hlast := startOf_succ_le hp.fits hweekly r.weekStart
    have hlt := (hp.spans hr).lt_end
    omega

/-- What was found in a period is the numbered date. -/
theorem hasPoint_of_dates (h : r.TakesAll) (hr : r.IsComplete)
    (hday : r.freq.numbersWeekdays → r.anchor.wall.date.day ≤ 28) {p : Period} {index : Nat}
    (hp : r.IsNumbered p index) {isFirst : Bool} {dates : Dates} {skips : Bool}
    (hfound : r.dates p isFirst = .ok (dates, skips)) :
    (r.freq.isSubDaily → skips = false) ∧
      HasPoint (Plain.point r.anchor.wall r.freq r.interval index) (r.freq == .weekly) dates := by
  obtain ⟨_, _, hdates, hskips, hpoint⟩ := h.dates_spec hr hday hp isFirst
  rw [hfound] at hdates
  cases hdates
  exact ⟨hskips, hpoint⟩

/-! ## Runs -/

theorem allowedNumber (h : r.TakesAll) (n : Nat) : r.AllowedNumber n := by
  have hhours := h.hours
  have hminutes := h.minutes
  unfold AllowedNumber
  split
  · next hf =>
    rw [hf] at hhours
    rw [hhours rfl]
    rfl
  · next hf =>
    rw [hf] at hhours hminutes
    unfold AllowedMinute
    rw [hhours rfl, hminutes]
    exact ⟨rfl, rfl⟩
  · trivial

/-- Every number is allowed, so that the search for the next period does not fail. -/
theorem nextPeriod_ne_failed (h : r.TakesAll) (hr : r.IsComplete) {p : Period} (hp : p.Fits r.freq)
    (skips : Bool) (e : Fault) : r.nextPeriod skips p ≠ .failed e := by
  intro hfailed
  have hspec := Rule.nextPeriod_spec hr hp skips
  rw [hfailed] at hspec
  cases hspec with
  | failed hnever =>
    have hstep := isNext_step (n := r.freq.baseOf r.interval skips (r.number p)) hr.interval_pos
      (h.allowedNumber _)
    exact absurd hstep.allowed (hnever _ hstep.lt hstep.mod_eq)

/-- The next period is that of the next numbered date, if the calendar still has it. -/
theorem nextPeriod_spec (h : r.TakesAll) (hr : r.IsComplete) {p : Period} {index : Nat}
    (hp : r.IsNumbered p index) {skips : Bool} (hskips : r.freq.isSubDaily → skips = false) :
    (r.nextPeriod skips p = .done ∧
      WallTime.calendarEnd ≤ Plain.point r.anchor.wall r.freq r.interval (index + 1)) ∨
    ∃ q, r.nextPeriod skips p = .more q ∧ r.IsNumbered q (index + 1) := by
  have hbase : r.freq.baseOf r.interval skips (p.number r.weekStart) = r.number p := by
    unfold Frequency.baseOf number
    split
    · next hf => rw [hskips (by rw [hf]; rfl), if_neg Bool.false_ne_true]
    · next hf => rw [hskips (by rw [hf]; rfl), if_neg Bool.false_ne_true]
    · rfl
  have hstep := isNext_step (n := r.number p) hr.interval_pos (h.allowedNumber _)
  have hlater : r.number p + r.interval =
      (Period.ofTime r.freq r.anchor.wall).number r.weekStart + (index + 1) * r.interval := by
    rw [number, hp.number_eq, Nat.add_mul, Nat.one_mul, Nat.add_assoc]
  have hspec := Rule.nextPeriod_spec hr hp.fits skips
  rw [hbase] at hspec
  cases hnext : r.nextPeriod skips p with
  | done =>
    rw [hnext] at hspec
    cases hspec with
    | done hfollows hout =>
      rw [hfollows.unique hstep, hlater] at hout
      exact .inl ⟨rfl, hout.trans
        (Plain.point_spans r.anchor.wall r.freq hr.weekStart_lt r.interval (index + 1)).start_le⟩
  | failed e => exact absurd hnext (h.nextPeriod_ne_failed hr hp.fits skips e)
  | more q =>
    obtain ⟨hfits, hfollows, hnumber⟩ := nextPeriod_more hr hp.fits hnext
    rw [show r.freq.baseOf r.interval skips (r.number p) = r.number p from hbase] at hfollows
    exact .inr ⟨q, rfl, isNumbered_of_ofNumber hr hfits ((hfollows.unique hstep).trans hlater) hnumber⟩

/-- From a period on a run has the numbered dates up to the end of the calendar. It breaks off only in
a week that goes on after the calendar. -/
theorem run_spec (h : r.TakesAll) (hr : r.IsComplete)
    (hday : r.freq.numbersWeekdays → r.anchor.wall.date.day ≤ 28) {cost : Nat} {p : Period}
    {isFirst : Bool} {ts : List WallTime} {fault : Option Fault}
    (hrun : r.Run cost p isFirst ts fault) {index : Nat} (hp : r.IsNumbered p index) :
    ts.map (·.ticks) =
        (List.range' index ts.length).map (Plain.point r.anchor.wall r.freq r.interval) ∧
      WallTime.calendarEnd ≤ Plain.point r.anchor.wall r.freq r.interval (index + ts.length) ∧
      ∀ e ∈ fault, e.endsSearch ∧ r.freq = .weekly ∧ r.freq.startOf r.weekStart
        ((Period.ofTime r.freq r.anchor.wall).number r.weekStart +
          (index + ts.length) * r.interval) < WallTime.calendarEnd := by
  -- each period has its own date, and the next one is that of the next number
  induction hrun generalizing index with
  | noDates hnone =>
    obtain ⟨dates, skips, hdates, -⟩ := h.dates_spec hr hday hp _
    rw [hnone] at hdates
    cases hdates
  | @broken p isFirst skips times e hbroken =>
    cases (h.hasPoint_of_dates hr hday hp hbroken).2 with
    | outside hend hweekly he =>
      refine ⟨rfl, hend, fun e' he' => ?_⟩
      cases he'
      refine ⟨he, beq_iff_eq.mp hweekly, ?_⟩
      rw [List.length_nil, Nat.add_zero, ← hp.number_eq]
      exact hp.fits.start_lt hr.weekStart_lt
  | @ended p isFirst skips times hfound hnext =>
    obtain ⟨hskips, hpoint⟩ := h.hasPoint_of_dates hr hday hp hfound
    rcases h.nextPeriod_spec hr hp hskips with ⟨-, hend⟩ | ⟨q, hq, -⟩
    · cases hpoint with
      | inside ht => exact ⟨congrArg (· :: []) ht, hend, fun e he => nomatch he⟩
    · rw [hnext] at hq
      cases hq
  | @stuck p isFirst skips times e hfound hnext =>
    obtain ⟨hskips, -⟩ := h.hasPoint_of_dates hr hday hp hfound
    rcases h.nextPeriod_spec hr hp hskips with ⟨hdone, -⟩ | ⟨q, hq, -⟩
    · rw [hnext] at hdone
      cases hdone
    · rw [hnext] at hq
      cases hq
  | @more p q isFirst skips times later cost fault hfound hnext rest ih =>
    obtain ⟨hskips, hpoint⟩ := h.hasPoint_of_dates hr hday hp hfound
    rcases h.nextPeriod_spec hr hp hskips with ⟨hdone, -⟩ | ⟨q', hq', hnumbered⟩
    · rw [hnext] at hdone
      cases hdone
    rw [hnext] at hq'
    cases hq'
    cases hpoint with
    | @inside t ht =>
      obtain ⟨hticks, hend, hfault⟩ := ih hnumbered
      have hlength : index + ([t] ++ later).length = index + 1 + later.length := by
        rw [List.length_append, List.length_singleton, Nat.add_assoc]
      rw [hlength]
      refine ⟨?_, hend, hfault⟩
      show t.ticks :: later.map (·.ticks) = _
      rw [List.length_append, List.length_singleton, Nat.add_comm 1, List.range'_succ, hticks, ht]
      rfl

end TakesAll

end Rule

end ScanPolicy
