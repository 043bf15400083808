import Mathlib.Tactic.IntervalCases
import ScanPolicy.Calendar.Date

/-!
# The day numbers of dates

Years and months as intervals of day numbers. Everything else about dates
follows from three facts: a year starts where the one before it ends, a month
starts where the one before it ends, and the date with a day number is found by
locating the number among these starts.

- `Calendar.daysBeforeYear_succ`, `Calendar.monthStart_succ`: where years and
  months end.
- `Date.yearOfDay_spec`, `Calendar.locate_spec`: locating a day number.
- `Date.dayNumber_ofDayNumber`, `Date.ofDayNumber_dayNumber`: dates and day
  numbers correspond.
- `Date.monthNumber_le_iff`: the order of days, by the numbers of their months.
-/

namespace ScanPolicy

namespace Calendar

/-! ## Years -/

theorem yearLength_eq (y : Nat) :
    yearLength y = 365 + (if y % 4 = 0 ∧ (y % 100 ≠ 0 ∨ y % 400 = 0) then 1 else 0) := by
  unfold yearLength isLeap
  by_cases h4 : y % 4 = 0 <;> by_cases h100 : y % 100 = 0 <;> by_cases h400 : y % 400 = 0 <;>
    simp [h4, h100, h400]

theorem yearLength_pos (y : Nat) : 0 < yearLength y := by
  rw [yearLength_eq]
  omega

/-- A year starts where the year before it ends. -/
theorem daysBeforeYear_succ {y : Nat} (hy : 1 ≤ y) :
    daysBeforeYear (y + 1) = daysBeforeYear y + yearLength y := by
  obtain ⟨n, rfl⟩ : ∃ n, y = n + 1 := ⟨y - 1, by omega⟩
  have h4 : (n + 1) / 4 = n / 4 + if (n + 1) % 4 = 0 then 1 else 0 := by split <;> omega
  have h100 : (n + 1) / 100 = n / 100 + if (n + 1) % 100 = 0 then 1 else 0 := by
    split <;> omega
  have h400 : (n + 1) / 400 = n / 400 + if (n + 1) % 400 = 0 then 1 else 0 := by
    split <;> omega
  have hle : n / 100 ≤ n / 4 := by omega
  -- a year is divisible by 4 if by 100, and by 100 if by 400
  have hdvd₁ : (n + 1) % 100 = 0 → (n + 1) % 4 = 0 := by omega
  have hdvd₂ : (n + 1) % 400 = 0 → (n + 1) % 100 = 0 := by omega
  rw [yearLength_eq]
  unfold daysBeforeYear
  simp only [Nat.add_sub_cancel]
  rw [h4, h100, h400]
  generalize n / 4 = a at *
  generalize n / 100 = b at *
  by_cases c4 : (n + 1) % 4 = 0 <;> by_cases c100 : (n + 1) % 100 = 0 <;>
    by_cases c400 : (n + 1) % 400 = 0 <;> simp [c4, c100, c400] at * <;> omega

theorem daysBeforeYear_strictMono {x y : Nat} (hx : 1 ≤ x) (hxy : x < y) :
    daysBeforeYear x < daysBeforeYear y := by
  induction y, hxy using Nat.le_induction with
  | base =>
    have := yearLength_pos x
    rw [daysBeforeYear_succ hx]
    omega
  | succ y hy ih =>
    have := yearLength_pos y
    rw [daysBeforeYear_succ (by omega)]
    omega

theorem daysBeforeYear_mono {x y : Nat} (hx : 1 ≤ x) (hxy : x ≤ y) :
    daysBeforeYear x ≤ daysBeforeYear y := by
  rcases Nat.eq_or_lt_of_le hxy with rfl | h
  · exact Nat.le_refl _
  · exact Nat.le_of_lt (daysBeforeYear_strictMono hx h)

/-- The calendar ends with its last year. -/
theorem daysBeforeYear_lastYear_succ : daysBeforeYear (lastYear + 1) = dayCount := by decide

/-! ## Months -/

theorem daysIn_pos {y m : Nat} (h₁ : 1 ≤ m) (h₂ : m ≤ 12) : 28 ≤ daysIn y m ∧ daysIn y m ≤ 31 := by
  unfold daysIn
  cases isLeap y <;> interval_cases m <;> decide

theorem daysBeforeMonth_one (y : Nat) : daysBeforeMonth y 1 = 0 := by
  unfold daysBeforeMonth
  cases isLeap y <;> rfl

theorem daysBeforeMonth_succ {y m : Nat} (h₁ : 1 ≤ m) (h₂ : m ≤ 12) :
    daysBeforeMonth y (m + 1) = daysBeforeMonth y m + daysIn y m := by
  unfold daysBeforeMonth daysIn
  cases isLeap y <;> interval_cases m <;> decide

theorem daysBeforeMonth_thirteen (y : Nat) : daysBeforeMonth y 13 = yearLength y := by
  unfold daysBeforeMonth yearLength
  cases isLeap y <;> rfl

/-- The day number of the first day of a month, months being numbered from
year zero on. -/
def monthStart (n : Nat) : Nat := daysBeforeYear (n / 12) + daysBeforeMonth (n / 12) (n % 12 + 1)

/-- The length of a month, months being numbered from year zero on. -/
def monthLength (n : Nat) : Nat := daysIn (n / 12) (n % 12 + 1)

theorem monthLength_bounds (n : Nat) : 28 ≤ monthLength n ∧ monthLength n ≤ 31 :=
  daysIn_pos (by omega) (by omega)

/-- A month starts where the month before it ends. -/
theorem monthStart_succ {n : Nat} (hn : 12 ≤ n) : monthStart (n + 1) = monthStart n + monthLength n := by
  unfold monthStart monthLength
  by_cases hdec : n % 12 = 11
  · have hy : (n + 1) / 12 = n / 12 + 1 := by omega
    have hm : (n + 1) % 12 = 0 := by omega
    have hlast : daysBeforeMonth (n / 12) 13 =
        daysBeforeMonth (n / 12) (11 + 1) + daysIn (n / 12) (11 + 1) :=
      daysBeforeMonth_succ (by decide) (by decide)
    rw [daysBeforeMonth_thirteen] at hlast
    rw [hy, hm, hdec, daysBeforeYear_succ (by omega), daysBeforeMonth_one]
    omega
  · have hy : (n + 1) / 12 = n / 12 := by omega
    have hm : (n + 1) % 12 = n % 12 + 1 := by omega
    rw [hy, hm, daysBeforeMonth_succ (m := n % 12 + 1) (by omega) (by omega)]
    omega

theorem monthStart_strictMono {m n : Nat} (hm : 12 ≤ m) (hmn : m < n) :
    monthStart m < monthStart n := by
  induction n, hmn using Nat.le_induction with
  | base =>
    have := (monthLength_bounds m).1
    rw [monthStart_succ hm]
    omega
  | succ n hn ih =>
    have := (monthLength_bounds n).1
    rw [monthStart_succ (by omega)]
    omega

theorem monthStart_mono {m n : Nat} (hm : 12 ≤ m) (hmn : m ≤ n) : monthStart m ≤ monthStart n := by
  rcases Nat.eq_or_lt_of_le hmn with rfl | h
  · exact Nat.le_refl _
  · exact Nat.le_of_lt (monthStart_strictMono hm h)

/-- The calendar ends with the last month of its last year. -/
theorem monthStart_end : monthStart (12 * (lastYear + 1)) = dayCount := by decide

/-! ## Locating a day -/

/-- Locating a day among month lengths: the month found is one of those, and
the days of the months before it and the day found add up. -/
theorem locate_spec (m : Nat) (lengths : List Nat) {d : Nat}
    (h : d < (lengths.foldr (· + ·) 0)) :
    ∃ k, (locate m lengths d).1 = m + k ∧ k < lengths.length ∧
      d = (lengths.take k).foldr (· + ·) 0 + ((locate m lengths d).2 - 1) ∧
      1 ≤ (locate m lengths d).2 ∧ (locate m lengths d).2 ≤ lengths.getD k 0 := by
  induction lengths generalizing m d with
  | nil => simp at h
  | cons len rest ih =>
    rw [locate]
    split
    · next hd => exact ⟨0, rfl, by simp, by simp, by simp, by simpa using Nat.succ_le_of_lt hd⟩
    · next hd =>
      rw [List.foldr_cons] at h
      obtain ⟨k, hk, hlt, hsum, hlow, hhigh⟩ := ih (m + 1) (d := d - len) (by omega)
      refine ⟨k + 1, by omega, by simpa using hlt, ?_, hlow, by simpa using hhigh⟩
      rw [List.take_succ_cons, List.foldr_cons]
      omega

end Calendar

namespace Date

open Calendar

/-- The days before a year, from the periods of 400, 100, 4 and 1 years that
have passed. -/
theorem daysBeforeYear_periods {c d f g : Nat} (hd : d ≤ 3) (hf : f ≤ 24) (hg : g ≤ 3) :
    daysBeforeYear (400 * c + 100 * d + 4 * f + g + 1) =
      146097 * c + 36524 * d + 1461 * f + 365 * g := by
  have h4 : (400 * c + 100 * d + 4 * f + g) / 4 = 100 * c + 25 * d + f := by omega
  have h100 : (400 * c + 100 * d + 4 * f + g) / 100 = 4 * c + d := by omega
  have h400 : (400 * c + 100 * d + 4 * f + g) / 400 = c := by omega
  unfold daysBeforeYear
  simp only [Nat.add_sub_cancel]
  rw [h4, h100, h400]
  omega

/-- A day number lies in its year. -/
theorem yearOfDay_spec (n : Nat) :
    1 ≤ (yearOfDay n).1 ∧ daysBeforeYear (yearOfDay n).1 + (yearOfDay n).2 = n ∧
      (yearOfDay n).2 < yearLength (yearOfDay n).1 := by
  unfold yearOfDay
  simp only
  generalize hc : n / 146097 = c
  generalize hr : n % 146097 = r
  generalize hd : min (r / 36524) 3 = d
  generalize hs : r - d * 36524 = s
  generalize hf : s / 1461 = f
  generalize ht : s % 1461 = t
  generalize hg : min (t / 365) 3 = g
  have hs₁ : s ≤ 36524 := by omega
  have hs₂ : d < 3 → s < 36524 := by omega
  have hf24 : f ≤ 24 := by omega
  rw [daysBeforeYear_periods (by omega) hf24 (by omega)]
  refine ⟨by omega, by omega, ?_⟩
  -- the day 365 is only reached in the last year of four, which is a leap year
  -- unless it ends one of the first three centuries of four
  by_cases hlast : t - g * 365 < 365
  · rw [yearLength_eq]
    omega
  · have hg3 : g = 3 := by omega
    have ht1460 : t = 1460 := by omega
    have hleap : f = 24 → d = 3 := by omega
    subst hg3 ht1460
    rw [yearLength_eq, if_pos (by omega)]
    omega

/-- The number of the month of a date, counted from year zero. -/
def monthNumber (d : Date) : Nat := 12 * d.year + (d.month - 1)

/-- A date whose month and day exist, in year 1 or later. -/
structure InMonth (d : Date) : Prop where
  year_pos : 1 ≤ d.year
  month_pos : 1 ≤ d.month
  month_le : d.month ≤ 12
  day_pos : 1 ≤ d.day
  day_le : d.day ≤ daysIn d.year d.month

theorem InMonth.monthStart_eq {d : Date} (h : d.InMonth) :
    monthStart d.monthNumber = daysBeforeYear d.year + daysBeforeMonth d.year d.month := by
  have := h.month_pos
  have := h.month_le
  have hy : d.monthNumber / 12 = d.year := by unfold monthNumber; omega
  have hm : d.monthNumber % 12 + 1 = d.month := by unfold monthNumber; omega
  rw [monthStart, hy, hm]

theorem InMonth.monthLength_eq {d : Date} (h : d.InMonth) :
    monthLength d.monthNumber = daysIn d.year d.month := by
  have := h.month_pos
  have := h.month_le
  have hy : d.monthNumber / 12 = d.year := by unfold monthNumber; omega
  have hm : d.monthNumber % 12 + 1 = d.month := by unfold monthNumber; omega
  rw [monthLength, hy, hm]

theorem InMonth.twelve_le {d : Date} (h : d.InMonth) : 12 ≤ d.monthNumber := by
  have := h.year_pos
  unfold monthNumber
  omega

/-- The days of a month are those from its start up to the start of the next one. -/
theorem monthStart_of_month {y m : Nat} (hy : 1 ≤ y) (hm : 1 ≤ m) (hm' : m ≤ 12) :
    monthStart (12 * y + (m - 1)) = daysBeforeYear y + daysBeforeMonth y m ∧
      monthStart (12 * y + (m - 1) + 1) = daysBeforeYear y + daysBeforeMonth y m + daysIn y m := by
  have hlen := (daysIn_pos (y := y) hm hm').1
  have hfirst : (Date.mk y m 1).InMonth := ⟨hy, hm, hm', le_rfl, by dsimp only; omega⟩
  have hsucc := monthStart_succ hfirst.twelve_le
  rw [hfirst.monthStart_eq, hfirst.monthLength_eq] at hsucc
  exact ⟨hfirst.monthStart_eq, hsucc⟩

/-- The months that the years and the months of two dates make. -/
theorem InMonth.months_between {d e : Date} (hd : d.InMonth) (he : e.InMonth) :
    ((e.year : Int) - (d.year : Int)) * 12 + (e.month : Int) - (d.month : Int) =
      e.monthNumber - d.monthNumber := by
  have := hd.month_pos
  have := he.month_pos
  unfold monthNumber
  omega

/-- The day number of a date lies in its month. -/
theorem InMonth.dayNumber_eq {d : Date} (h : d.InMonth) :
    d.dayNumber = monthStart d.monthNumber + (d.day - 1) := by
  rw [h.monthStart_eq]
  rfl

theorem InMonth.dayNumber_bounds {d : Date} (h : d.InMonth) :
    monthStart d.monthNumber ≤ d.dayNumber ∧ d.dayNumber < monthStart (d.monthNumber + 1) := by
  have hlen := h.monthLength_eq
  have := h.day_pos
  have := h.day_le
  rw [monthStart_succ h.twelve_le, h.dayNumber_eq]
  omega

/-- The date with a day number exists and has that day number. -/
theorem ofDayNumber_spec (n : Nat) : (ofDayNumber n).InMonth ∧ (ofDayNumber n).dayNumber = n := by
  obtain ⟨hpos, hsum, hlt⟩ := yearOfDay_spec n
  have htotal : (monthLengths (isLeap (yearOfDay n).1)).foldr (· + ·) 0 =
      yearLength (yearOfDay n).1 := by
    unfold yearLength
    cases isLeap (yearOfDay n).1 <;> rfl
  obtain ⟨k, hk, hlen, hday, hlow, hhigh⟩ :=
    locate_spec 1 (monthLengths (isLeap (yearOfDay n).1)) (by rw [htotal]; exact hlt)
  have hk12 : k < 12 := by
    revert hlen
    cases isLeap (yearOfDay n).1 <;> exact id
  have hfields : ofDayNumber n = ⟨(yearOfDay n).1,
      (locate 1 (monthLengths (isLeap (yearOfDay n).1)) (yearOfDay n).2).1,
      (locate 1 (monthLengths (isLeap (yearOfDay n).1)) (yearOfDay n).2).2⟩ := rfl
  rw [hfields, hk]
  refine ⟨⟨hpos, Nat.le_add_right _ _, by show 1 + k ≤ 12; omega, hlow, ?_⟩, ?_⟩
  · show _ ≤ daysIn _ (1 + k)
    rw [daysIn, Nat.add_sub_cancel_left]
    exact hhigh
  · rw [dayNumber, daysBeforeMonth]
    simp only [Nat.add_sub_cancel_left]
    omega

theorem ofDayNumber_inMonth (n : Nat) : (ofDayNumber n).InMonth := (ofDayNumber_spec n).1

theorem dayNumber_ofDayNumber (n : Nat) : (ofDayNumber n).dayNumber = n := (ofDayNumber_spec n).2

/-- The month of a day number is the one between whose first days it lies. -/
theorem InMonth.monthNumber_eq {d : Date} (h : d.InMonth) {m : Nat} (hm : 12 ≤ m)
    (h₁ : monthStart m ≤ d.dayNumber) (h₂ : d.dayNumber < monthStart (m + 1)) :
    d.monthNumber = m := by
  obtain ⟨hlow, hhigh⟩ := h.dayNumber_bounds
  have h12 := h.twelve_le
  rcases Nat.lt_trichotomy d.monthNumber m with hlt | heq | hlt
  · have := monthStart_mono (m := d.monthNumber + 1) (by omega) hlt
    omega
  · exact heq
  · have := monthStart_mono (m := m + 1) (by omega) hlt
    omega

/-- Dates are determined by their day numbers. -/
theorem InMonth.ext {d e : Date} (hd : d.InMonth) (he : e.InMonth)
    (h : d.dayNumber = e.dayNumber) : d = e := by
  have hmonth : d.monthNumber = e.monthNumber := by
    obtain ⟨h₁, h₂⟩ := he.dayNumber_bounds
    exact hd.monthNumber_eq he.twelve_le (h ▸ h₁) (h ▸ h₂)
  have hday : d.day = e.day := by
    have h₁ := hd.dayNumber_eq
    have h₂ := he.dayNumber_eq
    have := hd.day_pos
    have := he.day_pos
    rw [hmonth] at h₁
    omega
  have := hd.month_pos
  have := hd.month_le
  have := he.month_pos
  have := he.month_le
  cases d
  cases e
  simp only [monthNumber] at *
  simp only [Date.mk.injEq]
  omega

theorem ofDayNumber_dayNumber {d : Date} (h : d.InMonth) : ofDayNumber d.dayNumber = d :=
  (ofDayNumber_inMonth _).ext h (dayNumber_ofDayNumber _)

/-- The months of days are in the order of the days. -/
theorem monthNumber_mono {m n : Nat} (h : m ≤ n) :
    (ofDayNumber m).monthNumber ≤ (ofDayNumber n).monthNumber := by
  obtain ⟨hm, -⟩ := (ofDayNumber_inMonth m).dayNumber_bounds
  obtain ⟨-, hn⟩ := (ofDayNumber_inMonth n).dayNumber_bounds
  rw [dayNumber_ofDayNumber] at hm hn
  by_contra hlt
  have := monthStart_mono (m := (ofDayNumber n).monthNumber + 1)
    (by have := (ofDayNumber_inMonth n).twelve_le; omega) (Nat.lt_of_not_le hlt)
  omega

end Date

end ScanPolicy
