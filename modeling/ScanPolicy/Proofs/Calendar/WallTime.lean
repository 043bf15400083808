import ScanPolicy.Calendar.WallTime
import ScanPolicy.Proofs.Calendar.Date

/-!
# Wall times as days and times of day

A wall time is a day number and a number of microseconds since midnight; both
determine it, and the order of wall times is the order of days first.

- `Span.day_eq` and its companions: the spans as numbers.
- `WallTime.ticks_eq`: the day and the time of day of a wall time.
- `WallTime.ofTicks?_eq_some_iff`, `WallTime.ofTicks?_eq_none_iff`: which
  numbers are wall times.
- `Calendar.LiesIn`: the month of a point of time; `Calendar.LiesIn.lt` and
  `Calendar.LiesIn.add_day_lt` for points of two months.
-/

namespace ScanPolicy

namespace Span

theorem second_eq : second = 1000000 := rfl

theorem minute_eq : minute = 60000000 := rfl

theorem hour_eq : hour = 3600000000 := rfl

theorem day_eq : day = 86400000000 := rfl

/-- A number of units that is a span, or the fault that it is none. -/
theorem times?_eq_some_iff {count unit ticks : Int} :
    times? count unit = some ticks ↔
      ticks = count * unit ∧ -dayLimit ≤ ticks.fdiv day ∧ ticks.fdiv day ≤ dayLimit := by
  unfold times?
  simp only
  split
  · next h =>
    simp only [Bool.and_eq_true, decide_eq_true_eq] at h
    constructor
    · intro heq
      cases heq
      exact ⟨rfl, h⟩
    · rintro ⟨rfl, -⟩
      rfl
  · next h =>
    simp only [Bool.and_eq_true, decide_eq_true_eq] at h
    constructor
    · intro heq
      cases heq
    · rintro ⟨rfl, h'⟩
      exact absurd h' h

/-- What is not longer than the calendar is a span. -/
theorem times?_of_le {count unit : Int} (h₀ : 0 ≤ count * unit)
    (h₁ : count * unit < (Calendar.dayCount : Int) * day) :
    times? count unit = some (count * unit) := by
  refine times?_eq_some_iff.mpr ⟨rfl, ?_⟩
  generalize count * unit = ticks at *
  have hday : (Calendar.dayCount : Int) * day = 3652059 * 86400000000 := rfl
  rw [Int.fdiv_eq_ediv_of_nonneg _ (by decide), day_eq, dayLimit]
  rw [hday] at h₁
  omega

end Span

namespace WallTime

@[ext]
theorem ext {a b : WallTime} (h : a.ticks = b.ticks) : a = b := by
  cases a
  cases b
  cases h
  rfl

theorem ofTicks?_eq_some_iff {n : Int} {t : WallTime} : ofTicks? n = some t ↔ t.ticks = n := by
  constructor
  · exact ticks_of_ofTicks?
  · rintro rfl
    exact ofTicks?_ticks t

theorem ofTicks?_eq_none_iff {n : Int} :
    ofTicks? n = none ↔ n < 0 ∨ (Calendar.dayCount : Int) * Span.day ≤ n := by
  unfold ofTicks?
  split
  · next h => simp; omega
  · next h => simp; omega

theorem ofTicks?_isSome {n : Int} (h₀ : 0 ≤ n) (h₁ : n < (Calendar.dayCount : Int) * Span.day) :
    ∃ t, ofTicks? n = some t ∧ t.ticks = n :=
  ⟨⟨n, h₀, h₁⟩, by simp [ofTicks?, h₀, h₁], rfl⟩

/-! ## Day and time of day -/

theorem sinceMidnight_bounds (t : WallTime) :
    0 ≤ t.sinceMidnight ∧ t.sinceMidnight < Span.day := by
  unfold sinceMidnight
  rw [Int.fmod_eq_emod_of_nonneg _ (by decide), Span.day_eq]
  omega

/-- A wall time is its day and its time of day. -/
theorem ticks_eq (t : WallTime) :
    t.ticks = (t.dayNumber : Int) * Span.day + t.sinceMidnight := by
  have := t.nonneg
  unfold dayNumber sinceMidnight
  rw [Int.fdiv_eq_ediv_of_nonneg _ (by decide), Int.fmod_eq_emod_of_nonneg _ (by decide),
    Span.day_eq]
  omega

theorem dayNumber_lt (t : WallTime) : t.dayNumber < Calendar.dayCount := by
  have := t.ticks_eq
  have := t.sinceMidnight_bounds
  have := t.inCalendar
  rw [Span.day_eq] at *
  omega

/-! ## Dates -/

theorem date_inMonth (t : WallTime) : t.date.InMonth := Date.ofDayNumber_inMonth _

theorem date_dayNumber (t : WallTime) : t.date.dayNumber = t.dayNumber :=
  Date.dayNumber_ofDayNumber _

theorem year_eq (t : WallTime) : t.year = t.date.year := rfl

/-- The months of the calendar. -/
theorem monthNumber_lt (t : WallTime) : t.date.monthNumber < 12 * (Calendar.lastYear + 1) := by
  have hmonth := t.date_inMonth
  by_contra hle
  have h := Calendar.monthStart_mono (by decide) (Nat.le_of_not_lt hle)
  have hlow := hmonth.dayNumber_bounds.1
  have hlt := t.dayNumber_lt
  rw [Calendar.monthStart_end] at h
  rw [t.date_dayNumber] at hlow
  omega

end WallTime

/-! ## Months of points of time -/

namespace Calendar

/-- Whether a point of time lies in the month with a number. -/
def LiesIn (month : Nat) (t : Int) : Prop :=
  (monthStart month : Int) * Span.day ≤ t ∧ t < (monthStart (month + 1) : Int) * Span.day

section LiesIn

variable {m n : Nat} {s t : Int} (hs : LiesIn m s) (ht : LiesIn n t) (hm : 12 ≤ m)

include hs ht hm

theorem LiesIn.lt (hmn : m < n) : s < t := by
  have hmono := monthStart_mono (show 12 ≤ m + 1 by omega) hmn
  have hlast := hs.2
  have hfirst := ht.1
  rw [Span.day_eq] at *
  omega

/-- Between two months that do not follow each other there is a month, of 28 days at least. -/
theorem LiesIn.add_month_lt (hmn : m + 1 < n) : s + 28 * Span.day < t := by
  have hlength := (monthLength_bounds (m + 1)).1
  have hsucc := monthStart_succ (show 12 ≤ m + 1 by omega)
  have hmono := monthStart_mono (show 12 ≤ m + 1 + 1 by omega) hmn
  have hlast := hs.2
  have hfirst := ht.1
  rw [Span.day_eq] at *
  omega

theorem LiesIn.add_day_lt (hmn : m + 1 < n) : s + Span.day < t := by
  have hmonth := hs.add_month_lt ht hm hmn
  rw [Span.day_eq] at *
  omega

end LiesIn

/-- A point of time lies in one month only. -/
theorem LiesIn.unique {m n : Nat} {t : Int} (hs : LiesIn m t) (ht : LiesIn n t) (hm : 12 ≤ m)
    (hn : 12 ≤ n) : m = n :=
  le_antisymm (not_lt.mp fun h => lt_irrefl t (ht.lt hs hn h))
    (not_lt.mp fun h => lt_irrefl t (hs.lt ht hm h))

end Calendar

theorem WallTime.liesIn_ticks (t : WallTime) : Calendar.LiesIn t.date.monthNumber t.ticks := by
  have hbounds := t.date_inMonth.dayNumber_bounds
  have hticks := t.ticks_eq
  have htime := t.sinceMidnight_bounds
  rw [t.date_dayNumber] at hbounds
  unfold Calendar.LiesIn
  rw [Span.day_eq] at *
  omega

end ScanPolicy
