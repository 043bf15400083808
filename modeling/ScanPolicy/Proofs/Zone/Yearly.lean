import ScanPolicy.Zone.Basic
import ScanPolicy.Proofs.Calendar.WallTime

/-!
# Summer time by a yearly rule

The rule after the last transition of a zone counts summer time from a day of one month
to a day of another one, in every year. If both months are well within the year, neither
the year in which a time is read nor the fold is ambiguous near the turn of the year.

- `Zone.InYear`: the seconds of a year; `Zone.inYear_secondOf`.
- `YearlyMoment.seconds_bounds`: a yearly moment lies in its month.
- `Footer.IsCalm`: rules that change the offset twice a year, far from its ends.
- `Footer.keeps`: what the clock shows at a time is read as that time.
- `Footer.shows_in_order`: what the clock shows for the first time is later than all that
  it has shown before.
-/

namespace ScanPolicy

open Calendar

namespace Zone

/-! ## Years -/

/-- The seconds from the start of 1970 to a wall time. -/
def secondOf (t : WallTime) : Int := t.ticks.fdiv Span.second - epochSeconds

theorem secondOf_eq (t : WallTime) : secondOf t = t.ticks / 1000000 - epochSeconds := by
  unfold secondOf
  rw [Int.fdiv_eq_ediv_of_nonneg _ (by decide), Span.second_eq]

/-- The second at which a year starts. -/
def yearStart (year : Nat) : Int := (daysBeforeYear year : Int) * 86400 - epochSeconds

/-- The year in which a second lies. -/
def yearAt (second : Int) : Nat := (Date.yearOfDay ((second + epochSeconds) / 86400).toNat).1

/-- Whether a second lies in a year. -/
structure InYear (second : Int) (year : Nat) : Prop where
  pos : 1 ≤ year
  start_le : yearStart year ≤ second
  lt_end : second < yearStart (year + 1)

theorem inYear_secondOf (t : WallTime) : InYear (secondOf t) t.year := by
  obtain ⟨hpos, hsum, hlt⟩ := Date.yearOfDay_spec t.dayNumber
  have hticks := t.ticks_eq
  have hmidnight := t.sinceMidnight_bounds
  have hnext := daysBeforeYear_succ hpos
  have hyear : t.year = (Date.yearOfDay t.dayNumber).1 := rfl
  rw [← hyear] at hpos hsum hlt hnext
  rw [Span.day_eq] at hticks hmidnight
  refine ⟨hpos, ?_, ?_⟩
  · rw [secondOf_eq]
    unfold yearStart
    omega
  · rw [secondOf_eq]
    unfold yearStart
    omega

/-- The calendar ends with the year 9999. -/
theorem secondOf_lt (t : WallTime) : secondOf t < yearStart 10000 := by
  have hend := t.inCalendar
  have hdays : daysBeforeYear 10000 = dayCount := daysBeforeYear_lastYear_succ
  rw [secondOf_eq]
  unfold yearStart
  rw [hdays]
  rw [Span.day_eq] at hend
  omega

/-- A year has at least 365 days. -/
theorem yearStart_succ {year : Nat} (h : 1 ≤ year) :
    yearStart year + 365 * 86400 ≤ yearStart (year + 1) := by
  have hnext := daysBeforeYear_succ h
  have hlength := yearLength_eq year
  unfold yearStart
  split at hlength <;> omega

theorem yearStart_mono {x y : Nat} (hx : 1 ≤ x) (hxy : x ≤ y) : yearStart x ≤ yearStart y := by
  have := daysBeforeYear_mono hx hxy
  unfold yearStart
  omega

/-- Seconds that are less than a year apart lie in one year or in two successive ones. -/
theorem InYear.near {a b : Int} {x y : Nat} (ha : InYear a x) (hb : InYear b y)
    (h : b < a + 365 * 86400) : y ≤ x + 1 := by
  by_contra hlt
  have h₁ : yearStart (x + 1) + 365 * 86400 ≤ yearStart (x + 1 + 1) := yearStart_succ (by omega)
  have h₂ := yearStart_mono (x := x + 1 + 1) (y := y) (by omega) (by omega)
  have h₃ := ha.lt_end
  have h₄ := hb.start_le
  omega

theorem InYear.mono {a b : Int} {x y : Nat} (ha : InYear a x) (hb : InYear b y) (h : a ≤ b) :
    x ≤ y := by
  by_contra hlt
  have h₁ := yearStart_mono (x := y + 1) (y := x) (by omega) (by omega)
  have h₂ := ha.start_le
  have h₃ := hb.lt_end
  omega

end Zone

/-! ## Yearly moments -/

/-- Whether a yearly moment lies between the first and the last month, on an existing day. -/
structure YearlyMoment.IsInner (m : YearlyMoment) : Prop where
  month_low : 2 ≤ m.month
  month_high : m.month ≤ 11
  week_pos : 1 ≤ m.week
  week_le : m.week ≤ 5
  weekday_lt : m.weekday < 7
  time_nonneg : 0 ≤ m.time
  time_le : m.time ≤ 86400

instance (m : YearlyMoment) : Decidable m.IsInner :=
  decidable_of_iff (2 ≤ m.month ∧ m.month ≤ 11 ∧ 1 ≤ m.week ∧ m.week ≤ 5 ∧ m.weekday < 7 ∧
    0 ≤ m.time ∧ m.time ≤ 86400)
    ⟨fun h => ⟨h.1, h.2.1, h.2.2.1, h.2.2.2.1, h.2.2.2.2.1, h.2.2.2.2.2.1, h.2.2.2.2.2.2⟩,
      fun h => ⟨h.1, h.2, h.3, h.4, h.5, h.6, h.7⟩⟩

namespace YearlyMoment

variable {m : YearlyMoment}

/-- The day of a yearly moment lies in its month. -/
theorem dayNumber_bounds (h : m.IsInner) {year : Nat} (hyear : 1 ≤ year) :
    monthStart (12 * year + (m.month - 1)) ≤ m.dayNumber year ∧
      m.dayNumber year < monthStart (12 * year + (m.month - 1) + 1) := by
  have hlow := h.month_low
  have hhigh := h.month_high
  have hmonth : 1 ≤ m.month := by omega
  have hmonth' : m.month ≤ 12 := by omega
  have hdays := daysIn_pos (y := year) hmonth hmonth'
  have hfirst : (⟨year, m.month, 1⟩ : Date).InMonth :=
    ⟨hyear, hmonth, hmonth', le_rfl, show 1 ≤ daysIn year m.month by omega⟩
  have hday : Date.dayNumber ⟨year, m.month, 1⟩ = monthStart (12 * year + (m.month - 1)) :=
    hfirst.dayNumber_eq
  have hlength : monthLength (12 * year + (m.month - 1)) = daysIn year m.month :=
    hfirst.monthLength_eq
  have hsucc := monthStart_succ (n := 12 * year + (m.month - 1)) (by omega)
  have hweek := h.week_pos
  have hweek' := h.week_le
  have hweekday := h.weekday_lt
  unfold dayNumber
  dsimp only
  rw [hday, hsucc, hlength]
  generalize (Date.weekday (monthStart (12 * year + (m.month - 1))) + 1) % 7 = firstWeekday
  split <;> omega

/-- A yearly moment is at least thirty days after the start of its year and before the end of it. -/
theorem seconds_bounds (h : m.IsInner) {year : Nat} (hyear : 1 ≤ year) :
    Zone.yearStart year + 30 * 86400 ≤ m.seconds year ∧
      m.seconds year + 30 * 86400 ≤ Zone.yearStart (year + 1) := by
  obtain ⟨hlow, hhigh⟩ := dayNumber_bounds h hyear
  have hmonth := h.month_low
  have hmonth' := h.month_high
  have htime := h.time_nonneg
  have htime' := h.time_le
  have hjanuary : monthStart (12 * year) = daysBeforeYear year := by
    unfold monthStart
    rw [show 12 * year / 12 = year by omega, show 12 * year % 12 + 1 = 1 by omega,
      daysBeforeMonth_one, Nat.add_zero]
  have hlength := (monthLength_bounds (12 * year)).1
  have hlength' := (monthLength_bounds (12 * year + 11)).1
  have hfebruary := monthStart_succ (n := 12 * year) (by omega)
  have hdecember := monthStart_succ (n := 12 * year + 11) (by omega)
  have hnext : monthStart (12 * year + 11 + 1) = daysBeforeYear (year + 1) := by
    unfold monthStart
    rw [show (12 * year + 11 + 1) / 12 = year + 1 by omega,
      show (12 * year + 11 + 1) % 12 + 1 = 1 by omega, daysBeforeMonth_one, Nat.add_zero]
  have hfrom := monthStart_mono (m := 12 * year + 1) (n := 12 * year + (m.month - 1)) (by omega)
    (by omega)
  have hto := monthStart_mono (m := 12 * year + (m.month - 1) + 1) (n := 12 * year + 11) (by omega)
    (by omega)
  have h31 : monthLength (12 * year) = 31 := by
    unfold monthLength
    rw [show 12 * year % 12 + 1 = 1 by omega]
    unfold daysIn monthLengths
    split <;> rfl
  have h31' : monthLength (12 * year + 11) = 31 := by
    unfold monthLength
    rw [show (12 * year + 11) % 12 + 1 = 12 by omega]
    unfold daysIn monthLengths
    split <;> rfl
  unfold seconds Zone.yearStart
  constructor <;> omega

/-- Of two yearly moments with a month between them the second one is at least 27 days later. -/
theorem seconds_lt {n : YearlyMoment} (hm : m.IsInner) (hn : n.IsInner) (h : m.month + 2 ≤ n.month)
    {year : Nat} (hyear : 1 ≤ year) : m.seconds year + 27 * 86400 ≤ n.seconds year := by
  have hm' := dayNumber_bounds hm hyear
  have hn' := dayNumber_bounds hn hyear
  have hlow := hm.month_low
  have htime := hm.time_le
  have htime' := hn.time_nonneg
  have hlength := (monthLength_bounds (12 * year + (m.month - 1) + 1)).1
  have hsucc := monthStart_succ (n := 12 * year + (m.month - 1) + 1) (by omega)
  have hmono := monthStart_mono (m := 12 * year + (m.month - 1) + 1 + 1)
    (n := 12 * year + (n.month - 1)) (by omega) (by omega)
  unfold seconds
  omega

end YearlyMoment

namespace Zone

/-! ## The rule -/

/-- Whether an offset lies in the day of offsets that starts at `low`. -/
def Within (low offset : Int) : Prop := low ≤ offset ∧ offset < low + 86400

instance (low offset : Int) : Decidable (Within low offset) := inferInstanceAs (Decidable (_ ∧ _))

end Zone

namespace Footer

/-- Whether a rule has offsets of the day that starts at `low`, and changes them between months that
are within the year and not next to each other. -/
def IsCalm (low : Int) : Footer → Prop
  | .steady offset => Zone.Within low offset
  | .yearly standard summer start finish =>
    Zone.Within low standard ∧ Zone.Within low summer ∧ standard < summer ∧ start.IsInner ∧
      finish.IsInner ∧ (start.month + 2 ≤ finish.month ∨ finish.month + 2 ≤ start.month)

instance (low : Int) (footer : Footer) : Decidable (footer.IsCalm low) := by
  cases footer <;> exact inferInstanceAs (Decidable (_ ∧ _))

end Footer

namespace Zone

theorem inPeriod_iff {start finish time : Int} : inPeriod start finish time = true ↔
    (start < finish ∧ start ≤ time ∧ time < finish) ∨
      (finish ≤ start ∧ (time < finish ∨ start ≤ time)) := by
  unfold inPeriod
  split
  · simp only [Bool.and_eq_true, decide_eq_true_eq]
    omega
  · simp only [Bool.or_eq_true, decide_eq_true_eq]
    omega

variable {standard summer : Int} {start finish : YearlyMoment}

/-- The offset of a yearly rule at a time, and whether the hour that is shown then is repeated. -/
theorem footerOfUniversal_yearly (hgain : standard < summer) (instant : Int) (year : Nat) :
    footerOfUniversal (.yearly standard summer start finish) instant year =
      (if inPeriod (start.seconds year - standard) (finish.seconds year - summer) instant then summer
        else standard,
      decide (finish.seconds year - summer ≤ instant ∧ instant < finish.seconds year - standard)) := by
  unfold footerOfUniversal
  dsimp only
  rw [if_pos (show 0 < summer - standard by omega)]
  refine Prod.ext rfl ?_
  show (decide _ && decide _) = _
  rw [← Bool.decide_and]
  exact decide_eq_decide.mpr (by omega)

theorem footerOffset_yearly (hgain : standard < summer) (fold : Bool) (wall : Int) (year : Nat) :
    footerOffset (.yearly standard summer start finish) fold wall year =
      if (fold = true ∧
            inPeriod (start.seconds year) (finish.seconds year - (summer - standard)) wall = true) ∨
          (fold = false ∧
            inPeriod (start.seconds year + (summer - standard)) (finish.seconds year) wall = true)
        then summer else standard := by
  unfold footerOffset
  dsimp only
  rw [decide_eq_true (show 0 ≤ summer - standard by omega)]
  cases fold
  · simp
  · simp

end Zone

namespace Footer

open Zone

variable {low instant : Int} {footer : Footer} {year : Nat}

/-- The offsets of a calm rule are those of one day. -/
theorem IsCalm.within (h : footer.IsCalm low) (instant : Int) (year : Nat) :
    Within low (footerOfUniversal footer instant year).1 := by
  cases footer with
  | steady offset => exact h
  | yearly standard summer start finish =>
    obtain ⟨hstandard, hsummer, hgain, -⟩ := h
    rw [footerOfUniversal_yearly hgain]
    dsimp only
    split
    · exact hsummer
    · exact hstandard

theorem IsCalm.within_footerOffset (h : footer.IsCalm low) (fold : Bool) (wall : Int) (year : Nat) :
    Within low (footerOffset footer fold wall year) := by
  cases footer with
  | steady offset => exact h
  | yearly standard summer start finish =>
    obtain ⟨hstandard, hsummer, hgain, -⟩ := h
    rw [footerOffset_yearly hgain]
    split
    · exact hsummer
    · exact hstandard

/-- The moments of a calm yearly rule lie within their year, four weeks apart. -/
theorem IsCalm.seconds {standard summer : Int} {start finish : YearlyMoment}
    (h : (Footer.yearly standard summer start finish).IsCalm low) {year : Nat} (hyear : 1 ≤ year) :
    (yearStart year + 30 * 86400 ≤ start.seconds year ∧
      start.seconds year + 30 * 86400 ≤ yearStart (year + 1)) ∧
    (yearStart year + 30 * 86400 ≤ finish.seconds year ∧
      finish.seconds year + 30 * 86400 ≤ yearStart (year + 1)) ∧
    (start.month + 2 ≤ finish.month ∧ start.seconds year + 27 * 86400 ≤ finish.seconds year ∨
      finish.month + 2 ≤ start.month ∧ finish.seconds year + 27 * 86400 ≤ start.seconds year) := by
  obtain ⟨-, -, -, hstart, hfinish, horder⟩ := h
  refine ⟨YearlyMoment.seconds_bounds hstart hyear, YearlyMoment.seconds_bounds hfinish hyear, ?_⟩
  rcases horder with h | h
  · exact .inl ⟨h, YearlyMoment.seconds_lt hstart hfinish h hyear⟩
  · exact .inr ⟨h, YearlyMoment.seconds_lt hfinish hstart h hyear⟩

/-- What the clock shows by a calm rule is read as the time at which it is shown. -/
theorem keeps (h : footer.IsCalm low) (hlow : -86400 ≤ low ∧ low ≤ 0) (hyear : InYear instant year)
    {wallYear : Nat} (hwall : InYear (instant + (footerOfUniversal footer instant year).1) wallYear) :
    footerOffset footer (footerOfUniversal footer instant year).2
      (instant + (footerOfUniversal footer instant year).1) wallYear =
        (footerOfUniversal footer instant year).1 := by
  cases footer with
  | steady offset => rfl
  | yearly standard summer start finish =>
    have hwithin := h.within instant year
    have hgain := h.2.2.1
    have hnear := hyear.near hwall (by unfold Within at hwithin; omega)
    have hnear' := hwall.near hyear (by unfold Within at hwithin; omega)
    have hmoments := h.seconds hyear.pos
    have hmoments' := h.seconds hwall.pos
    obtain ⟨hstandard, hsummer, -⟩ := h
    have hstart := hyear.start_le
    have hend := hyear.lt_end
    have hstart' := hwall.start_le
    have hend' := hwall.lt_end
    rw [footerOfUniversal_yearly hgain] at hwall hwithin hstart' hend' ⊢
    rw [footerOffset_yearly hgain]
    unfold Within at *
    dsimp only at *
    simp only [inPeriod_iff, decide_eq_true_eq, decide_eq_false_iff_not] at *
    -- the wall shows the same year, the one before or the one after
    obtain hsame | hlater | hbefore : wallYear = year ∨ wallYear = year + 1 ∨ year = wallYear + 1 := by
      omega
    · subst hsame
      split_ifs at * <;> omega
    · subst hlater
      split_ifs at * <;> omega
    · subst hbefore
      split_ifs at * <;> omega

/-- What the clock shows for the first time by a calm rule is later than what it has shown. -/
theorem shows_in_order (h : footer.IsCalm low) (hlow : -86400 ≤ low ∧ low ≤ 0) {later : Int}
    {laterYear : Nat} (hyear : InYear instant year) (hlater : InYear later laterYear)
    (hlt : instant < later) (hfirst : (footerOfUniversal footer later laterYear).2 = false) :
    instant + (footerOfUniversal footer instant year).1 <
      later + (footerOfUniversal footer later laterYear).1 := by
  have hwithin := h.within instant year
  have hwithin' := h.within later laterYear
  by_cases hfar : instant + 86400 ≤ later
  · unfold Within at hwithin hwithin'
    omega
  cases footer with
  | steady offset =>
    show instant + offset < later + offset
    omega
  | yearly standard summer start finish =>
    have hgain := h.2.2.1
    have hmono := hyear.mono hlater (le_of_lt hlt)
    have hnear := hyear.near hlater (by omega)
    have hmoments := h.seconds hyear.pos
    have hmoments' := h.seconds hlater.pos
    have hstart := hyear.start_le
    have hend := hyear.lt_end
    have hstart' := hlater.start_le
    have hend' := hlater.lt_end
    rw [footerOfUniversal_yearly hgain] at hwithin hwithin' hfirst ⊢
    rw [footerOfUniversal_yearly hgain]
    unfold Within at *
    dsimp only at *
    simp only [inPeriod_iff, decide_eq_false_iff_not] at *
    obtain hsame | hnext : laterYear = year ∨ laterYear = year + 1 := by omega
    · subst hsame
      split_ifs at * <;> omega
    · subst hnext
      split_ifs at * <;> omega

/-- Around the turn of the year nothing is shown twice. -/
theorem not_again_of_turn (h : footer.IsCalm low) (hlow : -86400 ≤ low ∧ low ≤ 0)
    (hyear : InYear instant year)
    (hturn : instant < yearStart year + 2 * 86400 ∨ yearStart (year + 1) - 2 * 86400 ≤ instant) :
    (footerOfUniversal footer instant year).2 = false := by
  cases footer with
  | steady offset => rfl
  | yearly standard summer start finish =>
    have hmoments := h.seconds hyear.pos
    obtain ⟨hstandard, hsummer, hgain, -⟩ := h
    unfold Within at *
    rw [footerOfUniversal_yearly hgain]
    simp only [decide_eq_false_iff_not]
    omega

/-! ## The last transition -/

/-- Whether the last transition, after which a rule holds, goes with the rule: it leads to the only
offset of the rule, or it is one of the yearly changes. -/
def Joins (before : Int) (t : Transition) (footer : Footer) : Prop :=
  match footer with
  | .steady offset => t.offset = offset
  | .yearly standard summer start finish =>
    t.instant = start.seconds (yearAt t.instant) - standard ∧ before = standard ∧ t.offset = summer ∨
      t.instant = finish.seconds (yearAt t.instant) - summer ∧ before = summer ∧ t.offset = standard

instance (before : Int) (t : Transition) (footer : Footer) : Decidable (footer.Joins before t) := by
  cases footer with
  | steady offset => exact inferInstanceAs (Decidable (_ = _))
  | yearly standard summer start finish => exact inferInstanceAs (Decidable (_ ∨ _))

/-- On the days after the last transition the rule has its offset, and what the clock shows is
repeated as long as the transition has set it back. -/
theorem Joins.near {before : Int} {t : Transition} (hjoins : footer.Joins before t)
    (h : footer.IsCalm low) (hlow : -86400 ≤ low ∧ low ≤ 0) (hyear : InYear instant year)
    (hfrom : t.instant ≤ instant) (hto : instant < t.instant + 2 * 86400) :
    (footerOfUniversal footer instant year).1 = t.offset ∧
      ((∃ offset, footer = .steady offset) ∨
        (footerOfUniversal footer instant year).2 =
          decide (instant < t.instant + (before - t.offset))) := by
  cases footer with
  | steady offset => exact ⟨Eq.symm hjoins, .inl ⟨offset, rfl⟩⟩
  | yearly standard summer start finish =>
    have hpos : 1 ≤ yearAt t.instant := (Date.yearOfDay_spec _).1
    unfold Joins at hjoins
    generalize yearAt t.instant = change at hjoins hpos
    have hmoments := h.seconds hyear.pos
    have hmoments' := h.seconds hpos
    have hsame : year = change := by
      have hin : InYear t.instant change := by
        obtain ⟨hstandard, hsummer, -⟩ := h
        unfold Within at hstandard hsummer
        refine ⟨hpos, ?_, ?_⟩ <;> omega
      have := hin.mono hyear hfrom
      have := hin.near hyear (by omega)
      by_contra hne
      obtain rfl : year = change + 1 := by omega
      have := hyear.start_le
      obtain ⟨hstandard, hsummer, -⟩ := h
      unfold Within at hstandard hsummer
      omega
    subst hsame
    obtain ⟨hstandard, hsummer, hgain, -⟩ := h
    unfold Within at hstandard hsummer
    rw [footerOfUniversal_yearly hgain]
    dsimp only
    refine ⟨?_, .inr (decide_eq_decide.mpr ?_)⟩
    · simp only [inPeriod_iff]
      split_ifs <;> omega
    · omega

end Footer

end ScanPolicy
