import ScanPolicy.Proofs.Schedule.FirstDate
import ScanPolicy.Proofs.Zone.DayOrder

/-!
# How near the estimate of the passed periods is

The search for the first date after a moment starts at an estimate that is made on the wall: a quotient
of spans, or of numbers of months, which leave out the days. On a clock that keeps the order of days,
what is a day apart on the wall is in the order of the instants, and a period is a day at least. So the
estimate is right but for one period, up or down.

A month that is over is not always a day ago. The estimate of a rule for every month is two periods too
high where an occurrence of such a month is still to come: the clock has been set forward over the end
of the month, and the wall time of the occurrence is left out.

- `Plain.Estimates`: how an estimate is placed among the points of a rule;
  `Plain.exists_estimates`: the estimate is placed so.
- `Plain.IsNear`: how an estimate is placed before the first number after a moment.
- `Plain.descend_of_isNear`, `Plain.ascend_of_isNear`: the steps that correct it.
- `Plain.ComesLate`: rules with an occurrence that comes after the end of its month.
- `Plain.elapsedPeriods_near_first`: the estimate is right but for one period, unless the rule comes
  late, and but for two in any case.
- `Plain.elapsedPeriods_kiritimati`: an estimate that is too high by two.
-/

namespace ScanPolicy

namespace Plain

open Calendar

variable {start here : Moment} {c : Component} {f : Frequency} {now : WallTime} {elapsed : Int}
  {first : Nat}

/-! ## The estimate on the wall -/

/-- Whether a rule has an occurrence in every month. -/
def IsEveryMonth (f : Frequency) (interval : Nat) : Prop := f = .monthly ∧ interval = 1

/-- How an estimate of the passed periods is placed among the points of a rule, at the time that the
wall shows. A rule for every month is estimated by the numbers of the months. -/
structure Estimates (start here : WallTime) (f : Frequency) (interval : Nat) (elapsed : Int) :
    Prop where
  passed : ∀ i : Nat, (i : Int) + 1 < elapsed → point start f interval i + Span.day ≤ here.ticks
  passedEach : ¬ IsEveryMonth f interval → ∀ i : Nat, (i : Int) < elapsed →
    point start f interval i + Span.day ≤ here.ticks
  ahead : ∀ i : Nat, elapsed + 2 ≤ i → here.ticks + Span.day < point start f interval i
  months : IsEveryMonth f interval →
    elapsed = (here.date.monthNumber : Int) - start.date.monthNumber

/-- The whole periods of a span that is at least a day. -/
theorem estimates_of_wall {unit : Int} (hunit : f.unit = .wall unit) {interval : Nat}
    (hinterval : 0 < interval) (start here : WallTime) :
    Estimates start here f interval ((here.ticks - start.ticks).fdiv (interval * unit)) := by
  have hday := (not_isSubDaily_of_wall hunit).2
  have hperiod := unit_le_period (.inr hunit) hinterval
  have hpos := period_pos (.inr hunit) hinterval
  have hpassed : ∀ i : Nat, (i : Int) < (here.ticks - start.ticks).fdiv (interval * unit) →
      point start f interval i + Span.day ≤ here.ticks := by
    intro i hi
    have hnext := (le_fdiv_iff hpos).mp (Int.add_one_le_iff.mpr hi)
    rw [Int.add_mul, Int.one_mul] at hnext
    rw [point_span start (.inr hunit)]
    omega
  refine ⟨fun i hi => hpassed i (by omega), fun _ => hpassed, fun i hi => ?_, ?_⟩
  · have hbefore := mt (le_fdiv_iff (n := (i : Int) - 1) (d := here.ticks - start.ticks) hpos).mpr
      (by omega)
    rw [Int.sub_mul, Int.one_mul] at hbefore
    rw [point_span start (.inr hunit)]
    omega
  · rintro ⟨rfl, -⟩
    cases hunit

/-- Other periods than one month are more than a month. -/
theorem one_lt_period {unit : Nat} (hunit : f.unit = .months unit) {interval : Nat}
    (hinterval : 0 < interval) (hseldom : ¬ IsEveryMonth f interval) : 1 < interval * unit := by
  cases f with
  | monthly =>
    cases hunit
    have hone : interval ≠ 1 := fun hone => hseldom ⟨rfl, hone⟩
    omega
  | yearly =>
    cases hunit
    omega
  | _ => cases hunit

/-- A number of months two above the quotient is more than a whole period behind the last month. -/
theorem months_ahead {unit : Nat} (hunit : f.unit = .months unit) {interval : Nat}
    (hinterval : 0 < interval) {m n i : Nat}
    (hi : ((n : Int) - m).fdiv (interval * unit : Nat) + 2 ≤ i) :
    n + interval * unit < m + i * interval * unit := by
  have hbefore := mt (le_fdiv_iff (n := (i : Int) - 1) (d := (n : Int) - m)
    (period_months_pos hunit hinterval)).mpr (by omega)
  have hassoc : ((i : Int) - 1) * (interval * unit : Nat) =
      (i * interval * unit : Nat) - (interval * unit : Nat) := by
    push_cast
    ring
  omega

/-- The whole periods of the months between, of which the days are left out. -/
theorem estimates_of_months {unit : Nat} (hunit : f.unit = .months unit) {interval : Nat}
    (hinterval : 0 < interval) (start here : WallTime) :
    Estimates start here f interval
      (((here.date.monthNumber : Int) - start.date.monthNumber).fdiv (interval * unit : Nat)) := by
  have hstart := start.date_inMonth.twelve_le
  have hhere := here.date_inMonth.twelve_le
  have hperiod := period_months_pos hunit hinterval
  have hlies := liesIn_point start hunit interval
  refine ⟨fun i hi => ?_, fun hseldom i hi => ?_, fun i hi => ?_, ?_⟩
  · -- the date after it is in an earlier month than the moment
    rw [← Nat.cast_add_one] at hi
    have hpassed := months_passed hunit hinterval hi
    have hsplit : (i + 1) * interval * unit = i * interval * unit + interval * unit := by ring
    exact le_of_lt ((hlies i).add_day_lt here.liesIn_ticks (by omega) (by omega))
  · have hpassed := months_passed hunit hinterval hi
    have hlong := one_lt_period hunit hinterval hseldom
    exact le_of_lt ((hlies i).add_day_lt here.liesIn_ticks (by omega) (by omega))
  · have hahead := months_ahead hunit hinterval hi
    exact here.liesIn_ticks.add_day_lt (hlies i) (by omega) (by omega)
  · rintro ⟨rfl, rfl⟩
    cases hunit
    exact Int.fdiv_one _

/-- In days and longer periods the estimate is made from what the wall shows. -/
theorem exists_estimates (hsub : ¬ f.isSubDaily) (hinterval : 0 < c.interval)
    (hspan : HasSpan f c.interval) (hhere : (Moment.universal now).on? start.clock = some here) :
    ∃ elapsed, elapsedPeriods start c f (Moment.universal now) = .ok elapsed ∧
      Estimates start.wall here.wall f c.interval elapsed := by
  cases hunit : f.unit with
  | absolute unit => exact absurd (isSubDaily_of_absolute hunit) hsub
  | wall unit =>
    exact ⟨_, elapsedPeriods_wall hunit (period_of_hasSpan (.inr hunit) hspan) hhere,
      estimates_of_wall hunit hinterval start.wall here.wall⟩
  | months unit =>
    exact ⟨_, elapsedPeriods_months hunit hhere,
      estimates_of_months hunit hinterval start.wall here.wall⟩

/-! ## The estimate and the first number after a moment -/

/-- How an estimate is placed before the first number after a moment. -/
structure IsNear (elapsed : Int) (first : Nat) : Prop where
  le_succ : elapsed ≤ first + 1
  le_add_two : first ≤ elapsed + 2

/-- Whether a rule for every month has an occurrence that is still to come when the wall shows that its
month is over. -/
structure ComesLate (start : Moment) (c : Component) (here : Moment) : Prop where
  everyMonth : c.freq = some .monthly ∧ c.interval = 1
  stillToCome : ∃ i o, occurrence start c i = .ok o ∧
    o.wall.date.monthNumber < here.wall.date.monthNumber ∧ here.instant < o.instant

theorem monthNumber_of_point {unit : Nat} (hunit : f.unit = .months unit) {wall w : WallTime}
    {interval index : Nat} (hw : w.ticks = point wall f interval index) :
    w.date.monthNumber = wall.date.monthNumber + index * interval * unit := by
  have hmonth := wall.date_inMonth.twelve_le
  have hlies := liesIn_point wall hunit interval index
  rw [← hw] at hlies
  exact w.liesIn_ticks.unique hlies w.date_inMonth.twelve_le (by omega)

/-- A number that has an occurrence after a moment is not before the first one. -/
theorem first_le_of_lt (hcounts : CountsFrom start f) (hf : c.freq = some f) {t : Int}
    (hfirst : IsFirstAfter start f c.interval t first) {i : Nat} {o : Moment}
    (ho : occurrence start c i = .ok o) (hlt : t < o.instant) : first ≤ i := by
  refine not_lt.mp fun hi => ?_
  obtain ⟨s, hs, hle⟩ := (hfirst i).mp hi
  have hsame := hs.unique (isDate_of_occurrence hcounts hf ho)
  omega

section Days

variable (hdays : start.clock.OrdersDays) (hclock : here.clock = start.clock)
  (hsub : ¬ f.isSubDaily) (hfirst : IsFirstAfter start f c.interval here.instant first)

include hdays hclock hsub hfirst

/-- A point that is a day ago on the wall is passed. -/
theorem lt_first_of_day (hinterval : 0 < c.interval) {i : Nat}
    (h : point start.wall f c.interval i + Span.day ≤ here.wall.ticks) : i < first := by
  have hnonneg := start.wall.nonneg.trans (start_le_point start.wall f hinterval i)
  have hend := here.wall.inCalendar
  have hin : point start.wall f c.interval i < (Calendar.dayCount : Int) * Span.day := by
    rw [Span.day_eq] at *
    omega
  refine (hfirst i).mpr ⟨_, (isDate_of_not_isSubDaily hsub).mpr ⟨⟨_, hnonneg, hin⟩, rfl, rfl⟩, ?_⟩
  exact hdays.le _ _ rfl hclock h

/-- A point that is more than a day ahead on the wall is still to come. -/
theorem first_le_of_day {i : Nat}
    (h : here.wall.ticks + Span.day < point start.wall f c.interval i) : first ≤ i := by
  refine not_lt.mp fun hi => ?_
  obtain ⟨t, ht, hle⟩ := (hfirst i).mp hi
  obtain ⟨w, hw, rfl⟩ := (isDate_of_not_isSubDaily hsub).mp ht
  have hlt := hdays.lt here (start.clock.reading w) hclock rfl (hw ▸ h)
  omega

theorem isNear_of_estimates (hinterval : 0 < c.interval) (hstart : start.instant ≤ here.instant)
    (hestimates : Estimates start.wall here.wall f c.interval elapsed) : IsNear elapsed first := by
  constructor
  · by_contra hlt
    exact lt_irrefl first (lt_first_of_day hdays hclock hsub hfirst hinterval
      (hestimates.passed first (by omega)))
  · -- the start is not more than a day ahead, so that the estimate is not two periods before it
    have hlow : 0 ≤ elapsed + 2 := by
      by_contra hneg
      have hahead := hestimates.ahead 0 (by omega)
      rw [point_zero] at hahead
      have hlt := hdays.lt here start hclock rfl hahead
      omega
    obtain ⟨i, hi⟩ := Int.eq_ofNat_of_zero_le hlow
    have hle := first_le_of_day hdays hclock hsub hfirst (hestimates.ahead i (by omega))
    omega

/-- An estimate is too high exactly if the rule comes late. -/
theorem eq_succ_iff_comesLate (hf : c.freq = some f) (hinterval : 0 < c.interval)
    (hestimates : Estimates start.wall here.wall f c.interval elapsed) (hnear : IsNear elapsed first)
    {o : Moment} (ho : occurrence start c first = .ok o) (hafter : here.instant < o.instant) :
    elapsed = first + 1 ↔ ComesLate start c here := by
  have hmonth : ∀ {i : Nat} {o : Moment}, IsEveryMonth f c.interval → occurrence start c i = .ok o →
      o.wall.date.monthNumber = start.wall.date.monthNumber + i := by
    rintro i o ⟨rfl, hone⟩ ho
    obtain ⟨w, hw, rfl⟩ := reading_of_occurrence hf hsub ho
    have hnumber := monthNumber_of_point rfl hw
    rwa [hone, Nat.mul_one, Nat.mul_one] at hnumber
  constructor
  · intro helapsed
    have hevery : IsEveryMonth f c.interval := by
      by_contra hseldom
      exact lt_irrefl first (lt_first_of_day hdays hclock hsub hfirst hinterval
        (hestimates.passedEach hseldom first (by omega)))
    have hmonths := hestimates.months hevery
    have hfirstMonth := hmonth hevery ho
    exact ⟨⟨hevery.1 ▸ hf, hevery.2⟩, first, o, ho, by omega, hafter⟩
  · rintro ⟨⟨hmonthly, hone⟩, i, o, ho, hover, hlater⟩
    obtain rfl : f = .monthly := Option.some.inj (hf.symm.trans hmonthly)
    have hle := first_le_of_lt (.of_days hsub hdays.isDayOrdered) hf hfirst ho hlater
    have hmonths := hestimates.months ⟨rfl, hone⟩
    have hthis := hmonth ⟨rfl, hone⟩ ho
    have hsucc := hnear.le_succ
    omega

end Days

/-- In minutes and hours the estimate is right. -/
theorem elapsedPeriods_of_isSubDaily (hcounts : CountsFrom start f) (hsub : f.isSubDaily)
    (hinterval : 0 < c.interval) (hspan : HasSpan f c.interval)
    (hnow : start.clock.Shows now.ticks) (hstart : start.instant ≤ now.ticks)
    (hfirst : IsFirstAfter start f c.interval now.ticks first) :
    elapsedPeriods start c f (Moment.universal now) = .ok ((first : Int) - 1) := by
  obtain ⟨unit, hunit⟩ := exists_absolute hsub
  have hpos := period_pos (.inl hunit) hinterval
  have hdate : ∀ i : Nat, start.instant + ((i * c.interval : Nat) : Int) * unit =
      start.instant + i * (c.interval * unit) := by
    intro i
    push_cast
    ring
  -- the numbers that are passed are those up to the quotient
  have hpassed : ∀ i : Nat, i < first ↔
      (i : Int) ≤ (now.ticks - start.instant).fdiv (c.interval * unit) := by
    intro i
    rw [hfirst i, le_fdiv_iff hpos]
    constructor
    · rintro ⟨t, ht, hnow⟩
      have heq := ((isDate_absolute hunit).mp ht).1
      rw [hdate] at heq
      omega
    · intro hnowLe
      have hnonneg : 0 ≤ (i : Int) * (c.interval * unit) :=
        Int.mul_nonneg (Int.natCast_nonneg i) (le_of_lt hpos)
      have hshown := hcounts.unbroken hsub start.instant (start.instant + i * (c.interval * unit))
        now.ticks (by omega) (by omega) (hcounts.shown hsub) hnow
      exact ⟨_, (isDate_absolute hunit).mpr ⟨(hdate i).symm, hshown⟩, by omega⟩
  have hquotient : 0 ≤ (now.ticks - start.instant).fdiv (c.interval * unit) :=
    (le_fdiv_iff hpos).mpr (by omega)
  rw [elapsedPeriods_absolute hunit (period_of_hasSpan (.inl hunit) hspan),
    Moment.since_eq (.inl rfl), Moment.instant_universal]
  obtain ⟨n, hn⟩ := Int.eq_ofNat_of_zero_le hquotient
  have hlast := hpassed n
  have hnext := hpassed (n + 1)
  rw [hn] at hlast hnext ⊢
  exact congrArg Except.ok (by omega)

/-! ## The steps that correct the estimate -/

section Steps

variable (hcounts : CountsFrom start f) (hf : c.freq = some f)
  (hfirst : IsFirstAfter start f c.interval now.ticks first)

include hcounts hf hfirst

/-- From a number that is not above the first one there is no way down. -/
theorem descend_of_le {n : Nat} (hn : n ≤ first) :
    descend start c (Moment.universal now) n = .ok n := by
  cases n with
  | zero => rfl
  | succ n =>
    obtain ⟨t, ht, hle⟩ := (hfirst n).mp hn
    obtain ⟨o, ho, -, rfl⟩ := ht.exists_occurrence hcounts hf
    unfold descend
    rw [ho]
    refine if_neg fun hbefore => ?_
    rw [Moment.before_eq (.inl rfl), Moment.instant_universal, decide_eq_true_iff] at hbefore
    omega

/-- From an estimate that is near it is one step at most. -/
theorem descend_of_isNear (hnear : IsNear elapsed first) {o : Moment}
    (ho : occurrence start c first = .ok o) (hafter : now.ticks < o.instant) :
    descend start c (Moment.universal now) elapsed.toNat = .ok (min elapsed.toNat first) := by
  have hle := hnear.le_succ
  rcases (show elapsed.toNat ≤ first ∨ elapsed.toNat = first + 1 by omega) with hlow | hhigh
  · rw [Nat.min_eq_left hlow]
    exact descend_of_le hcounts hf hfirst hlow
  · have hbefore : (Moment.universal now).before o = true := by
      rw [Moment.before_eq (.inl rfl), Moment.instant_universal]
      exact decide_eq_true hafter
    rw [hhigh, Nat.min_eq_right (Nat.le_succ first)]
    unfold descend
    rw [ho]
    exact (if_pos hbefore).trans (descend_of_le hcounts hf hfirst le_rfl)

/-- Then there are two steps up at most. -/
theorem ascend_of_isNear (hnear : IsNear elapsed first) {o : Moment}
    (ho : occurrence start c first = .ok o) :
    ascend start c (Moment.universal now) 3 (min elapsed.toNat first) = .ok first := by
  have hle := hnear.le_add_two
  have hcompares : (Moment.universal now).ComparesOn start.clock := Moment.comparesOn_of_universal rfl
  rw [← Moment.instant_universal now] at hfirst
  have hway := ascend_spec hcounts hf hcompares hfirst (Nat.min_le_right elapsed.toNat first)
    (show first < min elapsed.toNat first + 3 by omega)
  rcases hway with ⟨-, hfound⟩ | ⟨hnone, -⟩
  · exact hfound
  · exact absurd (isDate_of_occurrence hcounts hf ho) (hnone _)

end Steps

/-- From the start on, and while there is a next occurrence, the estimate of the passed periods is the
number before the first one after the moment, give or take one, unless the rule comes late: then it is
two too high. So the search takes one step down and two steps up at most, however long ago the start
is. In days and longer periods what the clock shows at the moment must stand for the moment. -/
theorem elapsedPeriods_near_first (hdays : start.clock.OrdersDays) (hcounts : CountsFrom start f)
    (hf : c.freq = some f) (hinterval : 0 < c.interval) (hspan : HasSpan f c.interval)
    (hhere : (Moment.universal now).on? start.clock = some here)
    (hkept : here.instant = now.ticks) (hstart : start.instant ≤ now.ticks)
    (hnext : ∃ i o, occurrence start c i = .ok o ∧ now.ticks < o.instant) :
    ∃ (elapsed : Int) (first index : Nat),
      elapsedPeriods start c f (Moment.universal now) = .ok elapsed ∧
      firstIndexAfter start c (Moment.universal now) = .ok first ∧
      (|elapsed - (first - 1)| ≤ 1 ↔ ¬ ComesLate start c here) ∧
      |elapsed - (first - 1)| ≤ 2 ∧
      descend start c (Moment.universal now) elapsed.toNat = .ok index ∧
      elapsed.toNat ≤ index + 1 ∧
      ascend start c (Moment.universal now) 3 index = .ok first := by
  have hshows := shows_of_on? hhere
  obtain ⟨first, hfirst, hsearch⟩ := firstIndexAfter_on_clock hcounts hf hinterval hspan hshows
  -- the first number has an occurrence, as a later one has
  obtain ⟨i, o, ho, hlt⟩ := hnext
  have hle := first_le_of_lt hcounts hf hfirst ho hlt
  obtain ⟨t, ht⟩ := exists_isDate_of_le hcounts hinterval (isDate_of_occurrence hcounts hf ho) hle
  obtain ⟨-, hfound⟩ := hsearch.resolve_right fun hnone => hnone.1 t ht
  obtain ⟨o, ho, -, rfl⟩ := ht.exists_occurrence hcounts hf
  have hafter : now.ticks < o.instant :=
    not_le.mp fun hle => lt_irrefl first ((hfirst first).mpr ⟨_, ht, hle⟩)
  have hestimate : ∃ elapsed, elapsedPeriods start c f (Moment.universal now) = .ok elapsed ∧
      IsNear elapsed first ∧ (elapsed = first + 1 ↔ ComesLate start c here) := by
    by_cases hsub : f.isSubDaily
    · refine ⟨_, elapsedPeriods_of_isSubDaily hcounts hsub hinterval hspan hshows hstart hfirst,
        ⟨by omega, by omega⟩, fun h => by omega, fun h => ?_⟩
      cases hf.symm.trans h.everyMonth.1
      cases hsub
    · obtain ⟨elapsed, helapsed, hestimates⟩ := exists_estimates hsub hinterval hspan hhere
      have hclock := (Moment.isOn_of_on? hhere).clock_eq
      rw [← hkept] at hfirst hstart hafter
      have hnear := isNear_of_estimates hdays hclock hsub hfirst hinterval hstart hestimates
      exact ⟨elapsed, helapsed, hnear,
        eq_succ_iff_comesLate hdays hclock hsub hfirst hf hinterval hestimates hnear ho hafter⟩
  obtain ⟨elapsed, helapsed, hnear, hlate⟩ := hestimate
  have hlow := hnear.le_succ
  have hhigh := hnear.le_add_two
  refine ⟨elapsed, first, _, helapsed, hfound, ?_, ?_,
    descend_of_isNear hcounts hf hfirst hnear ho hafter, by omega,
    ascend_of_isNear hcounts hf hfirst hnear ho⟩
  · rw [← hlate, abs_le]
    omega
  · rw [abs_le]
    omega

/-- Kiritimati has left out the last day of 1994, on which a daily rule has its next occurrence. -/
theorem elapsedPeriods_near_first_of_left_out_day : ∃ d c now here,
    (Descriptor.parse "DTSTART;TZID=Pacific/Kiritimati:19941229T120000\nRRULE:FREQ=DAILY".toList
      none).run.value = .ok d ∧ d.components = [c] ∧ c.freq = some .daily ∧
    d.start.clock.OrdersDays ∧ (Moment.universal now).on? d.start.clock = some here ∧
    ∃ (elapsed : Int) (first : Nat),
      elapsedPeriods d.start c .daily (Moment.universal now) = .ok elapsed ∧
      firstIndexAfter d.start c (Moment.universal now) = .ok first ∧
      |elapsed - (first - 1)| ≤ 1 := by
  obtain ⟨d, c, now, here, hd, hcomponents, hf, hinterval, hclock, hnow, hhere, hkept, hstart,
      hnext⟩ : ∃ d c now here,
      (Descriptor.parse "DTSTART;TZID=Pacific/Kiritimati:19941229T120000\nRRULE:FREQ=DAILY".toList
        none).run.value = .ok d ∧ d.components = [c] ∧ c.freq = some .daily ∧ c.interval = 1 ∧
      d.start.clock = .zoned Zone.Table.pacificKiritimati ∧
      WallTime.ofFields? ⟨1994, 12, 31⟩ 15 0 0 0 = some now ∧
      (Moment.universal now).on? (.zoned Zone.Table.pacificKiritimati) = some here ∧
      here.instant = now.ticks ∧ d.start.instant ≤ now.ticks ∧
      ((occurrence d.start c 2).toOption.any fun o => decide (now.ticks < o.instant)) = true :=
    ⟨_, _, _, _, rfl, rfl, rfl, rfl, rfl, rfl, rfl, by decide +kernel, by decide +kernel,
      by decide +kernel⟩
  obtain ⟨o, ho, hafter⟩ := (Option.any_eq_true _ _).mp hnext
  have hdays : d.start.clock.OrdersDays := hclock ▸ Zone.ordersDays_kiritimati
  have hspan : HasSpan .daily c.interval := by
    rw [hinterval]
    rfl
  rw [← hclock] at hhere
  obtain ⟨elapsed, first, -, helapsed, hfirst, hexact, -⟩ := elapsedPeriods_near_first hdays
    (.of_days (by decide) hdays.isDayOrdered) hf (hinterval ▸ Nat.one_pos) hspan hhere hkept hstart
    ⟨2, o, ok_of_toOption ho, of_decide_eq_true hafter⟩
  refine ⟨d, c, now, here, hd, hcomponents, hf, hdays, hhere, elapsed, first, helapsed, hfirst,
    hexact.mpr fun hlate => ?_⟩
  cases hf.symm.trans hlate.everyMonth.1

/-- A rule for every month whose third occurrence is on the day that is left out: its wall time stands
for ten in the evening of universal time, seven hours after the wall shows January. -/
theorem elapsedPeriods_kiritimati : ∃ d c now here o,
    (Descriptor.parse "DTSTART;TZID=Pacific/Kiritimati:19941031T120000\nRRULE:FREQ=MONTHLY".toList
      none).run.value = .ok d ∧ d.components = [c] ∧ c.freq = some .monthly ∧ c.interval = 1 ∧
    d.start.clock.OrdersDays ∧ (Moment.universal now).on? d.start.clock = some here ∧
    here.instant = now.ticks ∧ d.start.instant ≤ now.ticks ∧
    occurrence d.start c 2 = .ok o ∧ now.ticks < o.instant ∧
    elapsedPeriods d.start c .monthly (Moment.universal now) = .ok 3 ∧
    firstIndexAfter d.start c (Moment.universal now) = .ok 2 ∧
    ¬ |(3 : Int) - (2 - 1)| ≤ 1 := by
  obtain ⟨d, c, now, here, hd, hcomponents, hf, hinterval, hclock, hnow, hhere, hkept, hstart,
      hnext, helapsed, hfirst⟩ : ∃ d c now here,
      (Descriptor.parse "DTSTART;TZID=Pacific/Kiritimati:19941031T120000\nRRULE:FREQ=MONTHLY".toList
        none).run.value = .ok d ∧ d.components = [c] ∧ c.freq = some .monthly ∧ c.interval = 1 ∧
      d.start.clock = .zoned Zone.Table.pacificKiritimati ∧
      WallTime.ofFields? ⟨1994, 12, 31⟩ 15 0 0 0 = some now ∧
      (Moment.universal now).on? (.zoned Zone.Table.pacificKiritimati) = some here ∧
      here.instant = now.ticks ∧ d.start.instant ≤ now.ticks ∧
      ((occurrence d.start c 2).toOption.any fun o => decide (now.ticks < o.instant)) = true ∧
      (elapsedPeriods d.start c .monthly (Moment.universal now)).toOption = some 3 ∧
      (firstIndexAfter d.start c (Moment.universal now)).toOption = some 2 :=
    ⟨_, _, _, _, rfl, rfl, rfl, rfl, rfl, rfl, rfl, by decide +kernel, by decide +kernel,
      by decide +kernel, by decide +kernel, by decide +kernel⟩
  obtain ⟨o, ho, hafter⟩ := (Option.any_eq_true _ _).mp hnext
  have hdays : d.start.clock.OrdersDays := hclock ▸ Zone.ordersDays_kiritimati
  rw [← hclock] at hhere
  exact ⟨d, c, now, here, o, hd, hcomponents, hf, hinterval, hdays, hhere, hkept, hstart,
    ok_of_toOption ho, of_decide_eq_true hafter, ok_of_toOption helapsed, ok_of_toOption hfirst,
    by decide⟩

end Plain

end ScanPolicy
