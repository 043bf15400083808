import ScanPolicy.Proofs.Moment.Clock
import ScanPolicy.Proofs.Moment.Utc
import ScanPolicy.Proofs.Schedule.PlainDates

/-!
# The numbered dates of a plain rule on any clock

Minutes and hours are counted in universal time from the instant of the start, days,
weeks, months and years on the clock of the start. A date is known by its instant.

- `Plain.IsDate`: the instant of the date with a number, if the calendar has it.
- `Plain.CountsFrom`: clocks on which the dates of a frequency keep their order.
- `Plain.occurrence_spec`: `Plain.occurrence` gives the date with a number, or a
  fault that ends the search if there is none; `Plain.isDate_of_occurrence` and
  `Plain.IsDate.exists_occurrence` are its two directions.
- `Plain.IsDate.le`, `Plain.exists_isDate_of_le`: the dates are in the order of their
  numbers, and there is none after a number that has none.
- `Plain.occurrence_le`, `Plain.start_le_occurrence`: the occurrences that are found are in order
  on more clocks.
- `Plain.Reaches`, `Plain.elapsedPeriods_isDate`: there is a date with every number that
  the estimate of the passed periods passes over.
-/

namespace ScanPolicy

namespace Plain

/-- Whether a rule has a date with a number at a point of universal time. -/
def IsDate (start : Moment) (f : Frequency) (interval index : Nat) (t : Int) : Prop :=
  match f.unit with
  | .absolute unit => t = start.instant + (index * interval : Nat) * unit ∧ start.clock.Shows t
  | .wall _ | .months _ =>
    ∃ w : WallTime, w.ticks = point start.wall f interval index ∧ t = (start.clock.reading w).instant

/-- What the dates of a frequency need of the clock of the start: days must not be reversed, and
minutes and hours must be shown by the clock as they are counted, from the start on. -/
structure CountsFrom (start : Moment) (f : Frequency) : Prop where
  ordered : ¬ f.isSubDaily → start.clock.IsDayOrdered
  keeps : f.isSubDaily → start.clock.KeepsInstants
  unbroken : f.isSubDaily → start.clock.IsUnbroken
  shown : f.isSubDaily → start.clock.Shows start.instant

theorem isSubDaily_of_absolute {f : Frequency} {unit : Int} (h : f.unit = .absolute unit) :
    f.isSubDaily := by
  cases f <;> cases h <;> rfl

theorem exists_absolute {f : Frequency} (h : f.isSubDaily) : ∃ unit, f.unit = .absolute unit := by
  cases f <;> cases h <;> exact ⟨_, rfl⟩

theorem not_isSubDaily_of_wall {f : Frequency} {unit : Int} (h : f.unit = .wall unit) :
    ¬ f.isSubDaily ∧ Span.day ≤ unit := by
  cases f <;> cases h <;> decide

variable {start : Moment} {f : Frequency} {interval : Nat}

theorem CountsFrom.of_days (hf : ¬ f.isSubDaily) (h : start.clock.IsDayOrdered) : CountsFrom start f :=
  ⟨fun _ => h, fun hsub => absurd hsub hf, fun hsub => absurd hsub hf, fun hsub => absurd hsub hf⟩

/-! ## Order -/

/-- Dates that are counted in days or longer periods are a day apart. -/
theorem point_add_day {wall : WallTime} (hf : ¬ f.isSubDaily) (hinterval : 0 < interval)
    {i j : Nat} (hij : i < j) :
    point wall f interval i + Span.day ≤ point wall f interval j := by
  have hsucc : point wall f interval i + Span.day ≤ point wall f interval (i + 1) := by
    cases hunit : f.unit with
    | absolute unit => exact absurd (isSubDaily_of_absolute hunit) hf
    | wall unit =>
      have hday := (not_isSubDaily_of_wall hunit).2
      have hunits := unit_le_period (.inr hunit) hinterval
      rw [point_succ_of_span wall (.inr hunit)]
      omega
    | months unit => exact point_succ_of_months wall hunit hinterval i
  exact hsucc.trans (point_mono wall f hinterval hij)

theorem isDate_absolute {unit : Int} (hunit : f.unit = .absolute unit) {index : Nat} {t : Int} :
    IsDate start f interval index t ↔
      t = start.instant + (index * interval : Nat) * unit ∧ start.clock.Shows t := by
  simp only [IsDate, hunit]

theorem isDate_of_not_isSubDaily (hf : ¬ f.isSubDaily) {index : Nat} {t : Int} :
    IsDate start f interval index t ↔ ∃ w : WallTime, w.ticks = point start.wall f interval index ∧
      t = (start.clock.reading w).instant := by
  cases hunit : f.unit with
  | absolute unit => exact absurd (isSubDaily_of_absolute hunit) hf
  | wall unit => simp only [IsDate, hunit]
  | months unit => simp only [IsDate, hunit]

/-- There is at most one date with a number. -/
theorem IsDate.unique {index : Nat} {s t : Int} (hs : IsDate start f interval index s)
    (ht : IsDate start f interval index t) : s = t := by
  by_cases hf : f.isSubDaily
  · obtain ⟨unit, hunit⟩ := exists_absolute hf
    rw [isDate_absolute hunit] at hs ht
    rw [hs.1, ht.1]
  · obtain ⟨v, hv, rfl⟩ := (isDate_of_not_isSubDaily hf).mp hs
    obtain ⟨w, hw, rfl⟩ := (isDate_of_not_isSubDaily hf).mp ht
    rw [WallTime.ext (hv.trans hw.symm)]

/-- Minutes and hours that the calendar has are the dates of the rule that starts at the same
instant on the universal clock. -/
theorem isDate_iff_point {unit : Int} (hunit : f.unit = .absolute unit) {u : WallTime}
    (hu : u.ticks = start.instant) {index : Nat} {t : Int} :
    IsDate start f interval index t ↔ t = point u f interval index ∧ start.clock.Shows t := by
  rw [isDate_absolute hunit, ← hu]
  simp only [point, hunit]

variable (hcounts : CountsFrom start f) (hinterval : 0 < interval)

include hcounts hinterval

/-- The dates are in the order of their numbers. -/
theorem IsDate.le {i j : Nat} {s t : Int} (hs : IsDate start f interval i s)
    (ht : IsDate start f interval j t) (hij : i ≤ j) : s ≤ t := by
  rcases Nat.eq_or_lt_of_le hij with rfl | hlt
  · exact le_of_eq (hs.unique ht)
  by_cases hf : f.isSubDaily
  · obtain ⟨unit, hunit⟩ := exists_absolute hf
    obtain ⟨u, hu, -⟩ := hcounts.shown hf
    rw [isDate_iff_point hunit hu] at hs ht
    rw [hs.1, ht.1]
    exact point_mono u f hinterval hij
  · obtain ⟨v, hv, rfl⟩ := (isDate_of_not_isSubDaily hf).mp hs
    obtain ⟨w, hw, rfl⟩ := (isDate_of_not_isSubDaily hf).mp ht
    refine hcounts.ordered hf v w ?_
    rw [hv, hw]
    exact point_add_day hf hinterval hlt

/-- Before a date there is one with every smaller number. -/
theorem exists_isDate_of_le {i j : Nat} {t : Int} (ht : IsDate start f interval j t) (hij : i ≤ j) :
    ∃ s, IsDate start f interval i s := by
  by_cases hf : f.isSubDaily
  · obtain ⟨unit, hunit⟩ := exists_absolute hf
    obtain ⟨u, hu, hshown⟩ := hcounts.shown hf
    obtain ⟨rfl, hlast⟩ := (isDate_iff_point hunit hu).mp ht
    refine ⟨point u f interval i, (isDate_iff_point hunit hu).mpr ⟨rfl, ?_⟩⟩
    exact hcounts.unbroken hf _ _ _ (start_le_point u f hinterval i) (point_mono u f hinterval hij)
      ⟨u, rfl, hshown⟩ hlast
  · obtain ⟨w, hw, -⟩ := (isDate_of_not_isSubDaily hf).mp ht
    have hle := point_mono start.wall f hinterval hij
    have hnonneg := le_trans start.wall.nonneg (start_le_point start.wall f hinterval i)
    have hend := w.inCalendar
    exact ⟨_, (isDate_of_not_isSubDaily hf).mpr ⟨⟨_, hnonneg, by omega⟩, rfl, rfl⟩⟩

/-- A rule does not have a date for ever. -/
theorem not_isDate_of_late {index : Nat} (h : 1440 * Calendar.dayCount ≤ index) (t : Int) :
    ¬ IsDate start f interval index t := by
  intro ht
  by_cases hf : f.isSubDaily
  · obtain ⟨unit, hunit⟩ := exists_absolute hf
    obtain ⟨u, hu, -⟩ := hcounts.shown hf
    obtain ⟨rfl, v, hv, -⟩ := (isDate_iff_point hunit hu).mp ht
    exact absurd v.inCalendar (not_lt.mpr (hv ▸ calendarEnd_le_point u f hinterval h))
  · obtain ⟨w, hw, -⟩ := (isDate_of_not_isSubDaily hf).mp ht
    exact absurd w.inCalendar (not_lt.mpr (hw ▸ calendarEnd_le_point start.wall f hinterval h))

omit hcounts hinterval

/-! ## Occurrences -/

/-- A point of universal time on a clock: the moment that the clock shows then, or else a fault. -/
theorem within_shown (hkeeps : start.clock.KeepsInstants) (t : Int) :
    (∃ m, within ((WallTime.ofTicks? t).bind fun u => (Moment.universal u).on? start.clock) = .ok m ∧
      Moment.IsOn start.clock m ∧ m.instant = t ∧ start.clock.Shows t) ∨
    ¬ start.clock.Shows t ∧
      within ((WallTime.ofTicks? t).bind fun u => (Moment.universal u).on? start.clock) =
        .error .beyondCalendar := by
  cases hu : WallTime.ofTicks? t with
  | none =>
    refine .inr ⟨?_, rfl⟩
    rintro ⟨u, rfl, -⟩
    rw [WallTime.ofTicks?_ticks] at hu
    cases hu
  | some u =>
    have hticks := WallTime.ticks_of_ofTicks? hu
    cases hm : (Moment.universal u).on? start.clock with
    | none =>
      refine .inr ⟨?_, by rw [Option.bind_some, hm]; rfl⟩
      rintro ⟨v, hv, hshown⟩
      rw [WallTime.ext (hv.trans hticks.symm), hm] at hshown
      cases hshown
    | some m =>
      exact .inl ⟨m, by rw [Option.bind_some, hm]; rfl, Moment.isOn_of_on? hm,
        (hkeeps u m hm).trans hticks, u, hticks, by rw [hm]; rfl⟩

/-- The way to a date through universal time. -/
theorem throughUniversal_eq {u : WallTime} (hu : u.ticks = start.instant) (span : Int) :
    (do
      let from_ ← start.universal?
      let t ← from_.add? span
      t.on? start.clock) =
        (WallTime.ofTicks? (start.instant + span)).bind fun u => (Moment.universal u).on? start.clock := by
  obtain ⟨r, hr, hclock, hticks⟩ : ∃ r, start.universal? = some r ∧ r.clock = .universal ∧
      r.wall.ticks = start.instant := by
    rcases start.universal?_spec with h | ⟨-, hnone⟩
    · exact h
    · rw [← hu, WallTime.ofTicks?_ticks] at hnone
      cases hnone
  have hadd : r.add? span = (WallTime.ofTicks? (start.instant + span)).map Moment.universal := by
    unfold Moment.add? WallTime.add? Moment.universal
    rw [hclock, hticks]
  rw [hr]
  show (r.add? span).bind (fun t => t.on? start.clock) = _
  rw [hadd, Option.bind_map]
  rfl

/-- In days and longer periods the occurrence with a number is what the clock of the start means by
its wall time. -/
theorem occurrence_of_not_isSubDaily (hsub : ¬ f.isSubDaily) {c : Component} (hf : c.freq = some f)
    (index : Nat) :
    (∃ w : WallTime, w.ticks = point start.wall f c.interval index ∧
      occurrence start c index = .ok (start.clock.reading w)) ∨
    WallTime.calendarEnd ≤ point start.wall f c.interval index ∧
      ∃ e : Fault, e.endsSearch ∧ occurrence start c index = .error e := by
  have hunit : ∀ unit, f.unit ≠ .absolute unit := fun unit h => hsub (isSubDaily_of_absolute h)
  rw [occurrence_onWall hf hunit]
  rcases isAt_occurrence start.wall hf index with ⟨w, hw, ho⟩ | ⟨hend, e, he, ho⟩
  · rw [ho]
    exact .inl ⟨w, hw, rfl⟩
  · rw [ho]
    exact .inr ⟨hend, e, he, rfl⟩

/-- Occurrences are on the clock of the start. -/
theorem clock_of_occurrence {c : Component} {m : Moment} {index : Nat}
    (h : occurrence start c index = .ok m) : m.clock = start.clock := by
  have hadd : ∀ {a b : Moment} {span : Int}, a.add? span = some b →
      b = ⟨b.wall, a.clock, false⟩ := by
    intro a b span hb
    obtain ⟨t, -, rfl⟩ := Option.map_eq_some_iff.mp hb
    rfl
  unfold occurrence at h
  split at h
  · cases h
    rfl
  · dsimp only at h
    split at h
    · obtain ⟨u, hu, h⟩ := Option.bind_eq_some_iff.mp (some_of_within h)
      obtain ⟨span, -, h⟩ := Option.bind_eq_some_iff.mp h
      obtain ⟨t, ht, h⟩ := Option.bind_eq_some_iff.mp h
      rw [hadd ht, (Moment.instant_of_universal? hu).1] at h
      exact (Moment.isOn_of_on? h).clock_eq
    · obtain ⟨span, -, h⟩ := Option.bind_eq_some_iff.mp (some_of_within h)
      rw [hadd h]
    · unfold addMonths at h
      dsimp only at h
      split at h
      · split at h <;> cases h
      · obtain ⟨t, -, rfl⟩ := Option.map_eq_some_iff.mp (some_of_within h)
        rfl

/-- The occurrence with a number is the date with that number, or else a fault that ends the
search. -/
theorem occurrence_spec (hcounts : CountsFrom start f) {c : Component} (hf : c.freq = some f)
    (index : Nat) :
    (∃ m, occurrence start c index = .ok m ∧ Moment.IsOn start.clock m ∧
      IsDate start f c.interval index m.instant) ∨
    (∀ t, ¬ IsDate start f c.interval index t) ∧
      ∃ e : Fault, e.endsSearch ∧ occurrence start c index = .error e := by
  by_cases hsub : f.isSubDaily
  · obtain ⟨unit, hunit⟩ := exists_absolute hsub
    obtain ⟨u, hu, -⟩ := hcounts.shown hsub
    have hminute := minute_le_unit (.inl hunit)
    rw [Span.minute_eq] at hminute
    have hsteps : 0 ≤ ((index * c.interval : Nat) : Int) * unit :=
      Int.mul_nonneg (Int.natCast_nonneg _) (by omega)
    unfold occurrence
    rw [hf]
    dsimp only
    rw [hunit]
    dsimp only
    cases hspan : Span.times? (index * c.interval : Nat) unit with
    | none =>
      -- what is no span leads out of the calendar
      refine .inr ⟨fun t ht => ?_, .beyondCalendar, rfl, ?_⟩
      · obtain ⟨rfl, v, hv, -⟩ := (isDate_absolute hunit).mp ht
        have hnonneg := u.nonneg
        have hend := v.inCalendar
        rw [Span.times?_of_le hsteps (by omega)] at hspan
        cases hspan
      · cases start.universal? <;> rfl
    | some span =>
      obtain ⟨rfl, -⟩ := Span.times?_eq_some_iff.mp hspan
      have hway := throughUniversal_eq hu (((index * c.interval : Nat) : Int) * unit)
      have hskip : (do
          let from_ ← start.universal?
          let span ← some (((index * c.interval : Nat) : Int) * unit)
          let t ← from_.add? span
          t.on? start.clock) = (do
          let from_ ← start.universal?
          let t ← from_.add? (((index * c.interval : Nat) : Int) * unit)
          t.on? start.clock) := rfl
      rw [hskip, hway]
      rcases within_shown (hcounts.keeps hsub)
        (start.instant + ((index * c.interval : Nat) : Int) * unit) with
        ⟨m, hm, hclock, hinstant, hshows⟩ | ⟨hnot, herror⟩
      · exact .inl ⟨m, hm, hclock, (isDate_absolute hunit).mpr ⟨hinstant, hinstant ▸ hshows⟩⟩
      · exact .inr ⟨fun t ht => hnot (((isDate_absolute hunit).mp ht).1 ▸
          ((isDate_absolute hunit).mp ht).2), _, rfl, herror⟩
  · rcases occurrence_of_not_isSubDaily hsub hf index with ⟨w, hw, ho⟩ | ⟨hend, e, he, ho⟩
    · exact .inl ⟨_, ho, start.clock.isOn_reading w,
        (isDate_of_not_isSubDaily hsub).mpr ⟨w, hw, rfl⟩⟩
    · refine .inr ⟨fun t ht => ?_, e, he, ho⟩
      obtain ⟨w, hw, -⟩ := (isDate_of_not_isSubDaily hsub).mp ht
      exact absurd w.inCalendar (not_lt.mpr (hw ▸ hend))

section

variable {c : Component} (hcounts : CountsFrom start f) (hf : c.freq = some f) {index : Nat}

include hcounts hf

theorem isDate_of_occurrence {m : Moment} (h : occurrence start c index = .ok m) :
    IsDate start f c.interval index m.instant := by
  rcases occurrence_spec hcounts hf index with ⟨o, ho, -, hdate⟩ | ⟨-, e, -, ho⟩
  · obtain rfl : o = m := Except.ok.inj (ho.symm.trans h)
    exact hdate
  · rw [h] at ho
    cases ho

theorem IsDate.exists_occurrence {t : Int} (ht : IsDate start f c.interval index t) :
    ∃ m, occurrence start c index = .ok m ∧ Moment.IsOn start.clock m ∧ m.instant = t := by
  rcases occurrence_spec hcounts hf index with ⟨m, hm, hon, hdate⟩ | ⟨hnone, -⟩
  · exact ⟨m, hm, hon, hdate.unique ht⟩
  · exact absurd ht (hnone t)

omit hcounts in
theorem reading_of_occurrence (hsub : ¬ f.isSubDaily) {m : Moment}
    (h : occurrence start c index = .ok m) : ∃ w : WallTime,
      w.ticks = point start.wall f c.interval index ∧ m = start.clock.reading w := by
  rcases occurrence_of_not_isSubDaily hsub hf index with ⟨w, hw, ho⟩ | ⟨-, e, -, ho⟩
  · exact ⟨w, hw, Except.ok.inj (h.symm.trans ho)⟩
  · rw [h] at ho
    cases ho

end

/-! ## Order of the occurrences -/

/-- What the occurrences of a frequency need of the clock of the start to be in order: minutes and
hours must be shown as they are counted, and days must not be reversed. -/
structure KeepsOccurrences (start : Moment) (f : Frequency) : Prop where
  ordered : ¬ f.isSubDaily → start.clock.IsDayOrdered
  keeps : f.isSubDaily → start.clock.KeepsInstants

theorem CountsFrom.keepsOccurrences (h : CountsFrom start f) : KeepsOccurrences start f :=
  ⟨h.ordered, h.keeps⟩

/-- Minutes and hours are counted in universal time, and the date is what the clock shows then. -/
theorem exists_universal_of_occurrence {unit : Int} (hunit : f.unit = .absolute unit) {c : Component}
    (hf : c.freq = some f) {index : Nat} {m : Moment} (h : occurrence start c index = .ok m) :
    ∃ t : WallTime, t.ticks = start.instant + (index * c.interval : Nat) * unit ∧
      (Moment.universal t).on? start.clock = some m := by
  unfold occurrence at h
  rw [hf] at h
  dsimp only at h
  rw [hunit] at h
  obtain ⟨u, hu, h⟩ := Option.bind_eq_some_iff.mp (some_of_within h)
  obtain ⟨span, hspan, h⟩ := Option.bind_eq_some_iff.mp h
  obtain ⟨t, ht, h⟩ := Option.bind_eq_some_iff.mp h
  obtain ⟨hclock, hinstant⟩ := Moment.instant_of_universal? hu
  obtain ⟨w, hw, rfl⟩ := Option.map_eq_some_iff.mp ht
  rw [hclock] at h
  refine ⟨w, ?_, h⟩
  rw [WallTime.ticks_of_ofTicks? hw, ← hinstant, Moment.instant_of_universal hclock,
    (Span.times?_eq_some_iff.mp hspan).1]

/-- On a clock that keeps instants the date is at that instant. -/
theorem instant_of_occurrence (hkeeps : start.clock.KeepsInstants) {unit : Int}
    (hunit : f.unit = .absolute unit) {c : Component} (hf : c.freq = some f) {index : Nat} {m : Moment}
    (h : occurrence start c index = .ok m) :
    m.instant = start.instant + (index * c.interval : Nat) * unit := by
  obtain ⟨t, ht, hm⟩ := exists_universal_of_occurrence hunit hf h
  rw [hkeeps t m hm, ht]

/-- The occurrences are in the order of their numbers. -/
theorem occurrence_le (hkeeps : KeepsOccurrences start f) {c : Component} (hf : c.freq = some f)
    (hinterval : 0 < c.interval) {i j : Nat} {m n : Moment} (hm : occurrence start c i = .ok m)
    (hn : occurrence start c j = .ok n) (hij : i ≤ j) : m.instant ≤ n.instant := by
  by_cases hsub : f.isSubDaily
  · obtain ⟨unit, hunit⟩ := exists_absolute hsub
    have hminute := minute_le_unit (.inl hunit)
    rw [Span.minute_eq] at hminute
    rw [instant_of_occurrence (hkeeps.keeps hsub) hunit hf hm,
      instant_of_occurrence (hkeeps.keeps hsub) hunit hf hn]
    have hsteps : ((i * c.interval : Nat) : Int) ≤ (j * c.interval : Nat) :=
      Int.ofNat_le.mpr (Nat.mul_le_mul_right _ hij)
    exact Int.add_le_add_left (Int.mul_le_mul_of_nonneg_right hsteps (by omega)) _
  · obtain ⟨v, hv, rfl⟩ := reading_of_occurrence hf hsub hm
    obtain ⟨w, hw, rfl⟩ := reading_of_occurrence hf hsub hn
    rcases Nat.eq_or_lt_of_le hij with rfl | hlt
    · rw [WallTime.ext (hv.trans hw.symm)]
    · refine hkeeps.ordered hsub v w ?_
      rw [hv, hw]
      exact point_add_day hsub hinterval hlt

/-- No occurrence is before the start, unless the start is the second one of two equal readings. -/
theorem start_le_occurrence (hkeeps : KeepsOccurrences start f) {c : Component} (hf : c.freq = some f)
    (hinterval : 0 < c.interval) (hfold : start.fold = false) {index : Nat} {m : Moment}
    (hm : occurrence start c index = .ok m) : start.instant ≤ m.instant := by
  by_cases hsub : f.isSubDaily
  · obtain ⟨unit, hunit⟩ := exists_absolute hsub
    have hminute := minute_le_unit (.inl hunit)
    rw [Span.minute_eq] at hminute
    rw [instant_of_occurrence (hkeeps.keeps hsub) hunit hf hm]
    have := Int.mul_nonneg (Int.natCast_nonneg (index * c.interval)) (show 0 ≤ unit by omega)
    omega
  · obtain ⟨w, hw, rfl⟩ := reading_of_occurrence hf hsub hm
    have hstart : start.clock.reading start.wall = start := by
      unfold Clock.reading
      rw [← hfold]
    rcases Nat.eq_zero_or_pos index with rfl | hpos
    · rw [point_zero] at hw
      rw [WallTime.ext hw, hstart]
    · have hday : point start.wall f c.interval 0 + Span.day ≤ point start.wall f c.interval index :=
        point_add_day hsub hinterval hpos
      rw [point_zero, ← hw] at hday
      exact hstart ▸ hkeeps.ordered hsub start.wall w hday

/-! ## The estimate -/

/-- Whether the estimate of the passed periods keeps to the calendar: in minutes and hours it goes as
far from the start as the moment is measured to be, in days and longer periods up to what the clock
of the start shows at the moment. -/
def Reaches (start : Moment) (f : Frequency) (now : Moment) : Prop :=
  if f.isSubDaily then start.clock.Shows (start.instant + now.since start)
  else (now.on? start.clock).isSome

theorem reaches_universal (start : Moment) (f : Frequency) {now : WallTime}
    (hnow : start.clock.Shows now.ticks) : Reaches start f (Moment.universal now) := by
  unfold Reaches
  split
  · rw [Moment.since_eq (.inl rfl), Moment.instant_universal,
      show start.instant + (now.ticks - start.instant) = now.ticks by omega]
    exact hnow
  · obtain ⟨u, hu, hshown⟩ := hnow
    rwa [← WallTime.ext hu]

/-- Every number that the estimate of the passed periods passes over has a date. -/
theorem elapsedPeriods_isDate (hcounts : CountsFrom start f) {c : Component}
    (hinterval : 0 < c.interval) (hspan : HasSpan f c.interval) {now : Moment}
    (hreach : Reaches start f now) :
    ∃ elapsed, elapsedPeriods start c f now = .ok elapsed ∧
      ∀ i < elapsed.toNat, ∃ t, IsDate start f c.interval i t := by
  unfold Reaches at hreach
  by_cases hsub : f.isSubDaily
  · rw [if_pos hsub] at hreach
    obtain ⟨v, hv, -⟩ := id hreach
    obtain ⟨unit, hunit⟩ := exists_absolute hsub
    obtain ⟨u, hu, hshown⟩ := hcounts.shown hsub
    -- the estimate is that of the rule that starts at the same instant on the universal clock
    have hsame : elapsedPeriods start c f now =
        elapsedPeriods (Moment.universal u) c f (Moment.universal v) := by
      unfold elapsedPeriods
      rw [hunit]
      dsimp only
      rw [Moment.since_universal, hu, hv,
        show start.instant + now.since start - start.instant = now.since start by omega]
    obtain ⟨elapsed, helapsed, hpassed⟩ := elapsedPeriods_spec u hinterval hspan v
    refine ⟨elapsed, hsame.trans helapsed, fun i hi => ?_⟩
    refine ⟨point u f c.interval i, (isDate_iff_point hunit hu).mpr ⟨rfl, ?_⟩⟩
    exact hcounts.unbroken hsub _ _ _ (start_le_point u f hinterval i) (hv ▸ hpassed i hi)
      ⟨u, rfl, hshown⟩ hreach
  · rw [if_neg hsub] at hreach
    obtain ⟨here, hhere⟩ := Option.isSome_iff_exists.mp hreach
    -- the estimate is that of the rule on the wall, at the time that the wall shows
    have hsame : elapsedPeriods start c f now =
        elapsedPeriods (Moment.universal start.wall) c f (Moment.universal here.wall) := by
      unfold elapsedPeriods
      cases hunit : f.unit with
      | absolute unit => exact absurd (isSubDaily_of_absolute hunit) hsub
      | wall unit =>
        dsimp only
        rw [hhere]
        rfl
      | months unit =>
        dsimp only
        rw [hhere]
        rfl
    obtain ⟨elapsed, helapsed, hpassed⟩ := elapsedPeriods_spec start.wall hinterval hspan here.wall
    refine ⟨elapsed, hsame.trans helapsed, fun i hi => ?_⟩
    have hnonneg := le_trans start.wall.nonneg (start_le_point start.wall f hinterval i)
    have hend := here.wall.inCalendar
    have hle := hpassed i hi
    exact ⟨_, (isDate_of_not_isSubDaily hsub).mpr ⟨⟨_, hnonneg, by omega⟩, rfl, rfl⟩⟩

end Plain

end ScanPolicy
