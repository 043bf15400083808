import ScanPolicy.Proofs.Schedule.OneRule
import ScanPolicy.Proofs.Schedule.OrderedDates
import ScanPolicy.Proofs.Zone.Offsets

/-!
# The start is the first date

Before the start of a schedule of one plain rule, its next occurrence is the start. The first date is
computed like every other one: on the clock of the start by adding no period, in minutes and hours by
going through universal time. The search begins with an estimate of the passed periods, which measures
the period as a span and, in days and longer periods, reads the moment on the clock of the start; where
the calendar or the spans end, the estimate fails, and the schedule seems to be over.

- `Moment.wall_near_instant`, `Moment.wall_near_of_on?`: clocks are less than a day ahead or behind.
- `Plain.firstDate?`: the first date; `Plain.occurrence_zero`.
- `Plain.canEstimate_of_ok`, `Plain.elapsedPeriods_le_one`: the estimate before the start.
- `Component.StartsWith`: rules whose first date is at the start.
- `Descriptor.IsAhead`: schedules of one plain rule before their start.
- `Descriptor.next_before_start`: the next occurrence before the start.
- `Descriptor.next_before_start_ne`: starts that are not found.
-/

namespace ScanPolicy

/-! ## How far clocks are off -/

namespace Moment

theorem offsetWith_bounds {m : Moment} (h : m.clock.IsKnown) (fold : Bool) :
    -86400 < m.offsetWith fold ∧ m.offsetWith fold < 86400 := by
  unfold offsetWith
  cases hclock : m.clock with
  | universal =>
    dsimp only
    omega
  | zoned z =>
    rw [hclock] at h
    exact Zone.offsets_bounds h (Zone.offsetAt_mem z m.wall fold)

/-- A wall time is less than a day from its instant. -/
theorem wall_near_instant {m : Moment} (h : m.clock.IsKnown) :
    m.instant < m.wall.ticks + Span.day ∧ m.wall.ticks < m.instant + Span.day := by
  have hbounds : -86400 < m.offset ∧ m.offset < 86400 := offsetWith_bounds h m.fold
  unfold instant
  rw [Span.second_eq, Span.day_eq]
  omega

/-- What a clock shows is less than a day from the time at which it is shown. -/
theorem wall_near_of_on? {clock : Clock} (h : clock.IsKnown) {t : WallTime} {m : Moment}
    (hm : (universal t).on? clock = some m) :
    t.ticks < m.wall.ticks + Span.day ∧ m.wall.ticks < t.ticks + Span.day := by
  cases clock with
  | universal =>
    obtain rfl : universal t = m := Option.some.inj hm
    rw [wall_universal, Span.day_eq]
    omega
  | zoned z =>
    have hbounds := Zone.offsets_bounds h (Zone.ofUniversal_mem z t)
    rw [(on?_zoned.mp hm).2.2, Span.second_eq, Span.day_eq]
    omega

end Moment

namespace Plain

open Calendar

variable {start : Moment} {c : Component} {f : Frequency} {t now : WallTime}

/-! ## The first date -/

/-- The first date of a rule: in minutes and hours what the clock of the start shows at the instant of
the start, in longer periods what it means by the wall time of the start. -/
def firstDate? (start : Moment) (f : Frequency) : Option Moment :=
  if f.isSubDaily then
    (WallTime.ofTicks? start.instant).bind fun u => (Moment.universal u).on? start.clock
  else some (start.clock.reading start.wall)

/-- Adding no period gives the first date. -/
theorem occurrence_zero (hf : c.freq = some f) (ht : t.ticks = start.instant) :
    occurrence start c 0 = within (firstDate? start f) := by
  unfold firstDate?
  by_cases hsub : f.isSubDaily
  · obtain ⟨unit, hunit⟩ := exists_absolute hsub
    have hway := throughUniversal_eq ht 0
    rw [Int.add_zero] at hway
    have hspan : Span.times? ((0 * c.interval : Nat) : Int) unit = some 0 := by
      rw [Nat.zero_mul]
      exact Span.times?_eq_some_iff.mpr ⟨by omega, by decide⟩
    unfold occurrence
    rw [hf]
    dsimp only
    rw [hunit, if_pos hsub, ← hway]
    dsimp only
    rw [hspan]
    rfl
  · rw [if_neg hsub]
    rcases occurrence_of_not_isSubDaily hsub hf 0 with ⟨w, hw, ho⟩ | ⟨hend, -⟩
    · rw [point_zero] at hw
      rw [ho, WallTime.ext hw]
      rfl
    · rw [point_zero] at hend
      exact absurd start.wall.inCalendar (not_lt.mpr hend)

theorem isOn_firstDate {first : Moment} (h : firstDate? start f = some first) :
    Moment.IsOn start.clock first := by
  unfold firstDate? at h
  split at h
  · obtain ⟨u, -, h⟩ := Option.bind_eq_some_iff.mp h
    exact Moment.isOn_of_on? h
  · cases h
    exact start.clock.isOn_reading start.wall

/-! ## The estimate -/

theorem fdiv_le_one {a p : Int} (hp : 0 < p) (h : a < 2 * p) : a.fdiv p ≤ 1 := by
  rw [Int.fdiv_eq_ediv_of_nonneg _ (le_of_lt hp)]
  exact Int.lt_add_one_iff.mp (Int.ediv_lt_of_lt_mul hp h)

/-- Less than two days later it is at most the month after. -/
theorem monthNumber_le_succ {a b : WallTime} (h : b.ticks < a.ticks + 2 * Span.day) :
    b.date.monthNumber ≤ a.date.monthNumber + 1 := by
  by_contra hlt
  have hmonth := a.liesIn_ticks.add_month_lt b.liesIn_ticks a.date_inMonth.twelve_le (not_le.mp hlt)
  rw [Span.day_eq] at *
  omega

/-- Whether the estimate of the passed periods can be made: the period is a span, and in days and
longer periods the clock of the start shows the moment within the calendar. -/
structure CanEstimate (start : Moment) (c : Component) (f : Frequency) (now : WallTime) : Prop where
  hasSpan : HasSpan f c.interval
  shown : f.isSubDaily ∨ start.clock.Shows now.ticks

theorem shows_of_on? {clock : Clock} {here : Moment}
    (h : (Moment.universal now).on? clock = some here) : clock.Shows now.ticks :=
  ⟨now, rfl, by rw [h]; rfl⟩

theorem exists_on?_of_shows {clock : Clock} (h : clock.Shows now.ticks) :
    ∃ here, (Moment.universal now).on? clock = some here := by
  obtain ⟨u, hu, hshown⟩ := h
  rw [WallTime.ext hu] at hshown
  exact Option.isSome_iff_exists.mp hshown

theorem canEstimate_of_ok {n : Int} (h : elapsedPeriods start c f (Moment.universal now) = .ok n) :
    CanEstimate start c f now := by
  unfold elapsedPeriods at h
  cases hunit : f.unit with
  | absolute unit =>
    rw [hunit] at h
    obtain ⟨period, hperiod, -⟩ := bind_eq_ok_iff.mp h
    refine ⟨?_, .inl (isSubDaily_of_absolute hunit)⟩
    unfold HasSpan
    rw [hunit]
    exact Option.isSome_iff_exists.mpr ⟨period, some_of_within hperiod⟩
  | wall unit =>
    rw [hunit] at h
    obtain ⟨here, hhere, h⟩ := bind_eq_ok_iff.mp h
    obtain ⟨period, hperiod, -⟩ := bind_eq_ok_iff.mp h
    refine ⟨?_, .inr (shows_of_on? (some_of_within hhere))⟩
    unfold HasSpan
    rw [hunit]
    exact Option.isSome_iff_exists.mpr ⟨period, some_of_within hperiod⟩
  | months unit =>
    rw [hunit] at h
    obtain ⟨here, hhere, -⟩ := bind_eq_ok_iff.mp h
    refine ⟨?_, .inr (shows_of_on? (some_of_within hhere))⟩
    unfold HasSpan
    rw [hunit]
    trivial

/-- Before the start the estimate is one period at most. -/
theorem elapsedPeriods_le_one (hknown : start.clock.IsKnown) (hinterval : 0 < c.interval)
    (hcan : CanEstimate start c f now) (hnow : now.ticks < start.instant) :
    ∃ n ≤ 1, elapsedPeriods start c f (Moment.universal now) = .ok n := by
  -- before the start its clock shows less than two days more than the wall of the start
  have hwall : ¬ f.isSubDaily → ∃ here, (Moment.universal now).on? start.clock = some here ∧
      here.wall.ticks < start.wall.ticks + 2 * Span.day := by
    intro hsub
    obtain ⟨here, hhere⟩ := exists_on?_of_shows (hcan.shown.resolve_left hsub)
    have hfrom := (Moment.wall_near_instant hknown).1
    have hto := (Moment.wall_near_of_on? hknown hhere).2
    exact ⟨here, hhere, by omega⟩
  cases hunit : f.unit with
  | absolute unit =>
    have hperiod := period_of_hasSpan (.inl hunit) hcan.hasSpan
    have hpos := period_pos (.inl hunit) hinterval
    refine ⟨_, fdiv_le_one hpos ?_, elapsedPeriods_absolute hunit hperiod⟩
    rw [Moment.since_eq (.inl rfl), Moment.instant_universal]
    omega
  | wall unit =>
    obtain ⟨hsub, hday⟩ := not_isSubDaily_of_wall hunit
    have hperiod := period_of_hasSpan (.inr hunit) hcan.hasSpan
    have hle := unit_le_period (.inr hunit) hinterval
    have hpos := period_pos (.inr hunit) hinterval
    obtain ⟨here, hhere, hlt⟩ := hwall hsub
    refine ⟨_, fdiv_le_one hpos ?_, elapsedPeriods_wall hunit hperiod hhere⟩
    omega
  | months unit =>
    have hsub : ¬ f.isSubDaily := by
      cases f <;> cases hunit <;> decide
    obtain ⟨here, hhere, hlt⟩ := hwall hsub
    have hmonth := monthNumber_le_succ hlt
    have hpos := period_months_pos hunit hinterval
    refine ⟨_, fdiv_le_one hpos ?_, elapsedPeriods_months hunit hhere⟩
    omega

/-! ## The first number -/

/-- The search of a rule goes from the estimate down and then up. -/
theorem firstIndexAfter_of_freq (hf : c.freq = some f) (now : Moment) :
    firstIndexAfter start c now = (elapsedPeriods start c f now >>= fun estimate =>
      descend start c now estimate.toNat >>= fun index => ascend start c now horizon index) := by
  unfold firstIndexAfter
  rw [hf]

/-- Before the first date the search finds number zero: from the estimate it goes down at once, and
then not up. -/
theorem firstIndexAfter_zero {first : Moment} (hknown : start.clock.IsKnown) (hf : c.freq = some f)
    (hinterval : 0 < c.interval) (hcan : CanEstimate start c f now)
    (hoccurrence : occurrence start c 0 = .ok first) (hfirst : first.instant = start.instant)
    (hnow : now.ticks < start.instant) :
    firstIndexAfter start c (Moment.universal now) = .ok 0 := by
  obtain ⟨n, hn, hestimate⟩ := elapsedPeriods_le_one hknown hinterval hcan hnow
  have hbefore : (Moment.universal now).before first = true := by
    rw [Moment.before_eq (.inl rfl), Moment.instant_universal, hfirst]
    exact decide_eq_true hnow
  have hdown : descend start c (Moment.universal now) n.toNat = .ok 0 := by
    rcases (show n.toNat = 0 ∨ n.toNat = 1 by omega) with hzero | hone
    · rw [hzero]
      rfl
    · rw [hone]
      unfold descend
      rw [hoccurrence]
      exact if_pos hbefore
  have hup : ascend start c (Moment.universal now) horizon 0 = .ok 0 := by
    unfold horizon ascend
    rw [hoccurrence]
    refine if_neg fun hafter => ?_
    rw [Moment.notAfter_eq_not_before, hbefore] at hafter
    cases hafter
  rw [firstIndexAfter_of_freq hf]
  exact bind_eq_ok_iff.mpr ⟨n, hestimate, bind_eq_ok_iff.mpr ⟨0, hdown, hup⟩⟩

/-- Where the estimate cannot be made, the search ends. -/
theorem firstIndexAfter_of_not_canEstimate (hf : c.freq = some f) (hcannot : ¬ CanEstimate start c f now) :
    ∃ e : Fault, e.endsSearch ∧ firstIndexAfter start c (Moment.universal now) = .error e := by
  have hfails := elapsedPeriods_failsOnly start c (Moment.universal now) f
  rw [firstIndexAfter_of_freq hf]
  cases hestimate : elapsedPeriods start c f (Moment.universal now) with
  | ok n => exact absurd (canEstimate_of_ok hestimate) hcannot
  | error e => exact ⟨e, hfails e hestimate, rfl⟩

end Plain

/-! ## Schedules -/

/-- Whether the first date of a rule is at the start, and not after the last moment of the rule. -/
structure Component.StartsWith (c : Component) (start : Moment) (f : Frequency) (first : Moment) :
    Prop where
  isFirst : Plain.firstDate? start f = some first
  atStart : first.instant = start.instant
  inBound : ∀ u ∈ c.bound, ¬ u.before first

/-- The first date is the start if its clock shows it, and for the first time. -/
theorem Component.startsWith_start {c : Component} {start : Moment} (f : Frequency)
    (hshown : start.IsShownFirst) (hbound : ∀ u ∈ c.bound, ¬ u.before start) :
    c.StartsWith start f start := by
  obtain ⟨hfold, t, ht, hshown⟩ := hshown
  refine ⟨?_, rfl, hbound⟩
  unfold Plain.firstDate?
  by_cases hsub : f.isSubDaily
  · rw [if_pos hsub, ← ht, WallTime.ofTicks?_ticks]
    exact hshown
  · have hreading : start.clock.reading start.wall = start := by
      unfold Clock.reading
      rw [← hfold]
    rw [if_neg hsub, hreading]

namespace Descriptor

/-- A rule that was read has a count of at least one, if it has one. -/
theorem count_pos_of_parse {text : Text} {zoneName : Option Text} {d : Descriptor}
    (hparse : (parse text zoneName).run.value = .ok d) {c : Component} (hc : c ∈ d.components) :
    ∀ n ∈ c.count, 0 < n := by
  intro n hn
  obtain ⟨properties, -, hread⟩ := isRead_of_parse hparse
  rcases hread.components_eq with honce | hrules
  · rw [honce] at hc
    obtain rfl := List.mem_singleton.mp hc
    obtain rfl : 1 = n := Option.some.inj hn
    exact Nat.one_pos
  · obtain ⟨p, -, hcomponent⟩ := hrules c hc
    obtain ⟨all, -, hread⟩ := Component.isRead_of_parse hcomponent
    have hcount := hread.count_eq
    rw [Option.mem_def.mp hn] at hcount
    unfold Component.countOf at hcount
    split at hcount
    · obtain ⟨m, hm, heq⟩ := map_eq_ok_iff.mp hcount
      cases heq
      exact (Component.positive_of_ok hm).1
    · cases hcount

/-- Whether a schedule is one plain rule, and its start a time later than a moment. -/
structure IsAhead (d : Descriptor) (c : Component) (f : Frequency) (t now : WallTime) : Prop where
  components : d.components = [c]
  freq : c.freq = some f
  plain : c.expanders = []
  dates : d.dates = []
  excluded : d.excluded = []
  start : t.ticks = d.start.instant
  later : now.ticks < t.ticks

theorem isAhead_of {d : Descriptor} {c : Component} {f : Frequency} {t now : WallTime}
    (hcomponents : d.components = [c]) (hf : c.freq = some f) (hplain : c.expanders = [])
    (hempty : (d.dates.isEmpty && d.excluded.isEmpty) = true) (hstart : t.ticks = d.start.instant)
    (hlater : now.ticks < t.ticks) : d.IsAhead c f t now := by
  obtain ⟨hdates, hexcluded⟩ := Bool.and_eq_true_iff.mp hempty
  exact ⟨hcomponents, hf, hplain, List.isEmpty_iff.mp hdates, List.isEmpty_iff.mp hexcluded, hstart,
    hlater⟩

section IsAhead

variable {text : Text} {zoneName : Option Text} {d : Descriptor} {c : Component} {f : Frequency}
  {first : Moment} {t now : WallTime}

theorem IsAhead.mem (h : d.IsAhead c f t now) : c ∈ d.components := by
  rw [h.components]
  exact List.mem_singleton_self c

/-- The rule is the only source. -/
theorem IsAhead.sources_eq (h : d.IsAhead c f t now) : d.sources = [.rule c] := by
  unfold sources
  rw [h.components, h.dates]
  rfl

/-- If the estimate can be made, the rule gives its first date. -/
theorem IsAhead.nthAfter_of_canEstimate (hahead : d.IsAhead c f t now)
    (hparse : (parse text zoneName).run.value = .ok d) (hfirst : c.StartsWith d.start f first)
    (hcan : Plain.CanEstimate d.start c f now) :
    (Source.rule c).nthAfter d (Moment.universal now) 0 = .ok (some first) := by
  have hknown : d.start.clock.IsKnown := by
    rw [start_clock hparse]
    exact zone_isKnown hparse
  have hoccurrence : Plain.occurrence d.start c 0 = .ok first := by
    rw [Plain.occurrence_zero hahead.freq hahead.start, hfirst.isFirst]
    rfl
  have hzero := Plain.firstIndexAfter_zero hknown hahead.freq
    (component_of_parse hparse hahead.mem).1 hcan hoccurrence hfirst.atStart
    (hahead.start ▸ hahead.later)
  -- no number is excluded, so that number zero stays
  have hindices : Plain.excludedIndices d c = [] := by
    unfold Plain.excludedIndices
    rw [hahead.excluded]
    rfl
  have hgives : c.Gives d.start (Plain.advance 0 0 (Plain.excludedIndices d c)) first := by
    rw [hindices]
    exact ⟨count_pos_of_parse hparse hahead.mem, hoccurrence, hfirst.inBound⟩
  rw [Source.nthAfter_plain hahead.plain, Source.plainNth_of_gives hzero hgives]
  rfl

/-- If it cannot, the rule seems to be over. -/
theorem IsAhead.nthAfter_of_not_canEstimate (hahead : d.IsAhead c f t now)
    (hcannot : ¬ Plain.CanEstimate d.start c f now) :
    (Source.rule c).nthAfter d (Moment.universal now) 0 = .ok none := by
  obtain ⟨e, he, hsearch⟩ := Plain.firstIndexAfter_of_not_canEstimate hahead.freq hcannot
  rw [Source.nthAfter_plain hahead.plain]
  unfold Source.plainNth
  rw [hsearch]
  exact Source.orNone_error he

end IsAhead

/-- Before the start of a schedule of one plain rule, whose first date is at the start, the start is the
next occurrence. This is so exactly if the estimate of the passed periods can be made: if it cannot,
the schedule seems to be over before it has begun. -/
theorem next_before_start {text : Text} {zoneName : Option Text} {d : Descriptor} {c : Component}
    {f : Frequency} {first : Moment} {t now : WallTime}
    (hparse : (parse text zoneName).run.value = .ok d) (hahead : d.IsAhead c f t now)
    (hfirst : c.StartsWith d.start f first) :
    (Plain.CanEstimate d.start c f now →
      d.next (Moment.universal now) 0 = .ok (some (Moment.universal t))) ∧
    (¬ Plain.CanEstimate d.start c f now → d.next (Moment.universal now) 0 = .ok none) := by
  constructor
  · intro hcan
    have hnth := hahead.nthAfter_of_canEstimate hparse hfirst hcan
    have hnext := next_of_one_source hahead.sources_eq hnth hnth fun h => h
    have hinstant : first.instant = t.ticks := hfirst.atStart.trans hahead.start.symm
    rw [Int.ofNat_zero] at hnext
    rw [hnext]
    show some <$> within first.universal? = _
    rw [Moment.universal?_of_instant (Plain.isOn_firstDate hfirst.isFirst) hinstant]
    rfl
  · intro hcannot
    have hnth := hahead.nthAfter_of_not_canEstimate hcannot
    have hnext := next_of_one_source hahead.sources_eq hnth hnth fun h => h
    rwa [Int.ofNat_zero] at hnext

/-- Half past midnight of universal time is the first half past two of the night in which Berlin
repeats an hour, and also the last moment of the rule. -/
theorem next_before_start_of_repeated_hour : ∃ d c t now,
    (parse "DTSTART:20241027T003000Z\nRRULE:FREQ=WEEKLY;INTERVAL=2;UNTIL=20241027T003000Z".toList
      (some "Europe/Berlin".toList)).run.value = .ok d ∧ d.IsAhead c .weekly t now ∧
    d.next (Moment.universal now) 0 = .ok (some (Moment.universal t)) := by
  obtain ⟨d, c, t, now, u, hd, hcomponents, hf, hplain, hempty, ht, hnow, hinterval, hbound, hclock,
      hsame, hwall, hfold, hstart, hlater, hnotBefore, hnowShown⟩ : ∃ d c t now u,
      (parse "DTSTART:20241027T003000Z\nRRULE:FREQ=WEEKLY;INTERVAL=2;UNTIL=20241027T003000Z".toList
        (some "Europe/Berlin".toList)).run.value = .ok d ∧ d.components = [c] ∧
      c.freq = some .weekly ∧ c.expanders = [] ∧ (d.dates.isEmpty && d.excluded.isEmpty) = true ∧
      WallTime.ofFields? ⟨2024, 10, 27⟩ 0 30 0 0 = some t ∧
      WallTime.ofFields? ⟨2024, 10, 27⟩ 0 29 0 0 = some now ∧ c.interval = 2 ∧ c.bound = some u ∧
      d.start.clock = .zoned Zone.Table.europeBerlin ∧
      d.start.fold = (Zone.Table.europeBerlin.ofUniversal t).2 ∧
      d.start.wall.ticks = t.ticks + (Zone.Table.europeBerlin.ofUniversal t).1 * Span.second ∧
      d.start.fold = false ∧ t.ticks = d.start.instant ∧ now.ticks < t.ticks ∧
      ¬ u.before d.start ∧
      ((Moment.universal now).on? (.zoned Zone.Table.europeBerlin)).isSome = true :=
    ⟨_, _, _, _, _, rfl, rfl, rfl, rfl, by decide +kernel, rfl, rfl, rfl, rfl, rfl,
      by decide +kernel, by decide +kernel, by decide +kernel, by decide +kernel, by decide +kernel,
      by decide +kernel, by decide +kernel⟩
  have hahead : d.IsAhead c .weekly t now :=
    isAhead_of hcomponents hf hplain hempty hstart hlater
  have hfirst : c.StartsWith d.start .weekly d.start := by
    have hshown := Moment.on?_zoned.mpr ⟨hclock, hsame, hwall⟩
    refine Component.startsWith_start _ (Zone.isCalm_europeBerlin.isShownFirst hshown hfold) ?_
    intro v hv
    rw [hbound] at hv
    cases hv
    exact hnotBefore
  refine ⟨d, c, t, now, hd, hahead, (next_before_start hd hahead hfirst).1 ⟨?_, .inr ?_⟩⟩
  · rw [hinterval]
    rfl
  · rw [hclock]
    exact ⟨now, rfl, hnowShown⟩

/-- Schedules that seem to be over before they have begun, as the period is no span or as the moment is
before the calendar on the clock of the start; and one that begins an hour too early, as the first date
is the first one of two equal readings. -/
theorem next_before_start_ne :
    (∃ d c t now,
      (parse "DTSTART:20240101T000000Z\nRRULE:FREQ=DAILY;INTERVAL=1000000000".toList
        none).run.value = .ok d ∧ d.IsAhead c .daily t now ∧ c.bound = none ∧
      d.next (Moment.universal now) 0 = .ok none) ∧
    (∃ d c t now,
      (parse "DTSTART;TZID=America/New_York:20240101T000000\nRRULE:FREQ=DAILY".toList
        none).run.value = .ok d ∧ d.IsAhead c .daily t now ∧ c.bound = none ∧
      d.next (Moment.universal now) 0 = .ok none) ∧
    ∃ d c t now early,
      (parse "DTSTART:20241027T013000Z\nRRULE:FREQ=DAILY".toList
        (some "Europe/Berlin".toList)).run.value = .ok d ∧ d.IsAhead c .daily t now ∧
      c.bound = none ∧ d.next (Moment.universal now) 0 = .ok (some early) ∧
      early.instant < t.ticks := by
  refine ⟨?_, ?_, ?_⟩
  · obtain ⟨d, c, t, now, hd, hcomponents, hf, hplain, hbound, ht, hnow, hempty, hstart, hlater,
        hnext⟩ : ∃ d c t now,
        (parse "DTSTART:20240101T000000Z\nRRULE:FREQ=DAILY;INTERVAL=1000000000".toList
          none).run.value = .ok d ∧ d.components = [c] ∧ c.freq = some .daily ∧ c.expanders = [] ∧
        c.bound = none ∧ WallTime.ofFields? ⟨2024, 1, 1⟩ 0 0 0 0 = some t ∧
        WallTime.ofFields? ⟨2023, 12, 31⟩ 0 0 0 0 = some now ∧
        (d.dates.isEmpty && d.excluded.isEmpty) = true ∧ t.ticks = d.start.instant ∧
        now.ticks < t.ticks ∧
        (d.next (Moment.universal now) 0).toOption.any Option.isNone = true :=
      ⟨_, _, _, _, rfl, rfl, rfl, rfl, rfl, rfl, rfl, by decide +kernel, by decide +kernel,
        by decide +kernel, by decide +kernel⟩
    exact ⟨d, c, t, now, hd, isAhead_of hcomponents hf hplain hempty hstart hlater, hbound,
      ok_none_of_any hnext⟩
  · obtain ⟨d, c, t, now, hd, hcomponents, hf, hplain, hbound, ht, hnow, hempty, hstart, hlater,
        hnext⟩ : ∃ d c t now,
        (parse "DTSTART;TZID=America/New_York:20240101T000000\nRRULE:FREQ=DAILY".toList
          none).run.value = .ok d ∧ d.components = [c] ∧ c.freq = some .daily ∧ c.expanders = [] ∧
        c.bound = none ∧ WallTime.ofFields? ⟨2024, 1, 1⟩ 5 0 0 0 = some t ∧
        WallTime.ofFields? ⟨1, 1, 1⟩ 0 0 0 0 = some now ∧
        (d.dates.isEmpty && d.excluded.isEmpty) = true ∧ t.ticks = d.start.instant ∧
        now.ticks < t.ticks ∧
        (d.next (Moment.universal now) 0).toOption.any Option.isNone = true :=
      ⟨_, _, _, _, rfl, rfl, rfl, rfl, rfl, rfl, rfl, by decide +kernel, by decide +kernel,
        by decide +kernel, by decide +kernel⟩
    exact ⟨d, c, t, now, hd, isAhead_of hcomponents hf hplain hempty hstart hlater, hbound,
      ok_none_of_any hnext⟩
  · obtain ⟨d, c, t, now, hd, hcomponents, hf, hplain, hbound, ht, hnow, hempty, hstart, hlater,
        hearly⟩ : ∃ d c t now,
        (parse "DTSTART:20241027T013000Z\nRRULE:FREQ=DAILY".toList
          (some "Europe/Berlin".toList)).run.value = .ok d ∧ d.components = [c] ∧
        c.freq = some .daily ∧ c.expanders = [] ∧ c.bound = none ∧
        WallTime.ofFields? ⟨2024, 10, 27⟩ 1 30 0 0 = some t ∧
        WallTime.ofFields? ⟨2024, 10, 26⟩ 12 0 0 0 = some now ∧
        (d.dates.isEmpty && d.excluded.isEmpty) = true ∧ t.ticks = d.start.instant ∧
        now.ticks < t.ticks ∧
        ((d.next (Moment.universal now) 0).toOption.join.any
          fun early => decide (early.instant < t.ticks)) = true :=
      ⟨_, _, _, _, rfl, rfl, rfl, rfl, rfl, rfl, rfl, by decide +kernel, by decide +kernel,
        by decide +kernel, by decide +kernel⟩
    obtain ⟨early, hnext, hearly⟩ := (Option.any_eq_true _ _).mp hearly
    exact ⟨d, c, t, now, early, hd, isAhead_of hcomponents hf hplain hempty hstart hlater, hbound,
      ok_of_toOption (Option.join_eq_some_iff.mp hnext), decide_eq_true_iff.mp hearly⟩

end Descriptor

end ScanPolicy
