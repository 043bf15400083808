import ScanPolicy.Proofs.Recurrence.Moved

/-!
# Rules of hours and minutes that are started within a period

A period that is laid out has the same dates in every run that comes to it. A run of hours or minutes
does not jump over a period in step that has dates, so the run from an anchor in step rejoins the run
from the start within the anchor's own period; that period need not be over, only the dates before
the anchor.

- `Rule.Run.exists_period`: the dates of a run are those of periods in step with its first one.
- `Rule.Run.reaches`: a run comes to every later period in step that has dates.
- `Rule.HasDate`, `Rule.InStep`: a rule that is moved to a later anchor in step.
- `Rule.rejoins_of_isSubDaily`: then the runs rejoin.
- `Rule.inPhase_of_search`: rules that find the same date are in step.
-/

namespace ScanPolicy

namespace Rule

variable {r : Rule} {p q : Period} {isFirst isFirst' skips : Bool} {dates : Dates}
  {ts : List WallTime} {cost : Nat} {fault : Option Fault}

/-! ## Dates of periods -/

/-- Whether a period is laid out with a date. -/
def IsDateOf (r : Rule) (p : Period) (t : WallTime) : Prop :=
  ∃ isFirst dates skips, r.dates p isFirst = .ok (dates, skips) ∧ t ∈ dates.times

theorem IsDateOf.mem {t : WallTime} (h : r.IsDateOf p t)
    (hdates : r.dates p isFirst = .ok (dates, skips)) : t ∈ dates.times := by
  obtain ⟨isFirst', dates', skips', hdates', ht⟩ := h
  rw [dates_of_ok hdates isFirst'] at hdates'
  cases hdates'
  exact ht

theorem IsDateOf.spans {t : WallTime} (h : r.IsDateOf p t) (hr : r.IsComplete) (hp : p.Fits r.freq) :
    r.freq.Spans r.weekStart (r.number p) t.ticks := by
  obtain ⟨isFirst, dates, skips, hdates, ht⟩ := h
  exact (dates_spec hr hp hdates).spans t ht

/-- The dates of a run are those of periods that are whole numbers of intervals after its first
one. -/
theorem Run.exists_period (h : r.Run cost p isFirst ts fault) (hr : r.IsComplete)
    (hp : p.Fits r.freq) {t : WallTime} (ht : t ∈ ts) :
    ∃ q, q.Fits r.freq ∧ r.IsDateOf q t ∧ r.number p ≤ r.number q ∧
      r.number q % r.interval = r.number p % r.interval := by
  induction h with
  | noDates => cases ht
  | broken hdates => exact ⟨_, hp, ⟨_, _, _, hdates, ht⟩, le_rfl, rfl⟩
  | ended hdates => exact ⟨_, hp, ⟨_, _, _, hdates, ht⟩, le_rfl, rfl⟩
  | stuck hdates => exact ⟨_, hp, ⟨_, _, _, hdates, ht⟩, le_rfl, rfl⟩
  | @more p p' isFirst skips times later cost fault hdates hnext rest ih =>
    rcases List.mem_append.mp ht with ht | ht
    · exact ⟨_, hp, ⟨_, _, _, hdates, ht⟩, le_rfl, rfl⟩
    · obtain ⟨hp', hm, -⟩ := nextPeriod_more hr hp hnext
      obtain ⟨hle, hbase⟩ := r.freq.baseOf_spec hr.interval_pos skips (r.number p)
      obtain ⟨q, hq, hdate, hqle, hqmod⟩ := ih hp' ht
      exact ⟨q, hq, hdate, (hle.trans hm.lt.le).trans hqle, hqmod.trans (hm.mod_eq.trans hbase)⟩

/-- The run from a period that is laid out is the same whether the period is the first one or not. -/
theorem Run.of_ok (h : r.Run cost p isFirst ts fault) (hdates : r.dates p isFirst' = .ok (dates, skips)) :
    r.Run cost p isFirst' ts fault := by
  cases h with
  | noDates h => exact absurd hdates (dates_ne_ok h _)
  | broken h => exact .broken (dates_of_ok h _)
  | ended h hnext => exact .ended (dates_of_ok h _) hnext
  | stuck h hnext => exact .stuck (dates_of_ok h _) hnext
  | more h hnext rest => exact .more (dates_of_ok h _) hnext rest

/-! ## Reaching a period -/

/-- A period with dates is allowed. -/
theorem allowedNumber_of_isDateOf (hq : q.Fits r.freq) {t : WallTime} (h : r.IsDateOf q t) :
    r.AllowedNumber (r.number q) := by
  obtain ⟨isFirst, dates, skips, hdates, ht⟩ := h
  obtain ⟨f, times, -, htimes, hfound⟩ := dates_eq_ok_iff.mp hdates
  have hne : times ≠ [] := by
    rintro rfl
    have hnil := datesIn_nil (r := r) f q
    rw [hfound] at hnil
    rw [show dates.times = [] from hnil] at ht
    cases ht
  unfold AllowedNumber
  generalize hf : r.freq = freq at *
  cases hq with
  | @hour d h hd hh =>
    have hhour : (24 * d + h) % 24 = h := by omega
    show allows r.hours ((24 * d + h) % 24) = true
    rw [hhour]
    simp only [timesIn] at htimes
    split at htimes
    · assumption
    · exact absurd (Except.ok.inj htimes).symm hne
  | @minute d h m hd hh hm =>
    have hhour : (1440 * d + 60 * h + m) / 60 % 24 = h := by omega
    have hminute : (1440 * d + 60 * h + m) % 60 = m := by omega
    show allows r.hours ((1440 * d + 60 * h + m) / 60 % 24) = true ∧
      allows r.minutes ((1440 * d + 60 * h + m) % 60) = true
    rw [hhour, hminute]
    simp only [timesIn] at htimes
    split at htimes
    · next hallowed => exact Bool.and_eq_true_iff.mp hallowed
    · exact absurd (Except.ok.inj htimes).symm hne
  | _ => trivial

/-- A run comes to every later period in step that has dates, unless it breaks off before. -/
theorem Run.reaches (h : r.Run cost p isFirst ts fault) (hr : r.IsComplete)
    (hweekly : r.freq ≠ .weekly) (hp : p.Fits r.freq) (hq : q.Fits r.freq) {t : WallTime}
    (ht : r.IsDateOf q t) (hmod : r.number p % r.interval = r.number q % r.interval)
    (hlt : r.number p < r.number q) :
    ∃ before rest, ts = before ++ rest ∧
      (∀ t ∈ before, ∃ m, m < r.number q ∧ r.freq.Spans r.weekStart m t.ticks) ∧
      ((rest = [] ∧ ∃ e, fault = some e) ∨ ∃ cost isFirst, r.Run cost q isFirst rest fault) := by
  obtain ⟨_, _, _, hdates', ht'⟩ := id ht
  have hallowed := allowedNumber_of_isDateOf hq ht
  -- The steps to the next period begin before `q`, as the day of `q` is not passed over.
  have hbase : ∀ {p : Period} {isFirst skips : Bool} {dates : Dates}, p.Fits r.freq →
      r.number p % r.interval = r.number q % r.interval → r.number p < r.number q →
      r.dates p isFirst = .ok (dates, skips) →
      r.freq.baseOf r.interval skips (r.number p) < r.number q := by
    intro p isFirst skips dates hp hmod hlt hdates
    by_contra hle
    have hnone := (baseOf_le hr hq hp hmod.symm hdates' hdates (not_lt.mp hle)).2 hlt
    rw [hnone] at ht'
    cases ht'
  induction h with
  | noDates => exact ⟨[], [], rfl, fun _ ht => (nomatch ht), .inl ⟨rfl, _, rfl⟩⟩
  | broken hdates =>
    exact ⟨_, [], (List.append_nil _).symm,
      fun u hu => ⟨_, hlt, (Rule.dates_spec hr hp hdates).spans u hu⟩, .inl ⟨rfl, _, rfl⟩⟩
  | stuck hdates =>
    exact ⟨_, [], (List.append_nil _).symm,
      fun u hu => ⟨_, hlt, (Rule.dates_spec hr hp hdates).spans u hu⟩, .inl ⟨rfl, _, rfl⟩⟩
  | @ended p isFirst skips times hdates hnext =>
    exact absurd hnext (nextPeriod_ne_done hr hp hq hallowed hmod.symm (hbase hp hmod hlt hdates))
  | @more p p' isFirst skips times later cost fault hdates hnext rest ih =>
    have htimes : ∀ u ∈ times, ∃ m, m < r.number q ∧ r.freq.Spans r.weekStart m u.ticks :=
      fun u hu => ⟨_, hlt, (Rule.dates_spec hr hp hdates).spans u hu⟩
    obtain ⟨-, hbaseMod⟩ := r.freq.baseOf_spec hr.interval_pos skips (r.number p)
    obtain ⟨hp', hm, -⟩ := nextPeriod_more hr hp hnext
    have hmod' := hm.mod_eq.trans (hbaseMod.trans hmod)
    have hle := hm.least _ (hbase hp hmod hlt hdates) (hmod.symm.trans hbaseMod.symm) hallowed
    rcases Nat.eq_or_lt_of_le hle with heq | hlt'
    · obtain rfl := eq_of_number hweekly hp' hq heq
      exact ⟨times, later, rfl, htimes, .inr ⟨_, _, rest⟩⟩
    · obtain ⟨before, rest', rfl, hbefore, hrest⟩ := ih hp' hmod' hlt'
      refine ⟨times ++ before, rest', (List.append_assoc _ _ _).symm, fun u hu => ?_, hrest⟩
      rcases List.mem_append.mp hu with hu | hu
      · exact htimes u hu
      · exact hbefore u hu

/-! ## Rejoining -/

/-- Whether a time is a date of the run of a rule. -/
def HasDate (r : Rule) (t : WallTime) : Prop :=
  ∃ cost ts fault, r.Run cost r.firstPeriod true ts fault ∧ t ∈ ts

/-- Whether the first period of another rule is a whole number of intervals away. -/
def InPhase (r moved : Rule) : Prop :=
  r.number r.firstPeriod % r.interval = r.number moved.firstPeriod % r.interval

/-- Whether a rule is moved to a later anchor in step, before which it has no date after a moment. -/
structure InStep (r moved : Rule) (now : Moment) : Prop where
  later : r.anchor.wall.ticks ≤ moved.anchor.wall.ticks
  phase : r.InPhase moved
  isOver : ∀ t, r.HasDate t → t.ticks < moved.anchor.wall.ticks → ¬ now.before (r.moment t)

/-- A period within a day ends within the calendar. -/
theorem end_le_of_isSubDaily {f : Frequency} (hf : f.isSubDaily = true) (hq : q.Fits f)
    (weekStart : Nat) :
    f.startOf weekStart (q.number weekStart + 1) ≤ (Calendar.dayCount : Int) * Span.day := by
  cases hq with
  | @hour d h hd hh =>
    simp only [Frequency.startOf, Period.number, Span.hour_eq, Span.day_eq]
    omega
  | @minute d h m hd hh hm =>
    simp only [Frequency.startOf, Period.number, Span.minute_eq, Span.day_eq]
    omega
  | year => cases hf
  | month => cases hf
  | week => cases hf
  | day => cases hf

section Rejoins

variable {anchor now : Moment} {early late early' late' ts' : List WallTime} {cost' : Nat}
  {fault' : Option Fault}

/-- Two runs that are cut at the anchor. -/
theorem splits_of_anchor (hlater : r.anchor.wall.ticks ≤ anchor.wall.ticks)
    (hover : ∀ t ∈ early, t.ticks < anchor.wall.ticks ∧ ¬ now.before (r.moment t))
    (hover' : ∀ t ∈ early', t.ticks < anchor.wall.ticks ∧ ¬ now.before (r.moment t))
    (hlate : ∀ t ∈ late, anchor.wall.ticks ≤ t.ticks)
    (hlate' : ∀ t ∈ late', anchor.wall.ticks ≤ t.ticks) (hmeets : Meets late late' fault fault') :
    r.Splits anchor now early late early' late' fault fault' where
  isOver t ht := (hover t ht).2
  isOver' t ht := (hover' t ht).2
  lt a ha b hb := lt_of_lt_of_le (hover a ha).1 (hlate' b hb)
  lt' a ha b hb := lt_of_lt_of_le (hover' a ha).1 (hlate b hb)
  reached t ht := ⟨hlater.trans (hlate t ht), hlate t ht⟩
  meets := hmeets

section Runs

variable (hr : r.IsComplete) (hp : p.Fits r.freq) (hq : q.Fits r.freq)
  (hanchor : r.freq.Spans r.weekStart (r.number q) anchor.wall.ticks)
  (hlater : r.anchor.wall.ticks ≤ anchor.wall.ticks) (hrun : r.Run cost p true ts fault)
  (hrun' : r.Run cost' q true ts' fault')
  (hover : ∀ t ∈ ts, t.ticks < anchor.wall.ticks → ¬ now.before (r.moment t))

include hr hp hlater hrun hover in
/-- A run joins itself. -/
theorem Run.joins_self : r.Joins anchor now ts ts fault fault := by
  obtain ⟨early, late, rfl, hearly, hlate⟩ := exists_split anchor.wall.ticks (hrun.dates_spec hr hp).1
  have hisOver : ∀ t ∈ early, t.ticks < anchor.wall.ticks ∧ ¬ now.before (r.moment t) := fun t ht =>
    ⟨hearly t ht, hover t (List.mem_append_left _ ht) (hearly t ht)⟩
  exact ⟨early, late, early, late, rfl, rfl,
    splits_of_anchor hlater hisOver hisOver hlate hlate (.same rfl rfl)⟩

include hr hp hq hlater hrun hrun' hover in
/-- A run from a period that cannot be laid out. -/
theorem Run.joins_of_error (hf : r.freq.numbersWeekdays = false) (hlt : r.number p < r.number q)
    {e : Fault} (hdates' : r.dates q true = .error e) : r.Joins anchor now ts ts' fault fault' := by
  obtain ⟨rfl, rfl⟩ := hrun'.eq_of_error hdates'
  obtain ⟨early, late, heq, hearly, hlate⟩ := exists_split anchor.wall.ticks (hrun.dates_spec hr hp).1
  have hisOver : ∀ t ∈ early, t.ticks < anchor.wall.ticks ∧ ¬ now.before (r.moment t) := fun t ht =>
    ⟨hearly t ht, hover t (heq ▸ List.mem_append_left _ ht) (hearly t ht)⟩
  refine ⟨early, late, [], [], heq, rfl, splits_of_anchor hlater hisOver
    (fun t ht => (nomatch ht)) hlate (fun t ht => (nomatch ht)) ?_⟩
  rcases meets_of_error hr hf hp hq hlt hdates' hrun with ⟨rfl, hmeets⟩ | hfails
  · obtain ⟨rfl, rfl⟩ := List.append_eq_nil_iff.mp heq.symm
    exact hmeets
  · exact .fails rfl rfl hfails

include hr hp hq hanchor hlater hrun hrun' hover in
/-- A run from a period without dates. -/
theorem Run.joins_of_empty (hf : r.freq.isSubDaily = true) (hlt : r.number p < r.number q)
    (hmod : r.number p % r.interval = r.number q % r.interval) (hempty : ∀ t, ¬ r.IsDateOf q t) :
    r.Joins anchor now ts ts' fault fault' := by
  have hweekly : r.freq ≠ .weekly := fun h => by rw [h] at hf; cases hf
  obtain ⟨early, late, early', late', hcut, hcut', hmeets⟩ :=
    runs_meet hr hp hq hlt hmod (end_le_of_isSubDaily hf hq _) hrun hrun'
  -- No date lies in the period, so what is not after it comes before it.
  have hbefore : ∀ {p : Period} {ts : List WallTime} {cost : Nat} {fault : Option Fault},
      p.Fits r.freq → r.Run cost p true ts fault → ∀ t ∈ ts, ∀ m, m ≤ r.number q →
        r.freq.Spans r.weekStart m t.ticks → m < r.number q ∧ r.number p ≤ m := by
    intro p ts cost fault hp hrun t ht m hm hspans
    obtain ⟨q', hq', hdate, hle, -⟩ := hrun.exists_period hr hp ht
    obtain rfl := (hdate.spans hr hq').unique hspans
    refine ⟨lt_of_le_of_ne hm fun heq => ?_, hle⟩
    rw [eq_of_number hweekly hq' hq heq] at hdate
    exact hempty t hdate
  have hnil : early' = [] := by
    refine List.eq_nil_iff_forall_not_mem.mpr fun t ht => ?_
    obtain ⟨m, hm, hspans⟩ := hcut'.early_le t ht
    obtain ⟨hlt, hge⟩ := hbefore hq hrun' t (hcut'.eq_append ▸ List.mem_append_left _ ht) m hm hspans
    exact absurd hge (not_le.mpr hlt)
  refine ⟨early, late, early', late', hcut.eq_append, hcut'.eq_append,
    splits_of_anchor hlater (fun t ht => ?_) (fun t ht => by rw [hnil] at ht; cases ht) (fun t ht => ?_)
      (fun t ht => ?_) hmeets⟩
  · obtain ⟨m, hm, hspans⟩ := hcut.early_le t ht
    have hmem : t ∈ ts := hcut.eq_append ▸ List.mem_append_left _ ht
    have hlt := hspans.lt_of_lt hanchor (hbefore hp hrun t hmem m hm hspans).1
    exact ⟨hlt, hover t hmem hlt⟩
  · obtain ⟨m, hm, hspans⟩ := hcut.late_gt t ht
    exact (hanchor.lt_of_lt hspans hm).le
  · obtain ⟨m, hm, hspans⟩ := hcut'.late_gt t ht
    exact (hanchor.lt_of_lt hspans hm).le

include hr hp hq hanchor hlater hrun hrun' hover in
/-- A run from a period with dates. -/
theorem Run.joins_of_isDateOf (hweekly : r.freq ≠ .weekly) (hlt : r.number p < r.number q)
    (hmod : r.number p % r.interval = r.number q % r.interval) {t : WallTime} (ht : r.IsDateOf q t) :
    r.Joins anchor now ts ts' fault fault' := by
  obtain ⟨hsorted', hspans'⟩ := hrun'.dates_spec hr hq
  obtain ⟨before, rest, rfl, hbefore, hrest⟩ := hrun.reaches hr hweekly hp hq ht hmod hlt
  have hisOver : ∀ u ∈ before, u.ticks < anchor.wall.ticks ∧ ¬ now.before (r.moment u) := by
    intro u hu
    obtain ⟨m, hm, hspans⟩ := hbefore u hu
    have hlt := hspans.lt_of_lt hanchor hm
    exact ⟨hlt, hover u (List.mem_append_left _ hu) hlt⟩
  rcases hrest with ⟨rfl, e, hfault⟩ | ⟨cost, isFirst, hrest⟩
  · -- The run breaks off before the period, and the later one has dates from there on.
    refine ⟨before, [], [], ts', rfl, rfl, fun u hu => (hisOver u hu).2,
      fun u hu => (nomatch hu), fun a ha b hb => ?_, fun u hu => (nomatch hu),
      fun u hu => (nomatch hu), .breaksOff rfl hfault⟩
    obtain ⟨m, hm, hspans⟩ := hbefore a ha
    obtain ⟨m', hm', hspans'⟩ := hspans' b hb
    exact hspans.lt_of_lt hspans' (lt_of_lt_of_le hm hm')
  · obtain ⟨_, _, _, hdates, -⟩ := id ht
    obtain ⟨rfl, rfl⟩ := (hrest.of_ok (dates_of_ok hdates true)).unique hrun'
    obtain ⟨early, late, rfl, hearly, hlate⟩ := exists_split anchor.wall.ticks hsorted'
    have hown : ∀ u ∈ early, u.ticks < anchor.wall.ticks ∧ ¬ now.before (r.moment u) := fun u hu =>
      ⟨hearly u hu, hover u (List.mem_append_right _ (List.mem_append_left _ hu)) (hearly u hu)⟩
    refine ⟨before ++ early, late, early, late, (List.append_assoc _ _ _).symm, rfl,
      splits_of_anchor hlater (fun u hu => ?_) hown hlate hlate (.same rfl rfl)⟩
    rcases List.mem_append.mp hu with hu | hu
    · exact hisOver u hu
    · exact hown u hu

end Runs

/-- The run from an anchor in step rejoins the run of a rule of hours or minutes if the dates before
the anchor are over. -/
theorem rejoins_of_isSubDaily (hr : r.IsComplete) (hf : r.freq.isSubDaily = true)
    (hlater : r.anchor.wall.ticks ≤ anchor.wall.ticks)
    (hmod : r.number r.firstPeriod % r.interval =
      r.number (Period.ofTime r.freq anchor.wall) % r.interval)
    (hover : ∀ t, r.HasDate t → t.ticks < anchor.wall.ticks → ¬ now.before (r.moment t)) :
    r.Rejoins anchor now := by
  have hweekly : r.freq ≠ .weekly := fun h => by rw [h] at hf; cases hf
  have hdays : r.freq.numbersWeekdays = false := by
    refine Bool.eq_false_iff.mpr fun h => ?_
    rw [Frequency.isSubDaily_of_numbersWeekdays h] at hf
    cases hf
  have hp := r.firstPeriod_fits
  have hq := Period.ofTime_fits r.freq anchor.wall
  have hstart := Period.ofTime_spans r.freq hr.weekStart_lt r.anchor.wall
  have hanchor := Period.ofTime_spans r.freq hr.weekStart_lt anchor.wall
  have hle := hstart.le_of_le hanchor hlater
  rw [← firstPeriod_eq] at hle
  obtain ⟨cost, ts, fault, hrun⟩ := exists_run hr hp true
  obtain ⟨cost', ts', fault', hrun'⟩ := exists_run hr hq true
  have hover : ∀ t ∈ ts, t.ticks < anchor.wall.ticks → ¬ now.before (r.moment t) := fun t ht =>
    hover t ⟨cost, ts, fault, hrun, ht⟩
  refine ⟨cost, cost', ts, ts', fault, fault', hrun, hrun', ?_⟩
  rcases Nat.eq_or_lt_of_le hle with heq | hlt
  · rw [← eq_of_number hweekly hp hq heq] at hrun'
    obtain ⟨rfl, rfl⟩ := hrun.unique hrun'
    exact hrun.joins_self hr hp hlater hover
  · cases hdates' : r.dates (Period.ofTime r.freq anchor.wall) true with
    | error e => exact hrun.joins_of_error hr hp hq hlater hrun' hover hdays hlt hdates'
    | ok found =>
      by_cases hempty : ∀ t, ¬ r.IsDateOf (Period.ofTime r.freq anchor.wall) t
      · exact hrun.joins_of_empty hr hp hq hanchor hlater hrun' hover hf hlt hmod hempty
      · obtain ⟨t, ht⟩ := not_forall_not.mp hempty
        exact hrun.joins_of_isDateOf hr hp hq hanchor hlater hrun' hover hweekly hlt hmod ht

end Rejoins

/-! ## What a search finds -/

/-- What a search finds is a date of the rule from the anchor on, in a period in step. -/
theorem exists_period_of_search (hr : r.IsComplete) (hcount : r.count = none) {excluded : List Moment}
    {now m : Moment} {k : Nat} (h : search RuleSet.step now stepLimit (.after k)
      (RuleSet.ofRules [r] [] excluded) = .ok (some m)) :
    ∃ t n, r.moment t = m ∧ r.anchor.wall.ticks ≤ t.ticks ∧ r.freq.Spans r.weekStart n t.ticks ∧
      n % r.interval = r.number r.firstPeriod % r.interval := by
  obtain ⟨cost, ts, fault, hrun⟩ := exists_run hr r.firstPeriod_fits true
  rw [search_eq_found hr hcount hrun] at h
  obtain ⟨t, ht, hm, -, hlate⟩ := mem_of_mem_kept ((sweep_sublist _ _).subset (Sought.mem_of_outcome h))
  obtain ⟨q, hq, hdate, -, hmod⟩ := hrun.exists_period hr r.firstPeriod_fits ht
  exact ⟨t, r.number q, hm, hlate, hdate.spans hr hq, hmod⟩

/-- Rules that find the same date with the same intervals are in step. -/
theorem inPhase_of_search {moved : Rule} (hr : r.IsComplete) (hcount : r.count = none)
    (hmoved : moved.IsComplete) (hcount' : moved.count = none) (hfreq : moved.freq = r.freq)
    (hinterval : moved.interval = r.interval) (hweek : moved.weekStart = r.weekStart)
    {excluded : List Moment} {now m : Moment} {k : Nat}
    (h : search RuleSet.step now stepLimit (.after k) (RuleSet.ofRules [r] [] excluded) = .ok (some m))
    (h' : search RuleSet.step now stepLimit (.after k) (RuleSet.ofRules [moved] [] excluded) =
      .ok (some m)) : r.InPhase moved ∧ moved.anchor.wall.ticks ≤ m.wall.ticks := by
  obtain ⟨t, n, rfl, -, hspans, hmod⟩ := exists_period_of_search hr hcount h
  obtain ⟨t', n', hm, hlate, hspans', hmod'⟩ := exists_period_of_search hmoved hcount' h'
  obtain rfl : t' = t := congrArg Moment.wall hm
  rw [hfreq, hweek] at hspans'
  obtain rfl := hspans.unique hspans'
  refine ⟨?_, hlate⟩
  unfold InPhase
  rw [← hmod, show r.number moved.firstPeriod = moved.number moved.firstPeriod by
    unfold number; rw [hweek], ← hinterval, hmod']

end Rule

end ScanPolicy
