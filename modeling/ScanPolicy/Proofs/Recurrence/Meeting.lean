import ScanPolicy.Proofs.Recurrence.CatchUp

/-!
# The same dates from a later start

The run of a rule from its first period and the run from a later period, a whole
number of intervals after it, have the same dates after the later period and end in
the same way, with three exceptions: the first run may break off before, the later
one may break off without any date where the first one has none either, and the later
one may break off at once with a fault that does not end a search.

- `Rule.Meets`: how the ends of two runs go together.
- `Rule.runs_meet`: the run from the first period and a run from a later one.
-/

namespace ScanPolicy

namespace Rule

variable {r : Rule} {p q : Period} {isFirst isFirst' skips skips' : Bool} {dates dates' : Dates}
  {ts : List WallTime} {cost : Nat} {fault : Option Fault}

/-- How the dates after a period go together in a run from the start and in one from that
period: they are the same, unless the run from the start breaks off before, or there are
none and the later run breaks off with a fault that ends a search, or the later run breaks off
without a date and with another fault. -/
inductive Meets (late late' : List WallTime) (fault fault' : Option Fault) : Prop
  | same (hlate : late' = late) (hfault : fault' = fault)
  | breaksOff {e : Fault} (hlate : late = []) (hfault : fault = some e)
  | ends {e : Fault} (hlate : late = []) (hlate' : late' = []) (hfault' : fault' = some e)
      (hends : e.endsSearch)
  | fails {e : Fault} (hlate' : late' = []) (hfault' : fault' = some e) (hfails : ¬ e.endsSearch)

/-! ## A later period that cannot be laid out -/

/-- If a period has no dates the first time, it has none another time. -/
theorem dates_ne_ok {e : Fault} (h : r.dates p isFirst = .error e) (found : Dates × Bool) :
    r.dates p isFirst' ≠ .ok found := by
  intro h'
  rw [dates_of_ok h' isFirst] at h
  cases h

/-- Periods are known by their numbers, but for weeks, which may begin in the middle. -/
theorem eq_of_number {f : Frequency} (hf : f ≠ .weekly) (hp : p.Fits f) (hq : q.Fits f)
    (heq : r.number p = r.number q) : p = q := by
  cases hp with
  | @year y hpos hle =>
    cases hq with
    | @year y' hpos' hle' =>
      have : y = y' := heq
      rw [this]
  | @month y m hpos hle hm hm' =>
    cases hq with
    | @month y' m' hpos' hle' hn hn' =>
      have heq : 12 * y + (m - 1) = 12 * y' + (m' - 1) := heq
      obtain ⟨rfl, rfl⟩ : y = y' ∧ m = m' := by omega
      rfl
  | week => exact absurd rfl hf
  | @day d hd =>
    cases hq with
    | @day d' hd' =>
      have : d = d' := heq
      rw [this]
  | @hour d h hd hh =>
    cases hq with
    | @hour d' h' hd' hh' =>
      have heq : 24 * d + h = 24 * d' + h' := heq
      obtain ⟨rfl, rfl⟩ : d = d' ∧ h = h' := by omega
      rfl
  | @minute d h m hd hh hm =>
    cases hq with
    | @minute d' h' m' hd' hh' hm' =>
      have heq : 1440 * d + 60 * h + m = 1440 * d' + 60 * h' + m' := heq
      obtain ⟨rfl, rfl, rfl⟩ : d = d' ∧ h = h' ∧ m = m' := by omega
      rfl

/-- A run of years or months breaks off at a period that cannot be laid out. -/
theorem breaksOff_of_error (hr : r.IsComplete) (hf : r.freq.numbersWeekdays = true)
    (hq : q.Fits r.freq) {e : Fault} (hq' : r.dates q isFirst' = .error e)
    (h : r.Run cost p isFirst ts fault) (hp : p.Fits r.freq)
    (hmod : r.number p % r.interval = r.number q % r.interval) (hle : r.number p ≤ r.number q) :
    (∃ e', fault = some e') ∧ r.UpTo (r.number q) ts := by
  have hlong := Frequency.isSubDaily_of_numbersWeekdays hf
  have hbase := fun skips n => Frequency.baseOf_of_not_isSubDaily hlong r.interval skips n
  -- A period that has dates comes before `q`, so the next one does not come after it.
  have hbefore : ∀ {p : Period} {isFirst : Bool} {found : Dates × Bool}, p.Fits r.freq →
      r.number p ≤ r.number q → r.dates p isFirst = .ok found → r.number p < r.number q := by
    intro p isFirst found hp hle hdates
    refine lt_of_le_of_ne hle fun heq => ?_
    rw [eq_of_number (fun hweekly => by rw [hweekly] at hf; cases hf) hp hq heq] at hdates
    exact dates_ne_ok hq' found hdates
  have hupTo : ∀ {p : Period} {isFirst skips : Bool} {dates : Dates}, p.Fits r.freq →
      r.number p ≤ r.number q → r.dates p isFirst = .ok (dates, skips) →
      r.UpTo (r.number q) dates.times := by
    intro p isFirst skips dates hp hle hdates
    exact upTo_of_dates hr hp hdates fun hlt => absurd hle (Nat.not_le.mpr hlt)
  induction h with
  | noDates => exact ⟨⟨_, rfl⟩, fun _ ht => (nomatch ht)⟩
  | broken hdates => exact ⟨⟨_, rfl⟩, hupTo hp hle hdates⟩
  | stuck hdates => exact ⟨⟨_, rfl⟩, hupTo hp hle hdates⟩
  | @ended p isFirst skips times hdates hnext =>
    have hlt := hbefore hp hle hdates
    exact absurd hnext (nextPeriod_ne_done hr hp hq (allowedNumber_of_not_isSubDaily hlong _) hmod.symm
      (by rw [hbase]; exact hlt))
  | @more p p' isFirst skips times later cost fault hdates hnext rest ih =>
    have hlt := hbefore hp hle hdates
    obtain ⟨hp', hm, -⟩ := nextPeriod_more hr hp hnext
    rw [hbase] at hm
    obtain ⟨hfault, hlater⟩ := ih hp' (hm.mod_eq.trans hmod) (hm.least _ hlt hmod.symm (allowedNumber_of_not_isSubDaily hlong _))
    exact ⟨hfault, (hupTo hp hle hdates).append hlater⟩

/-- A run has no dates if the times of its periods cannot be listed. -/
theorem eq_nil_of_no_times (hr : r.IsComplete)
    (hnone : ∀ p, p.Fits r.freq → ∀ times, r.timesIn p = .ok times → times = [])
    (h : r.Run cost p isFirst ts fault) (hp : p.Fits r.freq) : ts = [] := by
  have hdates : ∀ {p : Period} {isFirst skips : Bool} {dates : Dates}, p.Fits r.freq →
      r.dates p isFirst = .ok (dates, skips) → dates.times = [] := by
    intro p isFirst skips dates hp hdates
    obtain ⟨f, times, -, htimes, hfound⟩ := dates_eq_ok_iff.mp hdates
    have hnil := datesIn_nil (r := r) f p
    rw [← hnone p hp times htimes, hfound] at hnil
    exact hnil
  induction h with
  | noDates => rfl
  | broken h => exact hdates hp h
  | ended h => exact hdates hp h
  | stuck h => exact hdates hp h
  | @more p q isFirst skips times later cost fault h hnext rest ih =>
    have hfirst : times = [] := hdates hp h
    rw [hfirst, ih (nextPeriod_more hr hp hnext).1]
    rfl

theorem year_mono {m n : Nat} (h : m ≤ n) :
    (Date.ofDayNumber m).year ≤ (Date.ofDayNumber n).year := by
  have hmono := Date.monthNumber_mono h
  have hm := (Date.ofDayNumber_inMonth m).month_le
  have hm' := (Date.ofDayNumber_inMonth m).month_pos
  have hn := (Date.ofDayNumber_inMonth n).month_le
  have hn' := (Date.ofDayNumber_inMonth n).month_pos
  unfold Date.monthNumber at hmono
  omega

/-- If a day in a later period lies in the first year, so does an earlier period. -/
theorem yearMonth_le {f : Frequency} (hf : f.numbersWeekdays = false) (hp : p.Fits f)
    (hq : q.Fits f) (hweek : r.weekStart < 7) (hlt : r.number p < r.number q) :
    1 ≤ p.yearMonth.1 ∧ p.yearMonth.1 ≤ q.yearMonth.1 := by
  have hpos : ∀ d, 1 ≤ (Date.ofDayNumber d).year := fun d => (Date.ofDayNumber_inMonth d).year_pos
  obtain ⟨y, m, y', m', hy, hle, hym, hym'⟩ : ∃ y m y' m', 1 ≤ y ∧ y ≤ y' ∧
      p.yearMonth = (y, m) ∧ q.yearMonth = (y', m') := by
    cases hp with
    | @week d hd =>
      cases hq with
      | @week d' hd' =>
        have hlt : (d + 7 - r.weekStart) / 7 < (d' + 7 - r.weekStart) / 7 := hlt
        exact ⟨_, _, _, _, hpos d, year_mono (by omega), rfl, rfl⟩
    | @day d hd =>
      cases hq with
      | @day d' hd' =>
        exact ⟨_, _, _, _, hpos d, year_mono (show d ≤ d' from le_of_lt hlt), rfl, rfl⟩
    | @hour d h hd hh =>
      cases hq with
      | @hour d' h' hd' hh' =>
        have hlt : 24 * d + h < 24 * d' + h' := hlt
        exact ⟨_, _, _, _, hpos d, year_mono (by omega), rfl, rfl⟩
    | @minute d h m hd hh hm =>
      cases hq with
      | @minute d' h' m' hd' hh' hm' =>
        have hlt : 1440 * d + 60 * h + m < 1440 * d' + 60 * h' + m' := hlt
        exact ⟨_, _, _, _, hpos d, year_mono (by omega), rfl, rfl⟩
    | year => cases hf
    | month => cases hf
  rw [hym, hym']
  exact ⟨hy, hle⟩

/-! ## Two runs -/

/-- The dates of a run from the start and of a run from a later period, cut after the later
period. -/
structure Cut (r : Rule) (n : Nat) (ts early late : List WallTime) : Prop where
  eq_append : ts = early ++ late
  early_le : r.UpTo n early
  late_gt : ∀ t ∈ late, ∃ m, n < m ∧ r.freq.Spans r.weekStart m t.ticks

theorem Cut.all_early {n : Nat} (h : r.UpTo n ts) : r.Cut n ts ts [] :=
  ⟨(List.append_nil ts).symm, h, fun _ ht => (nomatch ht)⟩

theorem Cut.none (n : Nat) : r.Cut n [] [] [] := Cut.all_early fun _ ht => (nomatch ht)

theorem Cut.no_late {n : Nat} {early : List WallTime} (heq : ts = early ++ []) (h : r.UpTo n early) :
    r.Cut n ts early [] :=
  ⟨heq, h, fun _ ht => (nomatch ht)⟩

/-- Dates in order can be cut at any time. -/
theorem exists_split (w : Int) (h : ts.Pairwise fun a b => a.ticks < b.ticks) :
    ∃ early late, ts = early ++ late ∧ (∀ t ∈ early, t.ticks < w) ∧ ∀ t ∈ late, w ≤ t.ticks := by
  induction h with
  | nil => exact ⟨[], [], rfl, fun _ ht => (nomatch ht), fun _ ht => (nomatch ht)⟩
  | @cons a rest ha hrest ih =>
    by_cases haw : a.ticks < w
    · obtain ⟨early, late, heq, hearly, hlate⟩ := ih
      exact ⟨a :: early, late, by rw [heq, List.cons_append], List.forall_mem_cons.mpr ⟨haw, hearly⟩,
        hlate⟩
    · have haw : w ≤ a.ticks := not_lt.mp haw
      exact ⟨[], a :: rest, rfl, fun t ht => (nomatch ht),
        List.forall_mem_cons.mpr ⟨haw, fun t ht => haw.trans (ha t ht).le⟩⟩

/-- The dates of a run can be cut after any period. -/
theorem Run.exists_cut (h : r.Run cost p isFirst ts fault) (hr : r.IsComplete) (hp : p.Fits r.freq)
    {n : Nat} (hn : r.freq.firstNumber ≤ n) : ∃ early late, r.Cut n ts early late := by
  obtain ⟨hsorted, hspans⟩ := h.dates_spec hr hp
  obtain ⟨early, late, rfl, hearly, hlate⟩ := exists_split (r.freq.startOf r.weekStart (n + 1)) hsorted
  refine ⟨early, late, rfl, fun t ht => ?_, fun t ht => ?_⟩
  · obtain ⟨m, -, hm⟩ := hspans t (List.mem_append_left _ ht)
    refine ⟨m, not_lt.mp fun hlt => ?_, hm⟩
    have hstart := r.freq.startOf_mono r.weekStart (hn.trans (Nat.le_succ n)) hlt
    exact absurd (hearly t ht) (not_lt.mpr (hstart.trans hm.start_le))
  · obtain ⟨m, -, hm⟩ := hspans t (List.mem_append_right _ ht)
    refine ⟨m, not_le.mp fun hle => ?_, hm⟩
    have hend := r.freq.startOf_mono r.weekStart (hm.number_ge.trans (Nat.le_succ m)) (Nat.succ_le_succ hle)
    exact absurd hm.lt_end (not_lt.mpr (hend.trans (hlate t ht)))

/-- A run from a period that cannot be laid out. -/
theorem Run.eq_of_error (h : r.Run cost p isFirst ts fault) {e : Fault}
    (hdates : r.dates p isFirst = .error e) : ts = [] ∧ fault = some e := by
  cases h with
  | noDates h => exact ⟨rfl, congrArg some (Except.error.inj (h.symm.trans hdates))⟩
  | broken h => exact absurd h (dates_ne_ok hdates _)
  | ended h => exact absurd h (dates_ne_ok hdates _)
  | stuck h => exact absurd h (dates_ne_ok hdates _)
  | more h => exact absurd h (dates_ne_ok hdates _)

/-- If the later period cannot be laid out for other reasons than its weekdays, the run from the
first one has no dates, or the fault does not end a search. -/
theorem meets_of_error (hr : r.IsComplete) (hf : r.freq.numbersWeekdays = false) (hp : p.Fits r.freq)
    (hq : q.Fits r.freq) (hlt : r.number p < r.number q) {e : Fault}
    (hdates' : r.dates q true = .error e) (h : r.Run cost p true ts fault) :
    (ts = [] ∧ Meets [] [] fault (some e)) ∨ ¬ e.endsSearch := by
  rcases dates_eq_error hdates' with he | he
  · rcases frame_error (hr.numbered_eq_nil hf) he with ⟨hyear, hframe⟩ | hfails
    · -- The first period lies in the same year, so it cannot be laid out either.
      obtain ⟨hpos, hle⟩ := yearMonth_le (r := r) hf hp hq hr.weekStart_lt hlt
      have hsame : p.yearMonth.1 = q.yearMonth.1 := by omega
      have hframe := hframe p.yearMonth.2
      rw [← hsame] at hframe
      have hfirst : r.dates p true = .error e := by
        unfold dates Walk.layout
        dsimp only
        rw [hframe]
        rfl
      obtain ⟨rfl, rfl⟩ := h.eq_of_error hfirst
      exact .inl ⟨rfl, .breaksOff rfl rfl⟩
    · exact .inr hfails
  · obtain ⟨hends, hnone⟩ := timesIn_error hq he
    obtain rfl := eq_nil_of_no_times hr hnone h hp
    exact .inl ⟨rfl, .ends rfl rfl rfl hends⟩

/-- If the later period cannot be laid out, the run from the first one has no dates after it, or the
fault does not end a search. -/
theorem runs_meet_of_error (hr : r.IsComplete) (hp : p.Fits r.freq) (hq : q.Fits r.freq)
    (hlt : r.number p < r.number q) (hmod : r.number p % r.interval = r.number q % r.interval)
    {e : Fault} (hdates' : r.dates q true = .error e) (h : r.Run cost p true ts fault) :
    ∃ early late, r.Cut (r.number q) ts early late ∧ Meets late [] fault (some e) := by
  cases hf : r.freq.numbersWeekdays with
  | true =>
    obtain ⟨⟨e', hfault⟩, hupTo⟩ := breaksOff_of_error hr hf hq hdates' h hp hmod hlt.le
    exact ⟨ts, [], .all_early hupTo, .breaksOff rfl hfault⟩
  | false =>
    rcases meets_of_error hr hf hp hq hlt hdates' h with ⟨rfl, hmeets⟩ | hfails
    · exact ⟨[], [], .none _, hmeets⟩
    · obtain ⟨early, late, hcut⟩ := h.exists_cut hr hp hq.firstNumber_le
      exact ⟨early, late, hcut, .fails rfl rfl hfails⟩

/-- The runs of a rule from its first period and from a later one, a whole number of
intervals after it. -/
theorem runs_meet (hr : r.IsComplete) (hp : p.Fits r.freq) (hq : q.Fits r.freq)
    (hlt : r.number p < r.number q)
    (hmod : r.number p % r.interval = r.number q % r.interval)
    (hend : r.freq.startOf r.weekStart (r.number q + 1) ≤ (Calendar.dayCount : Int) * Span.day)
    {cost' : Nat} {ts' : List WallTime} {fault' : Option Fault}
    (h : r.Run cost p true ts fault) (h' : r.Run cost' q true ts' fault') :
    ∃ early late early' late', r.Cut (r.number q) ts early late ∧
      r.Cut (r.number q) ts' early' late' ∧ Meets late late' fault fault' := by
  cases hdates' : r.dates q true with
  | error e =>
    obtain ⟨rfl, rfl⟩ := h'.eq_of_error hdates'
    obtain ⟨early, late, hcut, hmeets⟩ := runs_meet_of_error hr hp hq hlt hmod hdates' h
    exact ⟨early, late, [], [], hcut, .none _, hmeets⟩
  | ok found =>
    obtain ⟨dates', skips'⟩ := found
    have hspec := dates_spec hr hq hdates'
    have hupTo' : r.UpTo (r.number q) dates'.times := fun t ht => ⟨_, le_rfl, hspec.spans t ht⟩
    have hbase := (r.freq.baseOf_spec hr.interval_pos skips' (r.number q)).1
    obtain ⟨early, late, heq, hearly, hlate⟩ :=
      catchesUp hr hq hdates' h hp hmod (hlt.le.trans hbase)
    have hlater : ∀ {t : Period} {cost : Nat} {ts : List WallTime} {fault : Option Fault},
        r.nextPeriod skips' q = .more t → r.Run cost t false ts fault →
        ∀ u ∈ ts, ∃ m, r.number q < m ∧ r.freq.Spans r.weekStart m u.ticks := by
      intro t cost ts fault hnext hrun u hu
      obtain ⟨m, hm, hspans⟩ := (hrun.dates_spec hr (nextPeriod_more hr hq hnext).1).2 u hu
      exact ⟨m, lt_of_lt_of_le (number_lt_of_more hr hq hnext) hm, hspans⟩
    -- the run from the start catches up with the later one, where it goes on
    cases h' with
    | noDates h => exact absurd hdates' (dates_ne_ok h _)
    | @broken _ _ skips times e h =>
      rw [h] at hdates'
      cases hdates'
      have hfault : (Calendar.dayCount : Int) * Span.day <
        r.freq.startOf r.weekStart (r.number q + 1) := (hspec.fault e rfl).2
      omega
    | @ended _ _ skips times h hnext =>
      rw [h] at hdates'
      cases hdates'
      rw [hnext] at hlate
      rcases hlate with ⟨rfl, e, hfault⟩ | ⟨rfl, rfl⟩
      · exact ⟨early, [], ts', [], .no_late heq hearly, .all_early hupTo',
          .breaksOff rfl hfault⟩
      · exact ⟨early, [], ts', [], .no_late heq hearly, .all_early hupTo',
          .same rfl rfl⟩
    | @stuck _ _ skips times e h hnext =>
      rw [h] at hdates'
      cases hdates'
      rw [hnext] at hlate
      rcases hlate with ⟨rfl, e, hfault⟩ | hnever
      · exact ⟨early, [], ts', [], .no_late heq hearly, .all_early hupTo',
          .breaksOff rfl hfault⟩
      · exact absurd hnever id
    | @more _ t _ skips times later cost' fault' h hnext rest =>
      rw [h] at hdates'
      cases hdates'
      rw [hnext] at hlate
      rcases hlate with ⟨rfl, e, hfault⟩ | ⟨cost, hrun⟩
      · exact ⟨early, [], times, later, .no_late heq hearly,
          ⟨rfl, hupTo', hlater hnext rest⟩, .breaksOff rfl hfault⟩
      · obtain ⟨rfl, rfl⟩ := rest.unique hrun
        exact ⟨early, later, times, later, ⟨heq, hearly, hlater hnext rest⟩,
          ⟨rfl, hupTo', hlater hnext rest⟩, .same rfl rfl⟩

end Rule

end ScanPolicy
