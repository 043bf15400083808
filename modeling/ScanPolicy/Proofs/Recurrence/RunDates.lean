import ScanPolicy.Proofs.Recurrence.Dates
import ScanPolicy.Proofs.Recurrence.Following

/-!
# The dates of a run

Every period is at least a minute long, so a run from any period comes to an end,
and a walk through it has fewer steps than a search may take. The dates of a run are
in order and do not come before its first period.

- `Rule.nextPeriod_ne_done`: a run does not end before an allowed period.
- `Rule.exists_run`: the run from a period on.
- `Rule.Run.unique`: there is only one.
- `Rule.Run.dates_spec`: its dates.
- `Rule.Run.cost_le_stepLimit`: the steps of a walk through it.
-/

namespace ScanPolicy

namespace Frequency

/-- The steps to the next period are counted from a period of the same day. -/
theorem baseOf_spec (f : Frequency) {interval : Nat} (hinterval : 0 < interval) (skips : Bool)
    (n : Nat) : n ≤ f.baseOf interval skips n ∧ f.baseOf interval skips n % interval = n % interval := by
  cases skips with
  | false => cases f <;> exact ⟨le_rfl, rfl⟩
  | true =>
    cases f with
    | hourly =>
      obtain ⟨hle, -, -, hmod⟩ := Rule.lastBefore_spec hinterval (Nat.mod_lt n (show 24 > 0 by decide))
      show n ≤ 24 * (n / 24) + Rule.lastBefore 24 interval (n % 24) ∧
        (24 * (n / 24) + Rule.lastBefore 24 interval (n % 24)) % interval = n % interval
      refine ⟨by omega, ?_⟩
      rw [Nat.add_mod, hmod, ← Nat.add_mod, Nat.div_add_mod]
    | minutely =>
      obtain ⟨hle, -, -, hmod⟩ :=
        Rule.lastBefore_spec hinterval (Nat.mod_lt n (show 1440 > 0 by decide))
      show n ≤ 1440 * (n / 1440) + Rule.lastBefore 1440 interval (n % 1440) ∧
        (1440 * (n / 1440) + Rule.lastBefore 1440 interval (n % 1440)) % interval = n % interval
      refine ⟨by omega, ?_⟩
      rw [Nat.add_mod, hmod, ← Nat.add_mod, Nat.div_add_mod]
    | yearly => exact ⟨le_rfl, rfl⟩
    | monthly => exact ⟨le_rfl, rfl⟩
    | weekly => exact ⟨le_rfl, rfl⟩
    | daily => exact ⟨le_rfl, rfl⟩

end Frequency

namespace Rule

variable {r : Rule} {p q : Period} {isFirst skips : Bool} {ts : List WallTime} {cost : Nat}
  {fault : Option Fault}

/-- The number of a period in the weeks of a rule. -/
def number (r : Rule) (p : Period) : Nat := p.number r.weekStart

/-- The period that follows another one. -/
theorem nextPeriod_more (hr : r.IsComplete) (hp : p.Fits r.freq)
    (h : r.nextPeriod skips p = .more q) : q.Fits r.freq ∧
      IsNext r.AllowedNumber r.interval (r.freq.baseOf r.interval skips (r.number p)) (r.number q) ∧
      q = Period.ofNumber r.freq r.weekStart (r.number q) := by
  have hspec := nextPeriod_spec hr hp skips
  rw [h] at hspec
  cases hspec with
  | @more m hnext hin =>
    have hbase := (r.freq.baseOf_spec hr.interval_pos skips (p.number r.weekStart)).1
    have hlt := hnext.lt
    obtain ⟨hfits, hnumber⟩ := Period.ofNumber_spec hr.weekStart_lt
      (show r.freq.firstNumber ≤ m from (hp.firstNumber_le.trans hbase).trans hlt.le)
      (Nat.zero_lt_of_lt hlt) hin
    have hq : r.number (Period.ofNumber r.freq r.weekStart m) = m := hnumber
    rw [hq]
    exact ⟨hfits, hnext, rfl⟩

theorem number_lt_of_more (hr : r.IsComplete) (hp : p.Fits r.freq)
    (h : r.nextPeriod skips p = .more q) : r.number p < r.number q :=
  lt_of_le_of_lt (r.freq.baseOf_spec hr.interval_pos skips (r.number p)).1
    (nextPeriod_more hr hp h).2.1.lt

/-- A run does not end before a period of the calendar that is allowed. -/
theorem nextPeriod_ne_done (hr : r.IsComplete) (hp : p.Fits r.freq) (hq : q.Fits r.freq)
    (hallowed : r.AllowedNumber (r.number q)) (hmod : r.number q % r.interval = r.number p % r.interval)
    (hlt : r.freq.baseOf r.interval skips (r.number p) < r.number q) : r.nextPeriod skips p ≠ .done := by
  intro hdone
  have hspec : Follows r (r.freq.baseOf r.interval skips (r.number p)) (r.nextPeriod skips p) :=
    nextPeriod_spec hr hp skips
  obtain ⟨hle, hbase⟩ := r.freq.baseOf_spec hr.interval_pos skips (r.number p)
  rw [hdone] at hspec
  cases hspec with
  | @done m hm hout =>
    have hmq := hm.least _ hlt (hmod.trans hbase.symm) hallowed
    have hstart := r.freq.startOf_mono r.weekStart
      (hp.firstNumber_le.trans (hle.trans hm.lt.le)) hmq
    have hin : r.freq.startOf r.weekStart (r.number q) < (Calendar.dayCount : Int) * Span.day :=
      hq.start_lt hr.weekStart_lt
    exact absurd (hout.trans hstart) (not_le.mpr hin)

/-- There is a run from every period on. -/
theorem exists_run (hr : r.IsComplete) (hp : p.Fits r.freq) (isFirst : Bool) :
    ∃ cost ts fault, r.Run cost p isFirst ts fault := by
  -- The next period starts later, and none starts after the calendar.
  induction hleft : ((Calendar.dayCount : Int) * Span.day -
    r.freq.startOf r.weekStart (r.number p)).toNat using Nat.strong_induction_on
    generalizing p isFirst with
  | _ left ih =>
    cases hdates : r.dates p isFirst with
    | error e => exact ⟨_, _, _, .noDates hdates⟩
    | ok found =>
      obtain ⟨⟨times, broken⟩, skips⟩ := found
      cases broken with
      | some e => exact ⟨_, _, _, .broken hdates⟩
      | none =>
        cases hnext : r.nextPeriod skips p with
        | done => exact ⟨_, _, _, .ended hdates hnext⟩
        | failed e => exact ⟨_, _, _, .stuck hdates hnext⟩
        | more q =>
          have hlater := r.freq.startOf_lt r.weekStart hp.firstNumber_le (number_lt_of_more hr hp hnext)
          have hstart := hp.start_lt hr.weekStart_lt
          have hminute : (0 : Int) < Span.minute := by decide
          have hle : r.freq.startOf r.weekStart (r.number p) + Span.minute ≤
            r.freq.startOf r.weekStart (r.number q) := hlater
          have hlt : r.freq.startOf r.weekStart (r.number p) <
            (Calendar.dayCount : Int) * Span.day := hstart
          obtain ⟨cost, ts, fault, hrun⟩ := ih _ (by omega) (nextPeriod_more hr hp hnext).1 false rfl
          exact ⟨_, _, _, .more hdates hnext hrun⟩

/-- There is only one run from a period on. -/
theorem Run.unique {cost' : Nat} {ts' : List WallTime} {fault' : Option Fault}
    (h : r.Run cost p isFirst ts fault) (h' : r.Run cost' p isFirst ts' fault') :
    ts = ts' ∧ fault = fault' := by
  induction h generalizing cost' ts' fault' with
  | noDates hdates => cases h' <;> simp_all
  | broken hdates => cases h' <;> simp_all
  | ended hdates hnext => cases h' <;> simp_all
  | stuck hdates hnext => cases h' <;> simp_all
  | more hdates hnext rest ih =>
    cases h' with
    | more hdates' hnext' rest' =>
      rw [hdates] at hdates'
      cases hdates'
      rw [hnext] at hnext'
      cases hnext'
      obtain ⟨rfl, rfl⟩ := ih rest'
      exact ⟨rfl, rfl⟩
    | noDates => simp_all
    | broken => simp_all
    | ended => simp_all
    | stuck => simp_all

/-- The dates of a run are in order and do not come before its first period. -/
theorem Run.dates_spec (h : r.Run cost p isFirst ts fault) (hr : r.IsComplete)
    (hp : p.Fits r.freq) : (ts.Pairwise fun a b => a.ticks < b.ticks) ∧
      ∀ t ∈ ts, ∃ n, r.number p ≤ n ∧ r.freq.Spans r.weekStart n t.ticks := by
  induction h with
  | noDates => exact ⟨List.Pairwise.nil, fun t ht => (nomatch ht)⟩
  | broken hdates =>
    have hspec := Rule.dates_spec hr hp hdates
    exact ⟨hspec.sorted, fun t ht => ⟨_, le_rfl, hspec.spans t ht⟩⟩
  | ended hdates =>
    have hspec := Rule.dates_spec hr hp hdates
    exact ⟨hspec.sorted, fun t ht => ⟨_, le_rfl, hspec.spans t ht⟩⟩
  | stuck hdates =>
    have hspec := Rule.dates_spec hr hp hdates
    exact ⟨hspec.sorted, fun t ht => ⟨_, le_rfl, hspec.spans t ht⟩⟩
  | @more p q isFirst skips times later cost fault hdates hnext rest ih =>
    have hspec := Rule.dates_spec hr hp hdates
    obtain ⟨hsorted, hlater⟩ := ih (nextPeriod_more hr hp hnext).1
    have hlt := number_lt_of_more hr hp hnext
    constructor
    · refine List.pairwise_append.mpr ⟨hspec.sorted, hsorted, fun a ha b hb => ?_⟩
      obtain ⟨n, hn, hb⟩ := hlater b hb
      exact (hspec.spans a ha).lt_of_lt hb (lt_of_lt_of_le hlt hn)
    · intro t ht
      rcases List.mem_append.mp ht with ht | ht
      · exact ⟨_, le_rfl, hspec.spans t ht⟩
      · obtain ⟨n, hn, ht⟩ := hlater t ht
        exact ⟨n, hlt.le.trans hn, ht⟩

/-! ## The steps of a walk -/

/-- Where a period starts within the calendar. -/
def startIn (r : Rule) (p : Period) : Int := max 0 (r.freq.startOf r.weekStart (r.number p))

/-- A period has at least a minute within the calendar. -/
theorem startIn_spec (hr : r.IsComplete) (hp : p.Fits r.freq) :
    r.startIn p + Span.minute ≤ r.freq.startOf r.weekStart (r.number p + 1) ∧
      r.startIn p + Span.minute ≤ (Calendar.dayCount : Int) * Span.day := by
  have hfirst : r.freq.firstNumber ≤ p.number r.weekStart := hp.firstNumber_le
  have hsucc := r.freq.startOf_succ r.weekStart hfirst
  have hlt := hp.start_lt hr.weekStart_lt
  have hwhole := r.freq.startOf_wholeMinute r.weekStart (r.number p)
  have hwhole' := r.freq.startOf_wholeMinute r.weekStart (r.number p + 1)
  have hpos : 0 < r.freq.startOf r.weekStart (r.number p + 1) := by
    obtain ⟨t, ht, hclock⟩ := exists_onClock hp
    have hnonneg := ht.ticks_bounds.1
    obtain ⟨day, hday⟩ := exists_day hp r.weekStart
    have hend := (spans_of_mem_days hp hr.weekStart_lt hday ht hclock).lt_end
    refine lt_of_le_of_lt ?_ hend
    rw [Span.day_eq]
    omega
  have hcalendar : 0 < Calendar.dayCount := by decide
  unfold startIn number at *
  rw [Span.day_eq, Span.minute_eq] at *
  constructor <;> omega

/-- The dates of a period are at most as many as the seconds that it has within the
calendar. -/
theorem DatesOf.length_le {dates : Dates} (h : DatesOf r p dates) (hr : r.IsComplete)
    (hp : p.Fits r.freq) : (dates.times.length : Int) * Span.second ≤
      min (r.freq.startOf r.weekStart (r.number p + 1)) ((Calendar.dayCount : Int) * Span.day) -
        r.startIn p := by
  obtain ⟨hend, hcalendar⟩ := startIn_spec hr hp
  have hwhole := r.freq.startOf_wholeMinute r.weekStart (r.number p + 1)
  refine length_le_seconds h.sorted h.wholeSecond (fun t ht => ⟨?_, ?_⟩) ?_ ?_
  · exact max_le t.nonneg (h.spans t ht).start_le
  · exact lt_min (h.spans t ht).lt_end t.inCalendar
  · rw [Span.minute_eq] at hwhole
    rw [Span.second_eq, Span.day_eq]
    omega
  · have hminute : (0 : Int) ≤ Span.minute := by decide
    exact le_min (by omega) (by omega)

/-- The steps of a walk through a run: at most 122 for every minute that is left. -/
theorem Run.cost_le (h : r.Run cost p isFirst ts fault) (hr : r.IsComplete) (hp : p.Fits r.freq) :
    (cost : Int) * Span.minute ≤ 122 * ((Calendar.dayCount : Int) * Span.day - r.startIn p) := by
  have hlast : ∀ {p : Period} {dates : Dates}, p.Fits r.freq → DatesOf r p dates →
      ((2 * dates.times.length + 2 : Nat) : Int) * Span.minute ≤
        122 * (min (r.freq.startOf r.weekStart (r.number p + 1))
          ((Calendar.dayCount : Int) * Span.day) - r.startIn p) := by
    intro p dates hp hdates
    have hlength := hdates.length_le hr hp
    obtain ⟨hend, hcalendar⟩ := startIn_spec hr hp
    rw [Span.second_eq] at hlength
    rw [Span.minute_eq] at *
    omega
  induction h with
  | noDates =>
    obtain ⟨-, hcalendar⟩ := startIn_spec hr hp
    rw [Span.minute_eq] at *
    omega
  | broken hdates =>
    have := hlast hp (Rule.dates_spec hr hp hdates)
    dsimp only at this
    omega
  | ended hdates =>
    have := hlast hp (Rule.dates_spec hr hp hdates)
    dsimp only at this
    omega
  | stuck hdates =>
    have := hlast hp (Rule.dates_spec hr hp hdates)
    dsimp only at this
    omega
  | @more p q isFirst skips times later cost fault hdates hnext rest ih =>
    have hperiod := hlast hp (Rule.dates_spec hr hp hdates)
    have hrest := ih (nextPeriod_more hr hp hnext).1
    have hlater : r.freq.startOf r.weekStart (r.number p + 1) ≤ r.startIn q :=
      le_trans (r.freq.startOf_mono r.weekStart (hp.firstNumber_le.trans (Nat.le_succ _))
        (number_lt_of_more hr hp hnext)) (le_max_right _ _)
    rw [Span.minute_eq] at *
    dsimp only at hperiod
    push_cast at *
    omega

/-- A search may take more steps than a walk through a run has. -/
theorem Run.cost_le_stepLimit (h : r.Run cost p isFirst ts fault) (hr : r.IsComplete)
    (hp : p.Fits r.freq) : cost ≤ stepLimit := by
  have hcost := h.cost_le hr hp
  have hstart : 0 ≤ r.startIn p := le_max_left _ _
  unfold stepLimit
  rw [Span.minute_eq, Span.day_eq] at hcost
  omega

end Rule

end ScanPolicy
