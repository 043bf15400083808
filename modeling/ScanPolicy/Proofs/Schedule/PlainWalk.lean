import ScanPolicy.Proofs.Recurrence.TameRules
import ScanPolicy.Proofs.Schedule.FastForward
import ScanPolicy.Proofs.Schedule.PlainPeriods
import ScanPolicy.Proofs.Schedule.UtcDates

/-!
# The walk through a rule with a redundant second

If nothing but the second of the start is given to a rule, the walk through it has the
numbered dates of the plain rule, wherever it starts. It gives the same further dates as
the arithmetic of the plain rule, unless the dates go on up to the last week of the
calendar and the next one would fall on the days of that week that the calendar lacks.

- `Component.GivesSecond`: the rule of such a component.
- `Component.GivesSecond.lists`: the dates of the walk are the numbered ones.
- `Component.ReachesLastWeek`, `Component.GivesSecond.cutEnding_eq_none`: how the walk ends.
- `Component.GivesSecond.expandedNth_eq`: the further dates of the walk.
-/

namespace ScanPolicy

/-- Of a list of which the values with a property come first, `takeWhile` keeps these with their
places. -/
theorem getElem?_takeWhile_of_pairwise {α : Type} {P : α → Bool} {as : List α}
    (h : as.Pairwise fun a b => P b = true → P a = true) {i : Nat} {a : α} :
    (as.takeWhile P)[i]? = some a ↔ as[i]? = some a ∧ P a = true := by
  induction as generalizing i with
  | nil => simp
  | cons b rest ih =>
    obtain ⟨hb, hrest⟩ := List.pairwise_cons.mp h
    by_cases hP : P b = true
    · rw [List.takeWhile_cons_of_pos hP]
      cases i with
      | zero =>
        simp only [List.getElem?_cons_zero, Option.some.injEq]
        exact ⟨fun heq => ⟨heq, heq ▸ hP⟩, And.left⟩
      | succ i => simpa using ih hrest
    · rw [List.takeWhile_cons_of_neg hP]
      refine ⟨(nomatch ·), fun ⟨hi, ha⟩ => absurd ?_ hP⟩
      rcases List.mem_cons.mp (List.mem_of_getElem? hi) with rfl | hmem
      · exact ha
      · exact hb a hmem ha

/-- Sifting leaves the dates without an excluded instant, if the excluded dates come in the order of
their instants and agree with the dates. -/
theorem sift_sort {excluded dates : List Moment}
    (hordered : ∀ e ∈ excluded, ∀ e' ∈ excluded, Descriptor.InOrder e e')
    (hagrees : ∀ e ∈ excluded, ∀ m ∈ dates, e.Agrees m) :
    sift (Moment.sort excluded) dates = dates.filter (·.isKept excluded) := by
  refine List.filter_congr fun m hm => ?_
  have hfirst := (dropWhile_before (Moment.sort_pairwise hordered)
    fun e he => hagrees e (Moment.mem_sort.mp he) m hm).1
  have hsort : m.isKept (Moment.sort excluded) = m.isKept excluded := by
    rw [Bool.eq_iff_iff, Moment.isKept_iff, Moment.isKept_iff]
    simp only [Moment.mem_sort]
  unfold isExcluded
  rw [hfirst, Bool.not_not, hsort]

/-! ## The rule -/

namespace Component

/-- The rule of a component to which, besides the frequency, the interval and an end, the second of
the start is given. -/
structure GivesSecond (c : Component) (start : Moment) (f : Frequency) (r : Rule) : Prop where
  freq_eq : c.freq = some f
  interval_pos : 0 < c.interval
  expanders_eq : c.expanders = ["BYSECOND".toList]
  wholeSecond : start.wall.ticks % Span.second = 0
  rule_eq : Rule.ofParts f start c.interval 0 c.count c.bound (.ofSecond start.wall.second) = .ok r

/-- A weekly component with a date in the last week of the calendar or before it, of which the next
date would come in that week, but after the calendar: a week that starts on Monday goes two days
beyond it. -/
def ReachesLastWeek (c : Component) (start : Moment) : Prop :=
  c.freq = some .weekly ∧ ∃ index m, c.Gives start index m ∧
    WallTime.calendarEnd ≤ Plain.point start.wall .weekly c.interval (index + 1) ∧
    Plain.point start.wall .weekly c.interval (index + 1) < WallTime.calendarEnd + 2 * Span.day

namespace GivesSecond

variable {c : Component} {start : Moment} {f : Frequency} {r : Rule}

section Fields

variable (h : c.GivesSecond start f r)

include h

theorem takesAll : r.TakesAll := Rule.takesAll_of_ofParts h.wholeSecond h.rule_eq

theorem isComplete : r.IsComplete :=
  Rule.isComplete_of_ofParts h.rule_eq h.interval_pos (by decide)

/-- The rule has the fields of its component. -/
theorem rule_spec : r.freq = f ∧ r.anchor = start ∧ r.interval = c.interval ∧ r.weekStart = 0 ∧
    r.count = c.count ∧ r.bound = c.bound := by
  obtain ⟨-, -, -, -, hr⟩ := Rule.ofParts_eq_ok_iff.mp h.rule_eq
  have hanchor : r.anchor = { start with wall := start.wall.wholeSecond } := congrArg Rule.anchor hr
  rw [Rule.wholeSecond_eq h.wholeSecond] at hanchor
  exact ⟨congrArg Rule.freq hr, hanchor, congrArg Rule.interval hr, congrArg Rule.weekStart hr,
    congrArg Rule.count hr, congrArg Rule.bound hr⟩

/-- No layout of a year fails, and every period is followed by the one an interval later. -/
theorem isTame : r.IsTame where
  frame p _ e he := by
    obtain ⟨f, hf⟩ := h.takesAll.exists_frame p.yearMonth.1 p.yearMonth.2
    cases he.symm.trans hf
  turns p hp _ skips e he := absurd he (h.takesAll.nextPeriod_ne_failed h.isComplete hp skips e)

/-- A rule without a count is one that a schedule completes. -/
theorem completes (hcount : c.count = none) : c.Completes start f 0 r := by
  have hnames : c.Names (.ofSecond start.wall.second) := by
    have hgiven : ∀ name : String,
        Source.isGiven c name = ["BYSECOND".toList].contains name.toList := by
      intro name
      rw [Source.isGiven, h.expanders_eq]
    constructor
    case seconds => exact hgiven "BYSECOND"
    case days =>
      intro _
      rw [h.expanders_eq]
      show _ = false
      decide
    all_goals exact (hgiven _).trans (show _ = false by decide)
  have hrule := h.rule_eq
  rw [hcount] at hrule
  refine ⟨h.freq_eq, by decide, h.interval_pos, hcount, .ofSecond start.wall.second,
    { r with bound := none }, fun _ ds hds => (nomatch hds), hnames,
    Rule.ofParts_withBound hrule none, ?_⟩
  rw [← h.rule_spec.2.2.2.2.2]

end Fields

/-! ## The dates of the walk -/

section Run

variable (h : c.GivesSecond start f r) (hutc : start.clock.IsUtc)
  (hday : f.numbersWeekdays → start.wall.date.day ≤ 28) {cost : Nat} {ts : List WallTime}
  {fault : Option Fault} (hrun : r.Run cost r.firstPeriod true ts fault)

include h hday hrun

/-- The run of the rule has the numbered dates, and breaks off only in the last week. -/
theorem run_spec :
    (∀ i t, ts[i]? = some t ↔ t.ticks = Plain.point start.wall f c.interval i) ∧
      ∀ e ∈ fault, f = .weekly ∧
        WallTime.calendarEnd ≤ Plain.point start.wall f c.interval ts.length ∧
        Plain.point start.wall f c.interval ts.length < WallTime.calendarEnd + 2 * Span.day := by
  obtain ⟨hfreq, hanchor, hinterval, hweek, -, -⟩ := h.rule_spec
  obtain ⟨hticks, hend, hfault⟩ := h.takesAll.run_spec h.isComplete (by rwa [hfreq, hanchor]) hrun
    (Rule.isNumbered_firstPeriod h.isComplete)
  rw [hfreq, hanchor, hinterval, hweek, Nat.zero_add] at *
  constructor
  · intro i t
    have hi : (ts.map (·.ticks))[i]? = if i < ts.length then
        some (Plain.point start.wall f c.interval i) else none := by
      rw [hticks, List.getElem?_map]
      split
      · next hlt => rw [List.getElem?_range' hlt, Option.map_some, Nat.zero_add, Nat.one_mul]
      · next hge => rw [List.getElem?_eq_none (by simpa using hge), Option.map_none]
    rw [List.getElem?_map] at hi
    constructor
    · intro ht
      rw [ht, if_pos (List.getElem?_eq_some_iff.mp ht).1] at hi
      exact Option.some.inj hi
    · intro ht
      have hlt : i < ts.length := by
        by_contra hge
        have hmono := Plain.point_mono start.wall f h.interval_pos (not_lt.mp hge)
        have := t.inCalendar
        unfold WallTime.calendarEnd at hend
        omega
      rw [if_pos hlt] at hi
      obtain ⟨u, hu, hticks⟩ := Option.map_eq_some_iff.mp hi
      rw [hu, WallTime.ext (hticks.trans ht.symm)]
  · intro e he
    obtain ⟨-, hweekly, hlast⟩ := hfault e he
    refine ⟨hweekly, hend, ?_⟩
    have hlt := (Plain.point_spans start.wall f (show 0 < 7 by decide) c.interval
      ts.length).lt_end
    rw [hweekly] at hlast hlt ⊢
    unfold WallTime.calendarEnd at *
    simp only [Frequency.startOf] at hlast hlt
    rw [Span.day_eq] at *
    norm_num [Calendar.dayCount] at *
    omega

end Run

section Walk

variable (h : c.GivesSecond start f r) (hutc : start.clock.IsUtc)
  (hday : f.numbersWeekdays → start.wall.date.day ≤ 28) {cost : Nat} {ts : List WallTime}
  {fault : Option Fault} (hrun : r.Run cost r.firstPeriod true ts fault)

include h

theorem moment_eq (t : WallTime) : r.moment t = start.clock.reading t := by
  show (⟨t, r.anchor.clock, false⟩ : Moment) = _
  rw [h.rule_spec.2.1]
  rfl

theorem isPast_iff (t : WallTime) :
    r.isPast t = true ↔ ∃ u ∈ c.bound, u.before (start.clock.reading t) = true := by
  unfold Rule.isPast Walk.isPast
  rw [h.rule_spec.2.2.2.2.2, h.moment_eq]
  cases c.bound <;> simp

include hutc

/-- What is before a date of the walk is before the later ones. -/
theorem before_later {e : Moment} {a b : WallTime} (hab : a.ticks < b.ticks)
    (hbefore : e.before (r.moment a)) : e.before (r.moment b) := by
  rw [h.moment_eq] at hbefore ⊢
  exact Moment.before_later hutc hab hbefore

include hday hrun

/-- The walk keeps the numbered dates up to the last moment. -/
theorem getElem?_kept (i : Nat) (m : Moment) : (r.kept ts)[i]? = some m ↔
    Plain.occurrence start c i = .ok m ∧ ∀ u ∈ c.bound, ¬ u.before m := by
  obtain ⟨hanchor, -⟩ := h.rule_spec.2
  obtain ⟨hget, -⟩ := h.run_spec hday hrun
  have hsorted := (hrun.dates_spec h.isComplete (r.firstPeriod_eq ▸ Period.ofTime_fits _ _)).1
  have hlate : ((ts.takeWhile fun t => !r.isPast t).filter
      fun t => r.anchor.wall.ticks ≤ t.ticks) = ts.takeWhile fun t => !r.isPast t := by
    refine List.filter_eq_self.mpr fun t ht => decide_eq_true ?_
    obtain ⟨j, hj⟩ := List.mem_iff_getElem?.mp ((List.takeWhile_sublist _).subset ht)
    rw [hanchor, (hget j t).mp hj]
    exact Plain.start_le_point start.wall f h.interval_pos j
  have hfirst : ts.Pairwise fun a b => (!r.isPast b) = true → (!r.isPast a) = true := by
    refine hsorted.imp fun {a b} hab hb => ?_
    rw [Bool.not_eq_true', Bool.eq_false_iff, Ne, h.isPast_iff] at *
    rintro ⟨u, hu, ha⟩
    exact hb ⟨u, hu, Moment.before_later hutc hab ha⟩
  rw [Plain.occurrence_eq_ok_iff hutc h.freq_eq, Rule.kept, hlate, List.getElem?_map,
    Option.map_eq_some_iff]
  constructor
  · rintro ⟨t, ht, rfl⟩
    obtain ⟨ht, hpast⟩ := (getElem?_takeWhile_of_pairwise hfirst).mp ht
    rw [Bool.not_eq_true', Bool.eq_false_iff, Ne, h.isPast_iff] at hpast
    rw [h.moment_eq]
    exact ⟨⟨t, (hget i t).mp ht, rfl⟩, fun u hu hbefore => hpast ⟨u, hu, hbefore⟩⟩
  · rintro ⟨⟨t, ht, rfl⟩, hbound⟩
    refine ⟨t, (getElem?_takeWhile_of_pairwise hfirst).mpr ⟨(hget i t).mpr ht, ?_⟩, h.moment_eq t⟩
    rw [Bool.not_eq_true', Bool.eq_false_iff, Ne, h.isPast_iff]
    rintro ⟨u, hu, hbefore⟩
    exact hbound u hu hbefore

/-- The dates of the walk are those that the component gives for the numbers. -/
theorem lists : c.Lists start (r.cut (r.kept ts)) := by
  intro i m
  have hkept := h.getElem?_kept hutc hday hrun i m
  have hcount := h.rule_spec.2.2.2.2.1
  unfold Rule.cut
  rw [hcount]
  constructor
  · intro hm
    cases hc : c.count with
    | none =>
      rw [hc, Option.elim_none] at hm
      obtain ⟨hoccurrence, hbound⟩ := hkept.mp hm
      exact ⟨fun n hn => (nomatch hc.symm.trans hn), hoccurrence, hbound⟩
    | some n =>
      rw [hc, Option.elim_some, List.getElem?_take] at hm
      split at hm
      · next hlt =>
        obtain ⟨hoccurrence, hbound⟩ := hkept.mp hm
        refine ⟨fun n' hn' => ?_, hoccurrence, hbound⟩
        cases hc.symm.trans hn'
        exact hlt
      · cases hm
  · rintro ⟨hin, hoccurrence, hbound⟩
    have hm := hkept.mpr ⟨hoccurrence, hbound⟩
    cases hc : c.count with
    | none => exact hm
    | some n => rw [Option.elim_some, List.getElem?_take, if_pos (hin n hc), hm]

/-- Before the last week the walk ends without a fault. -/
theorem cutEnding_eq_none (hlast : ¬ c.ReachesLastWeek start) :
    r.cutEnding (r.kept ts) (r.ending ts fault) = none := by
  by_contra hsome
  obtain ⟨hget, hfault⟩ := h.run_spec hday hrun
  -- a fault counts only if the walk keeps all dates of the run
  have hall : ¬ ts.any r.isPast = true ∧ (∃ e, fault = some e) ∧
      ∀ n ∈ r.count, (r.kept ts).length ≤ n := by
    unfold Rule.cutEnding Rule.ending at hsome
    refine ⟨fun hpast => hsome ?_, ?_, fun n hn => ?_⟩
    · rw [if_pos hpast]
      cases r.count <;> simp
    · cases fault with
      | none => exact absurd (by cases r.count <;> simp) hsome
      | some e => exact ⟨e, rfl⟩
    · by_contra hlt
      rw [Option.mem_def.mp hn, Option.elim_some, if_pos (not_le.mp hlt)] at hsome
      exact hsome rfl
  obtain ⟨hpast, ⟨e, he⟩, hcount⟩ := hall
  obtain ⟨hweekly, hend, hwithin⟩ := hfault e he
  obtain ⟨i, hi⟩ : ∃ i, ts.length = i + 1 := by
    refine Nat.exists_eq_succ_of_ne_zero fun hzero => ?_
    rw [hzero, Plain.point_zero] at hend
    have := start.wall.inCalendar
    unfold WallTime.calendarEnd at hend
    omega
  obtain ⟨t, ht⟩ : ∃ t, ts[i]? = some t := ⟨ts[i], List.getElem?_eq_getElem _⟩
  have hkept : (r.kept ts)[i]? = some (start.clock.reading t) := by
    refine (h.getElem?_kept hutc hday hrun i _).mpr ⟨?_, fun u hu hbefore => hpast ?_⟩
    · exact (Plain.occurrence_eq_ok_iff hutc h.freq_eq).mpr ⟨t, (hget i t).mp ht, rfl⟩
    · exact List.any_eq_true.mpr ⟨t, List.mem_of_getElem? ht, (h.isPast_iff t).mpr ⟨u, hu, hbefore⟩⟩
  refine hlast ⟨h.freq_eq.trans (congrArg some hweekly), i, start.clock.reading t, ?_, ?_⟩
  · rw [← h.lists hutc hday hrun i, Rule.cut]
    cases hc : r.count with
    | none => exact hkept
    | some n =>
      have hlt := (List.getElem?_eq_some_iff.mp hkept).1
      rw [Option.elim_some, List.getElem?_take, if_pos (hlt.trans_le (hcount n hc)), hkept]
  · rw [hweekly, hi] at hend hwithin
    exact ⟨hend, hwithin⟩

end Walk

/-! ## Searching -/

/-- At an anchor in a counted period the rule does not stumble. -/
theorem not_stumbles (h : c.GivesSecond start f r) {now : WallTime} {anchor : Moment} {given : Parts}
    (hanchor : Plain.IsAnchor start.wall f c.interval 0 now anchor.wall) :
    ¬ (r.movedTo anchor given).Stumbles (Moment.universal now) := by
  rintro ⟨cost, ts, e, hrun, hfault, -⟩
  obtain ⟨hfreq, hrstart, hinterval, hweek, -⟩ := h.rule_spec
  have hfits : (r.movedTo anchor given).firstPeriod.Fits r.freq :=
    (r.movedTo anchor given).firstPeriod_eq ▸ Period.ofTime_fits r.freq anchor.wall
  obtain ⟨cost', ts', fault', hrun'⟩ := Rule.exists_run h.isComplete hfits true
  have heq := (hrun.unique (Rule.run_movedTo hrun')).2
  refine hfault (hrun'.endsSearch h.isTame h.isComplete hfits ?_ e heq.symm)
  obtain ⟨index, -, hnumber⟩ := hanchor.number_eq
  unfold Rule.number
  rw [Rule.firstPeriod_eq, Rule.firstPeriod_eq, hfreq, hrstart, hinterval, hweek]
  show (Period.ofTime r.freq anchor.wall).number 0 % c.interval = _
  rw [hfreq, hnumber, Nat.add_mul_mod_self_right]

variable {d : Descriptor}

/-- Wherever the walk starts, its further dates are those of the list of the numbered dates that are
after the moment and have no excluded instant. -/
theorem expandedNth_eq (h : c.GivesSecond d.start f r) (hutc : d.start.clock.IsUtc)
    (hday : f.numbersWeekdays → d.start.wall.date.day ≤ 28) (hspan : Plain.HasSpan f c.interval)
    (hforeign : ∀ e ∈ d.excluded, e.clock.same d.start.clock = false ∨ e.clock.IsUtc)
    (hexcluded : d.ExcludesClearly) (hlast : ¬ c.ReachesLastWeek d.start) :
    ∃ dates, c.Lists d.start dates ∧ ∀ (now : WallTime) (k : Nat),
      Source.orNone (Source.expandedNth d c (.single r) (Moment.universal now) k) =
        .ok ((dates.filter (·.isKept d.excluded)).filter (Moment.universal now).before)[k]? := by
  have hfits : r.firstPeriod.Fits r.freq := r.firstPeriod_eq ▸ Period.ofTime_fits r.freq r.anchor.wall
  obtain ⟨cost, ts, fault, hrun⟩ := Rule.exists_run h.isComplete hfits true
  have hlists := h.lists hutc hday hrun
  refine ⟨_, hlists, fun now k => ?_⟩
  have hagrees : ∀ e ∈ d.excluded, ∀ m ∈ r.cut (r.kept ts), e.Agrees m := by
    intro e he m hm
    obtain ⟨t, -, rfl, -⟩ := Rule.mem_of_mem_kept ((Rule.cut_sublist _).subset hm)
    rw [h.moment_eq]
    exact Source.excluded_agrees hutc hforeign hexcluded he rfl
  have hlater : ∀ e ∈ d.excluded, ∀ a b : WallTime, a.ticks < b.ticks → e.before (r.moment a) →
      e.before (r.moment b) := fun e _ a b hab hbefore => h.before_later hutc hab hbefore
  have hsorted := (hrun.dates_spec h.isComplete hfits).1
  have hwalk := Rule.search_eq_outcome hrun (hrun.cost_le_stepLimit h.isComplete hfits) hsorted
    d.excluded (Moment.universal now) k
  rw [h.cutEnding_eq_none hutc hday hrun hlast, Rule.sweep_cut hsorted hlater,
    sift_sort hexcluded.ordered hagrees] at hwalk
  have hstay : Source.anchored d.start c (.single r) (Moment.universal now) = .ok (.single r) →
      Source.orNone (Source.expandedNth d c (.single r) (Moment.universal now) k) =
        .ok (((r.cut (r.kept ts)).filter (·.isKept d.excluded)).filter
          (Moment.universal now).before)[k]? := by
    intro hanchored
    unfold Source.expandedNth
    rw [hanchored]
    exact congrArg Source.orNone hwalk
  cases hcount : c.count with
  | some n => exact hstay (Source.anchored_of_count hcount _ _)
  | none =>
    have hcompletes := h.completes hcount
    rcases Source.anchored_spec hcompletes hutc h.wholeSecond hspan now with
      hanchored | ⟨anchor, given, hclock, hanchor, hanchored⟩
    · exact hstay hanchored
    · unfold Source.expandedNth
      rw [hanchored]
      exact (Source.search_anchor_iff hcompletes hutc h.wholeSecond hclock hanchor hwalk).mpr (h.not_stumbles hanchor)

end GivesSecond

end Component

end ScanPolicy
