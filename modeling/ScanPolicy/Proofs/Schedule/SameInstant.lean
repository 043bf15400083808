import ScanPolicy.Proofs.Recurrence.WalkClock
import ScanPolicy.Proofs.Schedule.ClockNext
import ScanPolicy.Proofs.Schedule.ComponentRules
import ScanPolicy.Proofs.Schedule.OrderedDates

/-!
# Moments with one instant

The next occurrence after a moment depends on its instant alone, on whatever clock the moment
is read, unless it is read on a clock of the schedule: on a common clock walls are compared
and subtracted, and near an offset change they do not tell what the instants tell.

- `Plain.MeasuresAsInstant`, `Plain.firstIndexAfter_congr`: plain rules.
- `Source.anchored_congr`, `Source.datesNth_congr`: the other sources.
- `Descriptor.ReadsByInstant`: moments of which a schedule sees the instant only.
- `Descriptor.next_of_same_instant`: the next occurrences after such moments.
- `Descriptor.next_ne_on_own_clock`: a repeated hour on the clock of the schedule.
-/

namespace ScanPolicy

/-! ## Plain rules -/

namespace Plain

variable {start : Moment} {c : Component} {f : Frequency} {now now' : Moment}

/-- Whether the passed periods are measured up to a moment as up to its instant: in minutes and hours
by the span from the start, in days and longer periods by what the clock of the start shows. -/
def MeasuresAsInstant (start : Moment) (f : Frequency) (now : Moment) : Prop :=
  if f.isSubDaily then now.since start = now.instant - start.instant
  else (now.on? start.clock).map Moment.wall =
    ((WallTime.ofTicks? now.instant).bind (Moment.ofUniversal? start.clock)).map Moment.wall

/-- Moments of other clocks and of the universal clock are measured as their instants. -/
theorem measuresAsInstant_of_foreign
    (h : now.clock.same start.clock = false ∨ now.clock = .universal) :
    MeasuresAsInstant start f now := by
  unfold MeasuresAsInstant
  split
  · rcases h with h | h
    · exact Moment.since_of_not_same h
    · exact Moment.since_eq (.inl h)
  · unfold Moment.on?
    split
    · next hsame =>
      obtain huniversal : now.clock = .universal := h.resolve_left (by rw [hsame]; nofun)
      have hstart : start.clock = .universal := by
        rw [huniversal, Clock.same_comm] at hsame
        exact Clock.eq_universal_of_same hsame
      rw [Moment.instant_of_universal huniversal, WallTime.ofTicks?_ticks, hstart]
      rfl
    · rfl

theorem elapsedPeriods_congr (h : MeasuresAsInstant start f now) (h' : MeasuresAsInstant start f now')
    (hinstant : now.instant = now'.instant) (c : Component) :
    elapsedPeriods start c f now = elapsedPeriods start c f now' := by
  unfold MeasuresAsInstant at h h'
  have hwalls : ¬ f.isSubDaily → (now.on? start.clock).map Moment.wall =
      (now'.on? start.clock).map Moment.wall := by
    intro hsub
    rw [if_neg hsub] at h h'
    rw [h, h', hinstant]
  have hwithin : ∀ {o o' : Option Moment} (g : WallTime → Except Fault Int),
      o.map Moment.wall = o'.map Moment.wall →
        (within o >>= fun here => g here.wall) = within o' >>= fun here => g here.wall := by
    intro o o' g ho
    cases o with
    | none =>
      cases o' with
      | none => rfl
      | some m => cases ho
    | some m =>
      cases o' with
      | none => cases ho
      | some m' =>
        show g m.wall = g m'.wall
        rw [Option.some.inj ho]
  unfold elapsedPeriods
  cases hunit : f.unit with
  | absolute unit =>
    have hsub := isSubDaily_of_absolute hunit
    rw [if_pos hsub] at h h'
    dsimp only
    rw [h, h', hinstant]
  | wall unit =>
    refine hwithin (fun here => within (Span.times? c.interval unit) >>= fun period =>
      pure ((here.ticks - start.wall.ticks).fdiv period)) (hwalls ?_)
    exact (not_isSubDaily_of_wall hunit).1
  | months unit =>
    refine hwithin (fun here => pure ((((here.date.year : Int) - (start.wall.date.year : Int)) * 12 +
      (here.date.month : Int) - (start.wall.date.month : Int)).fdiv (c.interval * unit : Nat)))
      (hwalls ?_)
    intro hsub
    obtain ⟨unit', hunit'⟩ := exists_absolute hsub
    rw [hunit] at hunit'
    cases hunit'

section

variable (hbefore : ∀ o : Moment, o.clock = start.clock → now.before o = now'.before o)

include hbefore

theorem descend_congr (n : Nat) : descend start c now n = descend start c now' n := by
  induction n with
  | zero => rfl
  | succ n ih =>
    unfold descend
    cases ho : occurrence start c n with
    | error e => rfl
    | ok o =>
      dsimp only
      rw [hbefore o (clock_of_occurrence ho), ih]

theorem ascend_congr (fuel n : Nat) : ascend start c now fuel n = ascend start c now' fuel n := by
  induction fuel generalizing n with
  | zero => rfl
  | succ fuel ih =>
    unfold ascend
    cases ho : occurrence start c n with
    | error e => rfl
    | ok o =>
      dsimp only
      rw [Moment.notAfter_eq_not_before, Moment.notAfter_eq_not_before,
        hbefore o (clock_of_occurrence ho), ih]

/-- The first number after two moments is the same if they come before the same moments of the clock
and as many periods are estimated to have passed. -/
theorem firstIndexAfter_congr
    (helapsed : ∀ f ∈ c.freq, elapsedPeriods start c f now = elapsedPeriods start c f now') :
    firstIndexAfter start c now = firstIndexAfter start c now' := by
  unfold firstIndexAfter
  cases hf : c.freq with
  | none =>
    dsimp only
    rw [hbefore start rfl]
  | some f =>
    dsimp only
    rw [helapsed f hf]
    simp only [descend_congr hbefore, ascend_congr hbefore]

end

/-- There is only one first number after a moment. -/
theorem IsFirstAfter.unique {interval i j : Nat} {t : Int} (hi : IsFirstAfter start f interval t i)
    (hj : IsFirstAfter start f interval t j) : i = j := by
  rcases Nat.lt_trichotomy i j with h | h | h
  · exact absurd ((hi i).mpr ((hj i).mp h)) (lt_irrefl i)
  · exact h
  · exact absurd ((hj j).mpr ((hi j).mp h)) (lt_irrefl j)

/-- Whether the minutes or hours up to a moment are counted correctly even if the passed periods are
not measured up to its instant. -/
structure CountsUpTo (start : Moment) (f : Frequency) (now : Moment) : Prop where
  isSubDaily : f.isSubDaily
  counts : CountsFrom start f
  shown : start.clock.Shows now.instant
  reaches : Reaches start f now

/-- A moment that is measured as its instant is reached if that instant is shown. -/
theorem MeasuresAsInstant.reaches (h : MeasuresAsInstant start f now)
    (hshown : start.clock.Shows now.instant) : Reaches start f now := by
  unfold MeasuresAsInstant at h
  unfold Reaches
  split
  · next hsub =>
    rw [if_pos hsub] at h
    rw [h, show start.instant + (now.instant - start.instant) = now.instant by omega]
    exact hshown
  · next hsub =>
    rw [if_neg hsub] at h
    obtain ⟨u, hu, hon⟩ := hshown
    rw [← Option.isSome_map (f := Moment.wall), h, Option.isSome_map, ← hu, WallTime.ofTicks?_ticks,
      Option.bind_some, ← Moment.on?_universal]
    exact hon

end Plain

/-! ## Sources -/

namespace Source

open Plain

variable {d : Descriptor} {c : Component} {f : Frequency} {now now' : Moment}

/-- Plain rules look for the first number and otherwise not at the moment. -/
theorem plainNth_congr (h : firstIndexAfter d.start c now = firstIndexAfter d.start c now') (k : Nat) :
    plainNth d c now k = plainNth d c now' k := by
  unfold plainNth
  rw [h]

/-- Wherever the search for the first number starts, it ends there. -/
theorem plainNth_of_reaches (hcounts : CountsFrom d.start f) (hf : c.freq = some f)
    (hinterval : 0 < c.interval) (hinstant : now.instant = now'.instant)
    (h : now.ComparesOn d.start.clock ∧ Reaches d.start f now)
    (h' : now'.ComparesOn d.start.clock ∧ Reaches d.start f now') (hsub : f.isSubDaily) (k : Nat) :
    orNone (plainNth d c now k) = orNone (plainNth d c now' k) := by
  by_cases hspan : HasSpan f c.interval
  · obtain ⟨first, hfirst, hfound⟩ :=
      firstIndexAfter_of_comparesOn hcounts hf hinterval h.1 hspan h.2
    obtain ⟨first', hfirst', hfound'⟩ :=
      firstIndexAfter_of_comparesOn hcounts hf hinterval h'.1 hspan h'.2
    rw [hinstant] at hfirst
    obtain rfl := hfirst.unique hfirst'
    rcases hfound with ⟨⟨t, ht⟩, hfound⟩ | ⟨hnone, e, he, herror⟩
    · rcases hfound' with ⟨-, hfound'⟩ | ⟨hnone', -⟩
      · rw [plainNth_congr (hfound.trans hfound'.symm)]
      · exact absurd ht (hnone' t)
    · rcases hfound' with ⟨⟨t, ht⟩, -⟩ | ⟨-, e', he', herror'⟩
      · exact absurd ht (hnone t)
      · unfold plainNth
        rw [herror, herror']
        exact (orNone_error he).trans (orNone_error he').symm
  · -- without a period nothing is measured at all
    obtain ⟨unit, hunit⟩ := exists_absolute hsub
    have herror : ∀ t : Moment, firstIndexAfter d.start c t = .error .beyondCalendar := by
      intro t
      unfold HasSpan at hspan
      rw [hunit] at hspan
      unfold firstIndexAfter elapsedPeriods
      rw [hf]
      dsimp only
      rw [hunit]
      dsimp only
      rw [Option.not_isSome_iff_eq_none.mp hspan]
      rfl
    rw [plainNth_congr ((herror now).trans (herror now').symm)]

/-- Two moments of which one is counted up to and the other is reached have the same dates after them. -/
theorem plainNth_of_countsUpTo (hf : c.freq = some f) (hinterval : 0 < c.interval)
    (hinstant : now.instant = now'.instant) (hcompares : now.ComparesOn d.start.clock)
    (hcompares' : now'.ComparesOn d.start.clock) (hcounts : CountsUpTo d.start f now)
    (hother : MeasuresAsInstant d.start f now' ∨ CountsUpTo d.start f now') (k : Nat) :
    orNone (plainNth d c now k) = orNone (plainNth d c now' k) := by
  have hreaches : Reaches d.start f now' := by
    rcases hother with hother | hother
    · exact hother.reaches (hinstant ▸ hcounts.shown)
    · exact hother.reaches
  exact plainNth_of_reaches hcounts.counts hf hinterval hinstant ⟨hcompares, hcounts.reaches⟩
    ⟨hcompares', hreaches⟩ hcounts.isSubDaily k

/-- Rules are moved by the number of passed periods alone. -/
theorem anchored_congr {start : Moment}
    (h : ∀ f ∈ c.freq, elapsedPeriods start c f now = elapsedPeriods start c f now') (rules : Rules) :
    anchored start c rules now = anchored start c rules now' := by
  unfold anchored
  cases c.count with
  | some n => rfl
  | none =>
    cases hf : c.freq with
    | none => rfl
    | some f =>
      dsimp only
      rw [h f hf]

/-- The walk through moved rules is on the clock of the start. -/
theorem isOn_walk {rules moved : Rules} (hmoved : anchored d.start c rules now = .ok moved)
    (hrules : ∀ r ∈ rules.list, r.IsRead d.start.clock) (excluded : List Moment) :
    (walk moved excluded).IsOn d.start.clock := by
  have hclock : ∀ r ∈ moved.list, r.anchor.clock = d.start.clock := fun r hr =>
    (isRead_moved hmoved hrules r hr).1.clock_eq
  cases moved with
  | single r => exact RuleSet.isOn_ofRules [] excluded hclock
  | several rs exs => exact RuleSet.isOn_ofRules exs excluded hclock

theorem expandedNth_congr {rules : Rules} (hrules : ∀ r ∈ rules.list, r.IsRead d.start.clock)
    (helapsed : ∀ f ∈ c.freq, elapsedPeriods d.start c f now = elapsedPeriods d.start c f now')
    (hbefore : ∀ m : Moment, m.clock = d.start.clock → now.before m = now'.before m) (k : Nat) :
    expandedNth d c rules now k = expandedNth d c rules now' k := by
  unfold expandedNth
  rw [anchored_congr helapsed]
  refine bind_congr_of_ok fun moved hmoved => search_congr fun date hdate => hbefore date ?_
  exact RuleSet.clock_of_yielded (isOn_walk hmoved hrules d.excluded) stepLimit date hdate

theorem placeAfter_congr {ms : Array Moment} (h : ∀ m ∈ ms, now.before m = now'.before m)
    (low high : Nat) : placeAfter now ms low high = placeAfter now' ms low high := by
  fun_induction placeAfter now ms low high with
  | case1 low high hlt middle m hm hbefore ih =>
    conv_rhs => rw [placeAfter, if_pos hlt]
    simp only [show ms[(low + high) / 2]? = some m from hm]
    rw [← h m (Array.mem_of_getElem? hm), if_pos hbefore]
    exact ih
  | case2 low high hlt middle m hm hbefore ih =>
    conv_rhs => rw [placeAfter, if_pos hlt]
    simp only [show ms[(low + high) / 2]? = some m from hm]
    rw [← h m (Array.mem_of_getElem? hm), if_neg hbefore]
    exact ih
  | case3 low high hlt middle hm =>
    rw [placeAfter, if_pos hlt]
    simp only [show ms[(low + high) / 2]? = none from hm]
  | case4 low high hge => rw [placeAfter, if_neg hge]

theorem datesNth_congr (h : ∀ m ∈ d.dates, now.before m = now'.before m) (k : Nat) :
    datesNth d now k = datesNth d now' k := by
  unfold datesNth
  dsimp only
  rw [placeAfter_congr fun m hm => h m (List.mem_filter.mp (List.mem_toArray.mp hm)).1]

end Source

/-! ## All sources -/

namespace Descriptor

/-- Whether a schedule sees the instant of a moment only: it comes before and after the moments of
all clocks of the schedule as its instant does, and the passed periods are counted up to it. -/
structure ReadsByInstant (d : Descriptor) (now : Moment) : Prop where
  compares : ∀ clock ∈ d.start.clock :: d.dates.map Moment.clock, now.ComparesOn clock
  measures : ∀ c ∈ d.components, ∀ f ∈ c.freq, Plain.MeasuresAsInstant d.start f now ∨
    c.expanders = [] ∧ Plain.CountsUpTo d.start f now

variable {d : Descriptor} {now now' : Moment}

/-- Of moments of the universal clock and of clocks that are not its own a schedule sees the instant
only. -/
theorem readsByInstant_of_foreign (h : now.clock = .universal ∨
    ∀ clock ∈ d.start.clock :: d.dates.map Moment.clock, now.clock.same clock = false) :
    d.ReadsByInstant now where
  compares clock hclock := by
    rcases h with h | h
    · exact Moment.comparesOn_of_universal h
    · exact Moment.comparesOn_of_not_same (h clock hclock)
  measures c hc f hf := by
    refine .inl (Plain.measuresAsInstant_of_foreign ?_)
    rcases h with h | h
    · exact .inr h
    · exact .inl (h _ List.mem_cons_self)

/-- When as many periods have passed, every rule of a read schedule gives the same dates. -/
theorem nthAfter_of_elapsed {text : Text} {zoneName : Option Text}
    (hparse : (parse text zoneName).run.value = .ok d) {c : Component} (hc : c ∈ d.components)
    (hstart : ∀ m : Moment, m.clock = d.start.clock → now.before m = now'.before m)
    (helapsed : ∀ f ∈ c.freq,
      Plain.elapsedPeriods d.start c f now = Plain.elapsedPeriods d.start c f now') (k : Nat) :
    (Source.rule c).nthAfter d now k = (Source.rule c).nthAfter d now' k := by
  by_cases hplain : c.expanders = []
  · rw [Source.nthAfter_plain hplain, Source.nthAfter_plain hplain,
      Source.plainNth_congr (Plain.firstIndexAfter_congr hstart helapsed)]
  · rcases (component_of_parse hparse hc).2 with rfl | ⟨f, rules, -, hrules⟩
    · exact absurd rfl hplain
    · rw [Source.nthAfter_expanded hplain hrules, Source.nthAfter_expanded hplain hrules,
        Source.expandedNth_congr (isRead_rules hparse hc hrules) helapsed hstart]

theorem nthAfter_of_same_instant {text : Text} {zoneName : Option Text}
    (hparse : (parse text zoneName).run.value = .ok d) (hinstant : now.instant = now'.instant)
    (h : d.ReadsByInstant now) (h' : d.ReadsByInstant now') {s : Source} (hs : s ∈ d.sources)
    (k : Nat) : s.nthAfter d now k = s.nthAfter d now' k := by
  have hbefore : ∀ clock ∈ d.start.clock :: d.dates.map Moment.clock, ∀ m : Moment,
      m.clock = clock → now.before m = now'.before m := fun clock hclock m hm =>
    (h.compares clock hclock).before_congr (h'.compares clock hclock) hinstant hm
  rcases source_of_parse hparse hs with rfl | ⟨c, hc, rfl, hinterval, -⟩
  · refine congrArg Except.ok (Source.datesNth_congr (fun m hm => ?_) k)
    exact hbefore m.clock (List.mem_cons_of_mem _ (List.mem_map_of_mem hm)) m rfl
  · by_cases hmeasured : ∀ f ∈ c.freq,
        Plain.MeasuresAsInstant d.start f now ∧ Plain.MeasuresAsInstant d.start f now'
    · -- as many periods have passed, so that everything is done alike
      exact nthAfter_of_elapsed hparse hc (hbefore d.start.clock List.mem_cons_self)
        (fun f hf => Plain.elapsedPeriods_congr (hmeasured f hf).1 (hmeasured f hf).2 hinstant c) k
    · -- the searches start at different numbers and end at the same one
      push Not at hmeasured
      obtain ⟨f, hf, hnot⟩ := hmeasured
      have hcompares := h.compares d.start.clock List.mem_cons_self
      have hcompares' := h'.compares d.start.clock List.mem_cons_self
      rcases h.measures c hc f hf with hnow | ⟨hplain, hnow⟩
      · obtain ⟨hplain, hnow'⟩ := (h'.measures c hc f hf).resolve_left (hnot hnow)
        rw [Source.nthAfter_plain hplain, Source.nthAfter_plain hplain,
          Source.plainNth_of_countsUpTo hf hinterval hinstant.symm hcompares' hcompares hnow'
            (.inl hnow)]
      · rw [Source.nthAfter_plain hplain, Source.nthAfter_plain hplain,
          Source.plainNth_of_countsUpTo hf hinterval hinstant hcompares hcompares' hnow
            ((h'.measures c hc f hf).imp_right And.right)]

theorem candidates_congr {ss : List Source}
    (h : ∀ s ∈ ss, s.nthAfter d now 0 = s.nthAfter d now' 0) :
    candidates d now ss = candidates d now' ss := by
  induction ss with
  | nil => rfl
  | cons s rest ih =>
    obtain ⟨hs, hrest⟩ := List.forall_mem_cons.mp h
    unfold candidates
    rw [hs, ih hrest]

/-- The next occurrences after two moments with one instant are the same if the schedule sees the
instant of both only. -/
theorem next_of_same_instant {text : Text} {zoneName : Option Text} {d : Descriptor}
    (hparse : (parse text zoneName).run.value = .ok d) {now now' : Moment}
    (hinstant : now.instant = now'.instant) (h : d.ReadsByInstant now) (h' : d.ReadsByInstant now')
    (k : Nat) : d.next now k = d.next now' k := by
  have hsources : ∀ s ∈ d.sources, ∀ k, s.nthAfter d now k = s.nthAfter d now' k :=
    fun s hs k => nthAfter_of_same_instant hparse hinstant h h' hs k
  unfold next
  rw [if_neg (by omega), if_neg (by omega), candidates_congr fun s hs => hsources s hs 0]
  refine bind_congr_of_ok fun cs hcs => ?_
  cases hbest : earliest cs with
  | none => rfl
  | some best =>
    obtain ⟨first, source⟩ := best
    have hmem := ((candidates_spec hcs).2 _ (earliest_mem hbest)).1
    dsimp only
    rw [hsources source hmem]

set_option maxRecDepth 2000 in
/-- Two rules and a date of another clock: noon on the universal clock is seven o'clock on the clock of
the schedule, which is never changed. -/
theorem next_of_same_instant_on_steady_clock : ∃ d, ∃ now now' : Moment,
    (parse ("DTSTART;TZID=Etc/GMT+5:20240101T090000\nRRULE:FREQ=HOURLY;INTERVAL=5\n" ++
      "RRULE:FREQ=DAILY;BYHOUR=7\nRDATE;TZID=Europe/Berlin:20240331T023000").toList none).run.value =
        .ok d ∧ now.clock = .universal ∧ now'.clock = d.start.clock ∧
    WallTime.ofFields? ⟨2024, 1, 5⟩ 12 0 0 0 = some now.wall ∧
    WallTime.ofFields? ⟨2024, 1, 5⟩ 7 0 0 0 = some now'.wall ∧
    ∀ k : Nat, d.next now k = d.next now' k := by
  obtain ⟨d, now, now', c, c', hd, hnow, hnow', hclock, hwall, hwall', hcomponents, hf, hf',
      hinstant, hforeign, hsince, hshown⟩ : ∃ d, ∃ now now' : Moment, ∃ c c',
      (parse ("DTSTART;TZID=Etc/GMT+5:20240101T090000\nRRULE:FREQ=HOURLY;INTERVAL=5\n" ++
        "RRULE:FREQ=DAILY;BYHOUR=7\nRDATE;TZID=Europe/Berlin:20240331T023000").toList
          none).run.value = .ok d ∧ now.clock = .universal ∧
      now'.clock = .zoned Zone.Table.etcGMTPlus5 ∧ d.start.clock = .zoned Zone.Table.etcGMTPlus5 ∧
      WallTime.ofFields? ⟨2024, 1, 5⟩ 12 0 0 0 = some now.wall ∧
      WallTime.ofFields? ⟨2024, 1, 5⟩ 7 0 0 0 = some now'.wall ∧ d.components = [c, c'] ∧
      c.freq = some .hourly ∧ c'.freq = some .daily ∧ now.instant = now'.instant ∧
      (d.dates.all fun m => !now'.clock.same m.clock) = true ∧
      now'.since d.start = now'.instant - d.start.instant ∧
      ((now'.on? d.start.clock).map Moment.wall == ((WallTime.ofTicks? now'.instant).bind
        (Moment.ofUniversal? d.start.clock)).map Moment.wall) = true :=
    ⟨_, ⟨_, .universal, false⟩, ⟨_, .zoned Zone.Table.etcGMTPlus5, false⟩, _, _, rfl, rfl, rfl, rfl,
      rfl, rfl, rfl, rfl, rfl, by decide +kernel, by decide +kernel, by decide +kernel,
      by decide +kernel⟩
  have hown : d.ReadsByInstant now' := by
    refine ⟨fun clock hclocks => ?_, fun c₀ hc₀ f hf₀ => .inl ?_⟩
    · rcases List.mem_cons.mp hclocks with rfl | hdate
      · rw [hclock]
        exact Moment.comparesOn_of_steady (-18000) (fun _ _ => rfl) hnow'
      · obtain ⟨m, hm, rfl⟩ := List.mem_map.mp hdate
        refine Moment.comparesOn_of_not_same ?_
        simpa using List.all_eq_true.mp hforeign m hm
    · rw [hcomponents] at hc₀
      rcases List.mem_pair.mp hc₀ with rfl | rfl
      · obtain rfl : f = .hourly := Option.some.inj (hf₀.symm.trans hf)
        exact hsince
      · obtain rfl : f = .daily := Option.some.inj (hf₀.symm.trans hf')
        exact beq_iff_eq.mp hshown
  exact ⟨d, now, now', hd, hnow, hnow'.trans hclock.symm, hwall, hwall', fun k =>
    next_of_same_instant hd hinstant (readsByInstant_of_foreign (.inl hnow)) hown k⟩

/-- Ten past two of the second pass, on the universal clock and on the clock of the schedule: there a
quarter to three of the first pass seems to come later. -/
theorem next_ne_on_own_clock : ∃ d now now' m n,
    (parse "DTSTART;TZID=Europe/Berlin:20241026T024500\nRRULE:FREQ=DAILY".toList none).run.value =
      .ok d ∧ WallTime.ofFields? ⟨2024, 10, 27⟩ 1 10 0 0 = some now ∧
    (Moment.universal now).on? d.start.clock = some now' ∧ now'.instant = now.ticks ∧
    d.next (Moment.universal now) 0 = .ok (some m) ∧ d.next now' 0 = .ok (some n) ∧
    n.instant < m.instant := by
  obtain ⟨d, now, now', hd, hnow, hnow', hinstant, hearlier⟩ : ∃ d now now',
      (parse "DTSTART;TZID=Europe/Berlin:20241026T024500\nRRULE:FREQ=DAILY".toList none).run.value =
        .ok d ∧ WallTime.ofFields? ⟨2024, 10, 27⟩ 1 10 0 0 = some now ∧
      (Moment.universal now).on? d.start.clock = some now' ∧ now'.instant = now.ticks ∧
      ((d.next (Moment.universal now) 0).toOption.join.any fun m =>
        (d.next now' 0).toOption.join.any fun n => decide (n.instant < m.instant)) = true :=
    ⟨_, _, _, rfl, rfl, rfl, by decide +kernel, by decide +kernel⟩
  obtain ⟨m, hm, hearlier⟩ := (Option.any_eq_true _ _).mp hearlier
  obtain ⟨n, hn, hearlier⟩ := (Option.any_eq_true _ _).mp hearlier
  exact ⟨d, now, now', m, n, hd, hnow, hnow', hinstant,
    ok_of_toOption (Option.join_eq_some_iff.mp hm), ok_of_toOption (Option.join_eq_some_iff.mp hn),
    decide_eq_true_iff.mp hearlier⟩

end Descriptor

end ScanPolicy
