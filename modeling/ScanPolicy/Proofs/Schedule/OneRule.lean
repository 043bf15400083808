import ScanPolicy.Proofs.Schedule.ClockNext
import ScanPolicy.Proofs.Schedule.Merge
import ScanPolicy.Proofs.Zone.Calm

/-!
# Schedules of one plain rule on any clock

A schedule of one plain rule has numbered dates. Its next occurrence is found by the first
number of which the date is after the moment.

- `Component.HasDate`: the instants of the dates that a component has.
- `Descriptor.next_of_one_rule`: the next occurrence, by its number.
- `Descriptor.next_ne_of_early_start`: a start that is before the calendar in universal
  time hides all dates.
-/

namespace ScanPolicy

/-- Whether a component has the date with a number at a point of universal time: the count and the
last moment reach so far. -/
structure Component.HasDate (c : Component) (start : Moment) (f : Frequency) (index : Nat) (t : Int) :
    Prop where
  isDate : Plain.IsDate start f c.interval index t
  inCount : ∀ n ∈ c.count, index < n
  inBound : ∀ u ∈ c.bound, t ≤ u.instant

namespace Component

open Plain

variable {start : Moment} {c : Component} {f : Frequency} {index : Nat}

/-- With a last moment in universal time, a component gives the dates that it has. -/
theorem HasDate.gives {t : Int} (h : c.HasDate start f index t) (hcounts : CountsFrom start f)
    (hf : c.freq = some f) (hbound : ∀ u ∈ c.bound, u.clock = .universal) :
    ∃ m, c.Gives start index m ∧ Moment.IsOn start.clock m ∧ m.instant = t := by
  obtain ⟨m, hm, hon, hinstant⟩ := h.isDate.exists_occurrence hcounts hf
  refine ⟨m, ⟨h.inCount, hm, fun u hu => ?_⟩, hon, hinstant⟩
  rw [Moment.before_eq (.inl (hbound u hu)), decide_eq_true_iff, hinstant]
  exact not_lt.mpr (h.inBound u hu)

theorem Gives.hasDate {m : Moment} (h : c.Gives start index m) (hcounts : CountsFrom start f)
    (hf : c.freq = some f) (hbound : ∀ u ∈ c.bound, u.clock = .universal) :
    c.HasDate start f index m.instant := by
  refine ⟨isDate_of_occurrence hcounts hf h.isOccurrence, h.inCount, fun u hu => ?_⟩
  have hnot := h.inBound u hu
  rw [Moment.before_eq (.inl (hbound u hu)), decide_eq_true_iff] at hnot
  exact not_lt.mp hnot

/-- A component that has a date has one with every smaller number. -/
theorem HasDate.of_le {j : Nat} {t : Int} (h : c.HasDate start f j t) (hcounts : CountsFrom start f)
    (hinterval : 0 < c.interval) (hij : index ≤ j) : ∃ s, c.HasDate start f index s := by
  obtain ⟨s, hs⟩ := exists_isDate_of_le hcounts hinterval h.isDate hij
  have hle := hs.le hcounts hinterval h.isDate hij
  exact ⟨s, hs, fun n hn => lt_of_le_of_lt hij (h.inCount n hn),
    fun u hu => hle.trans (h.inBound u hu)⟩

end Component

namespace Descriptor

/-- A schedule with one source has the dates of that source. -/
theorem next_of_one_source {d : Descriptor} {s : Source} {now : Moment} {k : Nat}
    {first x : Option Moment} (hsources : d.sources = [s]) (hfirst : s.nthAfter d now 0 = .ok first)
    (hx : s.nthAfter d now k = .ok x) (hnone : first = none → x = none) : d.next now k = answer x := by
  refine next_of_only ?_ hfirst hx hnone
  rw [hsources]
  unfold candidates
  rw [hfirst]
  cases first <;> rfl

/-- The next occurrence of a schedule of one plain rule is found by its number: it is the `k`-th one
from the first number of which the date is after the moment. It is there as long as the count, the
last moment and the calendar reach. -/
theorem next_of_one_rule {d : Descriptor} {c : Component} {f : Frequency}
    (hcomponents : d.components = [c]) (hdates : d.dates = []) (hexcluded : d.excluded = [])
    (hf : c.freq = some f) (hplain : c.expanders = []) (hinterval : 0 < c.interval)
    (hspan : Plain.HasSpan f c.interval) (hbound : ∀ u ∈ c.bound, u.clock = .universal)
    (hordered : d.start.clock.IsDayOrdered)
    (hsubDaily : f.isSubDaily → d.start.clock.KeepsInstants ∧ d.start.clock.IsUnbroken ∧
      d.start.clock.Shows d.start.instant)
    {now : WallTime} (hnow : d.start.clock.Shows now.ticks) :
    ∃ first, (∀ i, first ≤ i ↔ ∀ t, Plain.IsDate d.start f c.interval i t → now.ticks < t) ∧
      ∀ k : Nat,
        (∀ t : WallTime, c.HasDate d.start f (first + k) t.ticks →
          d.next (Moment.universal now) k = .ok (some (Moment.universal t))) ∧
        ((∀ t, ¬ c.HasDate d.start f (first + k) t) → d.next (Moment.universal now) k = .ok none) := by
  have hcounts : Plain.CountsFrom d.start f := ⟨fun _ => hordered, fun h => (hsubDaily h).1,
    fun h => (hsubDaily h).2.1, fun h => (hsubDaily h).2.2⟩
  have hsources : d.sources = [.rule c] := by
    unfold sources
    rw [hcomponents, hdates]
    rfl
  obtain ⟨first, hfirst, hnth⟩ := Source.plainNth_on_clock hcounts hf hinterval hspan hnow
  have hindices : Plain.excludedIndices d c = [] := by
    unfold Plain.excludedIndices
    rw [hexcluded]
    rfl
  -- what the rule gives for each further number
  have hgives : ∀ (k : Nat) (t : Int), c.HasDate d.start f (first + k) t →
      ∃ m, (Source.rule c).nthAfter d (Moment.universal now) k = .ok (some m) ∧
        Moment.IsOn d.start.clock m ∧ m.instant = t := by
    intro k t ht
    obtain ⟨m, hm, hon, hinstant⟩ := ht.gives hcounts hf hbound
    refine ⟨m, ?_, hon, hinstant⟩
    rw [Source.nthAfter_plain hplain]
    refine (hnth k).1 m ?_
    rw [hindices]
    exact hm
  have hsilent : ∀ k : Nat, (∀ t, ¬ c.HasDate d.start f (first + k) t) →
      (Source.rule c).nthAfter d (Moment.universal now) k = .ok none := by
    intro k hnot
    rw [Source.nthAfter_plain hplain]
    refine (hnth k).2 fun m hm => ?_
    rw [hindices] at hm
    exact hnot _ (hm.hasDate hcounts hf hbound)
  refine ⟨first, fun i => ?_, fun k => ⟨fun t ht => ?_, fun hnot => ?_⟩⟩
  · have h := hfirst i
    constructor
    · intro hle t ht
      by_contra hlt
      exact absurd (h.mpr ⟨t, ht, not_lt.mp hlt⟩) (not_lt.mpr hle)
    · intro hlater
      by_contra hlt
      obtain ⟨t, ht, hle⟩ := h.mp (not_le.mp hlt)
      exact absurd (hlater t ht) (not_lt.mpr hle)
  · obtain ⟨t₀, ht₀⟩ := ht.of_le hcounts hinterval (Nat.le_add_right first k)
    obtain ⟨m₀, hm₀, -⟩ := hgives 0 t₀ ht₀
    obtain ⟨m, hm, hon, hinstant⟩ := hgives k t.ticks ht
    rw [next_of_one_source hsources hm₀ hm (fun h => by cases h)]
    show some <$> within m.universal? = _
    rw [Moment.universal?_of_instant hon hinstant]
    rfl
  · have hx := hsilent k hnot
    by_cases hsome : ∃ t, c.HasDate d.start f (first + 0) t
    · obtain ⟨t₀, ht₀⟩ := hsome
      obtain ⟨m₀, hm₀, -⟩ := hgives 0 t₀ ht₀
      exact next_of_one_source hsources hm₀ hx fun _ => rfl
    · exact next_of_one_source hsources (hsilent 0 (not_exists.mp hsome)) hx fun _ => rfl

/-- An hourly rule in Berlin from half an hour before the clocks are set forward. -/
theorem next_of_one_rule_at_gap : ∃ d c now,
    (parse "DTSTART;TZID=Europe/Berlin:20240331T013000\nRRULE:FREQ=HOURLY;COUNT=5".toList
      none).run.value = .ok d ∧ d.start.clock = .zoned Zone.Table.europeBerlin ∧
    d.components = [c] ∧ WallTime.ofFields? ⟨2024, 3, 31⟩ 0 45 0 0 = some now ∧
    ∃ first, (∀ i, first ≤ i ↔ ∀ t, Plain.IsDate d.start .hourly c.interval i t → now.ticks < t) ∧
      ∀ k : Nat,
        (∀ t : WallTime, c.HasDate d.start .hourly (first + k) t.ticks →
          d.next (Moment.universal now) k = .ok (some (Moment.universal t))) ∧
        ((∀ t, ¬ c.HasDate d.start .hourly (first + k) t) →
          d.next (Moment.universal now) k = .ok none) := by
  obtain ⟨d, c, now, start, hd, hclock, hcomponents, hf, hplain, hinterval, hbound, hnow, hdates,
      hexcluded, hstart, hshown, hnowShown⟩ : ∃ d c now start,
      (parse "DTSTART;TZID=Europe/Berlin:20240331T013000\nRRULE:FREQ=HOURLY;COUNT=5".toList
        none).run.value = .ok d ∧ d.start.clock = .zoned Zone.Table.europeBerlin ∧
      d.components = [c] ∧ c.freq = some .hourly ∧ c.expanders = [] ∧ c.interval = 1 ∧
      c.bound = none ∧ WallTime.ofFields? ⟨2024, 3, 31⟩ 0 45 0 0 = some now ∧
      d.dates.isEmpty = true ∧ d.excluded.isEmpty = true ∧
      WallTime.ofTicks? d.start.instant = some start ∧
      ((Moment.universal start).on? (.zoned Zone.Table.europeBerlin)).isSome = true ∧
      ((Moment.universal now).on? (.zoned Zone.Table.europeBerlin)).isSome = true :=
    ⟨_, _, _, _, rfl, rfl, rfl, rfl, rfl, rfl, rfl, rfl, by decide +kernel, by decide +kernel, rfl,
      by decide +kernel, by decide +kernel⟩
  have hcalm := Zone.isCalm_europeBerlin
  refine ⟨d, c, now, hd, hclock, hcomponents, hnow, next_of_one_rule hcomponents
    (List.isEmpty_iff.mp hdates) (List.isEmpty_iff.mp hexcluded) hf hplain (by rw [hinterval]; decide)
    (by rw [hinterval]; rfl) (fun u hu => ?_) (by rw [hclock]; exact hcalm.separatesDays.isDayOrdered)
    (fun _ => ?_) (by rw [hclock]; exact ⟨now, rfl, hnowShown⟩)⟩
  · rw [hbound] at hu
    cases hu
  · rw [hclock]
    exact ⟨hcalm.keepsInstants, hcalm.isUnbroken, start, WallTime.ticks_of_ofTicks? hstart, hshown⟩

/-- An hourly rule in Tokyo from the first midnight of the calendar: in universal time its start is
before the calendar, and no date is found, although the calendar has all but the first ten. -/
theorem next_ne_of_early_start : ∃ d c now, ∃ first : Nat, ∃ t : WallTime,
    (parse "DTSTART;TZID=Asia/Tokyo:00010101T000000\nRRULE:FREQ=HOURLY".toList none).run.value =
      .ok d ∧ d.components = [c] ∧ d.dates = [] ∧ d.excluded = [] ∧ c.freq = some .hourly ∧
    c.expanders = [] ∧ c.count = none ∧ c.bound = none ∧ d.start.clock.IsDayOrdered ∧
    WallTime.ofFields? ⟨2024, 1, 1⟩ 0 0 0 0 = some now ∧ d.start.clock.Shows now.ticks ∧
    (∀ i : Nat, first ≤ i ↔ now.ticks < d.start.instant + (i * c.interval : Nat) * Span.hour) ∧
    t.ticks = d.start.instant + (first * c.interval : Nat) * Span.hour ∧
    d.start.clock.Shows t.ticks ∧ d.next (Moment.universal now) 0 = .ok none := by
  obtain ⟨d, c, now, t, hd, hclock, hcomponents, hf, hplain, hinterval, hcount, hbound, hnow, ht,
      hdates, hexcluded, hstart, hnowTicks, hnowShown, hshown, hnext⟩ : ∃ d c now t,
      (parse "DTSTART;TZID=Asia/Tokyo:00010101T000000\nRRULE:FREQ=HOURLY".toList none).run.value =
        .ok d ∧ d.start.clock = .zoned Zone.Table.asiaTokyo ∧ d.components = [c] ∧
      c.freq = some .hourly ∧ c.expanders = [] ∧ c.interval = 1 ∧ c.count = none ∧ c.bound = none ∧
      WallTime.ofFields? ⟨2024, 1, 1⟩ 0 0 0 0 = some now ∧
      WallTime.ofFields? ⟨2024, 1, 1⟩ 0 41 1 0 = some t ∧ d.dates.isEmpty = true ∧
      d.excluded.isEmpty = true ∧ d.start.instant = -33539000000 ∧
      now.ticks = 63839664000000000 ∧
      ((Moment.universal now).on? (.zoned Zone.Table.asiaTokyo)).isSome = true ∧
      ((Moment.universal t).on? (.zoned Zone.Table.asiaTokyo)).isSome = true ∧
      (d.next (Moment.universal now) 0).toOption.any Option.isNone = true :=
    ⟨_, _, _, _, rfl, rfl, rfl, rfl, rfl, rfl, rfl, rfl, rfl, rfl, by decide +kernel,
      by decide +kernel, by decide +kernel, by decide +kernel, by decide +kernel, by decide +kernel,
      by decide +kernel⟩
  have hcalm : Zone.Table.asiaTokyo.IsCalm 0 := by decide +kernel
  have hticks : t.ticks = 63839666461000000 := by
    cases ht
    decide +kernel
  refine ⟨d, c, now, 17733250, t, hd, hcomponents, List.isEmpty_iff.mp hdates,
    List.isEmpty_iff.mp hexcluded, hf, hplain, hcount, hbound, ?_, hnow, ?_, fun i => ?_, ?_, ?_, ?_⟩
  · rw [hclock]
    exact hcalm.separatesDays.isDayOrdered
  · rw [hclock]
    exact ⟨now, rfl, hnowShown⟩
  · rw [hinterval, hstart, hnowTicks, Span.hour_eq]
    omega
  · rw [hinterval, hstart, hticks, Span.hour_eq]
    rfl
  · rw [hclock]
    exact ⟨t, rfl, hshown⟩
  · exact ok_none_of_any hnext

end Descriptor

end ScanPolicy
