import ScanPolicy.Proofs.Schedule.Merge
import ScanPolicy.Proofs.Schedule.Parsed
import ScanPolicy.Proofs.Schedule.PlainNext

/-!
# Schedules of plain rules in universal time

A text that names no zone gives a schedule in universal time. If its rules have
no expanding parts, the next occurrence is that of a merge of explicit
sequences: the numbered dates of every rule, and the further dates.

- `Descriptor.IsUniversal`: what a schedule in universal time looks like;
  `isUniversal_of_parse`.
- `Descriptor.sequences`: the sequences of a schedule.
- `Descriptor.next_eq_merge`: the next occurrence is that of their merge.
-/

namespace ScanPolicy

/-- A component in universal time: the single date of an event without rules, or
a rule with a frequency. -/
structure Component.IsUniversal (c : Component) : Prop where
  shape : c = Component.once ∨ ∃ f, c.freq = some f
  interval_pos : 0 < c.interval
  bound : ∀ m ∈ c.bound, m.IsUniversal

/-- A schedule of which all moments are read on the universal clock. -/
structure Descriptor.IsUniversal (d : Descriptor) : Prop where
  start : d.start.IsUniversal
  components : ∀ c ∈ d.components, c.IsUniversal
  dates : ∃ dates : List WallTime, d.dates = dates.map Moment.universal ∧
    dates.Pairwise fun a b => a.ticks < b.ticks
  excluded : ∀ m ∈ d.excluded, m.IsUniversal

theorem Instant.IsRead.isUniversal {m : Moment} (h : Instant.IsRead .universal m) :
    m.IsUniversal :=
  Moment.isUniversal_iff.mpr ⟨h.clock_eq.elim id id, h.fold_eq⟩

namespace Component

/-- A rule that is read on the universal clock is in universal time. -/
theorem isUniversal_of_parse {value : Text} {start : Moment} {c : Component}
    (h : parse value start .universal = .ok c) : c.IsUniversal := by
  obtain ⟨all, -, hread⟩ := isRead_of_parse h
  obtain ⟨f, hf, -⟩ := hread.freq_eq
  refine ⟨.inr ⟨f, hf⟩, (positive_of_ok hread.interval_eq).1, fun m hm => ?_⟩
  have hbound := hread.bound_eq
  rw [show c.bound = some m from hm] at hbound
  unfold boundOf at hbound
  split at hbound
  · obtain ⟨_, hparse, hsome⟩ := map_eq_ok_iff.mp hbound
    cases hsome
    exact (Instant.isRead_of_parse hparse).isUniversal
  · cases hbound

end Component

namespace Descriptor

/-- A text without zone names gives a schedule in universal time. -/
theorem isUniversal_of_parse {text : Text} {d : Descriptor}
    (hparse : (parse text none).run.value = .ok d)
    (hzone : ∀ ps, Property.ofEvent text = .ok ps → ∀ p ∈ ps, p.parameter? "TZID" = none) :
    d.IsUniversal := by
  obtain ⟨ps, hps, hread⟩ := isRead_of_parse hparse
  have hnone := hzone ps hps
  obtain ⟨p, hp, hzoneOf, hstart⟩ := hread.start_eq
  have hd : d.zone = none := by
    unfold zoneOf at hzoneOf
    rw [hnone p hp] at hzoneOf
    exact (Except.ok.inj hzoneOf).symm
  rw [hd] at hstart
  have hstart' : Instant.parse p.value .universal = .ok d.start := by
    obtain ⟨m, hm, h⟩ := bind_eq_ok_iff.mp hstart
    cases h
    exact hm
  obtain ⟨dates, excluded, hlists, hdates, hexcluded⟩ := hread.dates_eq
  rw [hd] at hlists
  -- a property without a zone name lists moments on the clock of the schedule
  obtain ⟨hdatesU, hexcludedU⟩ := forall_of_dateLists (P := Moment.IsUniversal)
    (fun p hp ms hms m hm => by
      rcases moments_isRead hms m hm with h | ⟨name, z, hname, -⟩
      · exact h.isUniversal
      · rw [hnone p hp] at hname
        cases hname) hlists
  refine ⟨(Instant.isRead_of_parse hstart').isUniversal, fun c hc => ?_, ?_, ?_⟩
  · rcases hread.components_eq with honce | hrules
    · rw [honce] at hc
      rw [List.mem_singleton.mp hc]
      exact ⟨.inl rfl, by decide, by simp [Component.once]⟩
    · obtain ⟨q, -, hq⟩ := hrules c hc
      rw [hd] at hq
      exact Component.isUniversal_of_parse hq
  · rw [hdates, Moment.map_universal hdatesU]
    obtain ⟨us, hus, hsorted, -⟩ := Moment.sort_distinct_spec (dates.map Moment.wall)
    exact ⟨us, hus, hsorted⟩
  · rw [hexcluded, Moment.map_universal hexcludedU]
    obtain ⟨us, hus, -⟩ := Moment.distinct_spec (excluded.map Moment.wall)
    rw [hus]
    intro m hm
    obtain ⟨t, -, rfl⟩ := List.mem_map.mp hm
    exact Moment.isUniversal_universal t

end Descriptor

/-! ## The single date -/

namespace Source

open Plain

theorem firstIndexAfter_once (start now : WallTime) :
    firstIndexAfter (Moment.universal start) Component.once (Moment.universal now) =
      .ok (if now.ticks < start.ticks then 0 else 1) := by
  unfold firstIndexAfter
  simp [Component.once]

/-- An excluded date removes the single date if it is the same. -/
theorem excludedIndex_once_eq_iff (start : WallTime) {date : WallTime} (hdate : 0 < date.ticks) :
    excludedIndex (Moment.universal start) Component.once (Moment.universal date) = .ok (some 0) ↔
      date.ticks = start.ticks := by
  obtain ⟨before, hadd, hticks⟩ := exists_just_before hdate
  rw [excludedIndex_eq hadd (firstIndexAfter_once start before) rfl]
  simp only [Moment.same_universal, decide_eq_true_eq]
  by_cases heq : start.ticks = date.ticks
  · rw [if_pos heq, if_pos (by omega)]
    exact ⟨fun _ => heq.symm, fun _ => rfl⟩
  · rw [if_neg heq]
    constructor
    · intro h
      cases h
    · intro h
      exact absurd h.symm heq

theorem zero_mem_excludedIndices_once {d : Descriptor} {start : WallTime}
    (hstart : d.start = Moment.universal start) (hexcluded : ∀ m ∈ d.excluded, m.IsUniversal)
    (hpos : 0 < start.ticks) :
    0 ∈ excludedIndices d Component.once ↔ ∃ e ∈ d.excluded, e.wall.ticks = start.ticks := by
  rw [mem_excludedIndices_iff, hstart]
  constructor
  · rintro ⟨m, hm, hafter, h⟩
    rw [show m = Moment.universal m.wall from hexcluded m hm] at hafter h
    simp only [Moment.before_universal, decide_eq_true_eq] at hafter
    exact ⟨m, hm, (excludedIndex_once_eq_iff start (by omega)).mp h⟩
  · rintro ⟨e, he, hticks⟩
    refine ⟨e, he, ?_⟩
    rw [show e = Moment.universal e.wall from hexcluded e he]
    refine ⟨?_, (excludedIndex_once_eq_iff start (by omega)).mpr hticks⟩
    simp only [Moment.before_universal, decide_eq_true_eq]
    omega

/-- The further dates of an event without rules. -/
theorem plainNth_once_spec {d : Descriptor} {start : WallTime}
    (hstart : d.start = Moment.universal start) (hexcluded : ∀ m ∈ d.excluded, m.IsUniversal)
    (now : WallTime) (k : Nat) :
    ∃ t : Option WallTime, orNone (plainNth d Component.once (Moment.universal now) k) =
        .ok (t.map Moment.universal) ∧
      NthAfter (Component.once.points d) now.ticks k (t.map WallTime.ticks) := by
  have hfirst := firstIndexAfter_once start now
  rw [← hstart] at hfirst
  generalize hf : (if now.ticks < start.ticks then 0 else 1) = first at hfirst
  have hnow : now.ticks < start.ticks ↔ first = 0 := by
    split at hf <;> omega
  have hreached := advance_spec (excludedIndices_pairwise d Component.once) first k
  have hanswer : NthAfter (Component.once.points d) now.ticks k
      (if advance first k (excludedIndices d Component.once) < 1 then some start.ticks else none) := by
    refine nthAfter_of_index (O := fun _ => start.ticks) (fun i j hij hj => by omega) ?_
      (fun i hi => by omega) hreached.le hreached.notMem hreached.count
    intro t ht
    have hpos := lt_of_le_of_lt now.nonneg ht
    simp only [Component.points, hstart, Moment.wall_universal, Set.mem_ofPred_eq]
    constructor
    · rintro ⟨⟨i, ⟨rfl, rfl⟩, -⟩, hout⟩
      refine ⟨0, Nat.zero_lt_one, fun hi => ?_, rfl⟩
      obtain ⟨e, he, heq⟩ := (zero_mem_excludedIndices_once hstart hexcluded hpos).mp hi
      exact hout e he heq
    · rintro ⟨i, hi, hout, rfl⟩
      obtain rfl : i = 0 := by omega
      refine ⟨⟨0, ⟨rfl, rfl⟩, start.inCalendar, ?_, ?_⟩, fun e he heq => ?_⟩
      · rintro n ⟨⟩
        exact Nat.zero_lt_one
      · rintro u ⟨⟩
      · exact hout ((zero_mem_excludedIndices_once hstart hexcluded hpos).mpr ⟨e, he, heq⟩)
  have hcount : ∀ i, Component.once.count.any (· ≤ i) = decide (1 ≤ i) := fun _ => rfl
  rw [plainNth_eq hfirst, hcount]
  by_cases hin : advance first k (excludedIndices d Component.once) < 1
  · rw [if_pos hin] at hanswer
    refine ⟨some start, ?_, hanswer⟩
    rw [if_neg (by simpa using hin)]
    show Except.ok (some d.start) = Except.ok (some (Moment.universal start))
    rw [hstart]
  · rw [if_neg hin] at hanswer
    refine ⟨none, ?_, hanswer⟩
    rw [if_pos (by simpa using not_lt.mp hin)]
    rfl

end Source

/-! ## The merge -/

namespace Descriptor

/-- The further dates without the excluded ones. -/
def furtherPoints (d : Descriptor) : Set Int :=
  {t | (∃ m ∈ d.dates, m.wall.ticks = t) ∧ ∀ e ∈ d.excluded, e.wall.ticks ≠ t}

/-- The sequences of a schedule in universal time: those of its components in the
order of the text, and then the further dates. -/
def sequences (d : Descriptor) : List (Set Int) :=
  d.components.map (·.points d) ++ [d.furtherPoints]

/-- The next occurrence of a schedule of plain rules in universal time is that of
the merge of its sequences. -/
theorem next_eq_merge {text : Text} {d : Descriptor}
    (hparse : (parse text none).run.value = .ok d)
    (hzone : ∀ ps, Property.ofEvent text = .ok ps → ∀ p ∈ ps, p.parameter? "TZID" = none)
    (hplain : ∀ c ∈ d.components, c.expanders = [])
    (hspan : ∀ c ∈ d.components, ∀ f ∈ c.freq, Plain.HasSpan f c.interval)
    (now : WallTime) (k : Nat) :
    ∃ t : Option WallTime, d.next (Moment.universal now) k = .ok (t.map Moment.universal) ∧
      Answers d.sequences now.ticks k (t.map WallTime.ticks) := by
  have hd := isUniversal_of_parse hparse hzone
  -- the sequence of a source
  let points : Source → Set Int
    | .rule c => c.points d
    | .dates => d.furtherPoints
  have hsources : ∀ s ∈ d.sources, ∀ k, ∃ t : Option WallTime,
      s.nthAfter d (Moment.universal now) k = .ok (t.map Moment.universal) ∧
        NthAfter (points s) now.ticks k (t.map WallTime.ticks) := by
    intro s hs k
    cases s with
    | dates =>
      obtain ⟨dates, hdates, hsorted⟩ := hd.dates
      obtain ⟨t, ht, hnth⟩ := Source.datesNth_spec hdates hsorted hd.excluded now k
      exact ⟨t, congrArg Except.ok ht, hnth⟩
    | rule c =>
      have hc : c ∈ d.components := by
        rcases List.mem_append.mp hs with hs | hs
        · obtain ⟨c', hc', heq⟩ := List.mem_map.mp hs
          cases heq
          exact hc'
        · split at hs
          · cases hs
          · cases List.mem_singleton.mp hs
      rw [Source.nthAfter_plain (hplain c hc)]
      rcases (hd.components c hc).shape with rfl | ⟨f, hf⟩
      · exact Source.plainNth_once_spec hd.start hd.excluded now k
      · exact Source.plainNth_spec hd.start hd.excluded (hd.components c hc).bound hf
          (hd.components c hc).interval_pos (hspan c hc f hf) now k
  obtain ⟨t, ht, hanswers⟩ := next_of_sources points hsources k
  refine ⟨t, ht, ?_⟩
  unfold sources at hanswers
  rw [List.map_append, List.map_map] at hanswers
  split at hanswers
  · next hempty =>
    have hnone : d.furtherPoints = ∅ := by
      rw [List.isEmpty_iff] at hempty
      simp [furtherPoints, hempty]
    unfold sequences
    rw [hnone]
    exact hanswers.append_empty
  · exact hanswers

/-- A daily rule from the first of January 2024 on, asked at its start. -/
theorem next_eq_merge_of_daily_rule :
    ∃ d now, (parse "DTSTART:20240101T000000Z\nRRULE:FREQ=DAILY".toList none).run.value = .ok d ∧
      d.start = Moment.universal now ∧
      ∃ t : Option WallTime, d.next (Moment.universal now) 1 = .ok (t.map Moment.universal) ∧
        Answers d.sequences now.ticks 1 (t.map WallTime.ticks) := by
  obtain ⟨d, c, now, hparse, hstart, hcomponents, hplain, hfreq, hinterval⟩ : ∃ d c now,
      (parse "DTSTART:20240101T000000Z\nRRULE:FREQ=DAILY".toList none).run.value = .ok d ∧
        d.start = Moment.universal now ∧ d.components = [c] ∧ c.expanders = [] ∧
        c.freq = some .daily ∧ c.interval = 1 := ⟨_, _, _, rfl, rfl, rfl, rfl, rfl, rfl⟩
  refine ⟨d, now, hparse, hstart, next_eq_merge hparse (fun ps hps => ?_) (fun c' hc' => ?_)
    (fun c' hc' f hf => ?_) now 1⟩
  · have hevent : Property.ofEvent "DTSTART:20240101T000000Z\nRRULE:FREQ=DAILY".toList =
        .ok [⟨"DTSTART".toList, [], "20240101T000000Z".toList⟩,
          ⟨"RRULE".toList, [], "FREQ=DAILY".toList⟩] := rfl
    cases hevent.symm.trans hps
    decide
  · rw [hcomponents] at hc'
    rw [List.mem_singleton.mp hc', hplain]
  · rw [hcomponents] at hc'
    rw [List.mem_singleton.mp hc'] at hf ⊢
    rw [hfreq] at hf
    cases hf
    rw [hinterval]
    rfl

end Descriptor

end ScanPolicy
