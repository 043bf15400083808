import ScanPolicy.Proofs.Schedule.FurtherInstants
import ScanPolicy.Proofs.Schedule.PlainExclusion

/-!
# The listed dates of a plain rule in universal time

On a clock that shows universal time the dates of a plain rule can be listed by their
numbers, and its further dates are those of the list that are after the moment and have
no excluded instant.

- `Clock.separatesDays_utc`, `Plain.countsFrom_utc`: clocks that show universal time.
- `Plain.occurrence_eq_ok_iff`: the date with a number.
- `Component.Lists`: a list of the dates of a component.
- `Descriptor.ExcludesClearly`: excluded dates that are told by their instants.
- `Source.plainNth_of_lists`: the further dates of a plain rule.
-/

namespace ScanPolicy

/-! ## Clocks that show universal time -/

namespace Clock

variable {clock : Clock} (h : clock.IsUtc)

include h

theorem instant_reading (t : WallTime) : (clock.reading t).instant = t.ticks :=
  Moment.instant_utc (m := clock.reading t) h

theorem separatesDays_utc : clock.SeparatesDays := by
  intro a b hab
  rw [instant_reading h, instant_reading h]
  rw [Span.day_eq] at hab
  omega

theorem keepsInstants_utc : clock.KeepsInstants := by
  intro t m hm
  rw [Moment.on?_utc h] at hm
  cases hm
  exact instant_reading h t

theorem shows_utc_iff {t : Int} : clock.Shows t ↔ ∃ u : WallTime, u.ticks = t := by
  constructor
  · rintro ⟨u, hu, -⟩
    exact ⟨u, hu⟩
  · rintro ⟨u, hu⟩
    exact ⟨u, hu, by rw [Moment.on?_utc h]; rfl⟩

theorem isUnbroken_utc : clock.IsUnbroken := by
  intro a b c hab hbc ha hc
  rw [shows_utc_iff h] at *
  exact shows_universal_iff.mp (isUnbroken_universal a b c hab hbc (shows_universal_iff.mpr ha)
    (shows_universal_iff.mpr hc))

end Clock

namespace Moment

theorem comparesOn_utc {clock : Clock} (h : clock.IsUtc) {m : Moment} (hm : m.clock.IsUtc) :
    m.ComparesOn clock :=
  comparesOn_of_since fun n hn => by
    rw [since_utc hm (hn ▸ h), instant_utc hm, instant_utc (hn ▸ h : n.clock.IsUtc)]

theorem isProblematic_utc {m : Moment} (hm : m.clock.IsUtc) : m.isProblematic = false := by
  unfold isProblematic
  rw [offsetWith_utc hm, offsetWith_utc hm]
  rfl

end Moment

/-! ## The date with a number -/

namespace Plain

variable {start : Moment} {f : Frequency} (h : start.clock.IsUtc)

include h

theorem countsFrom_utc : CountsFrom start f where
  ordered _ := (Clock.separatesDays_utc h).isDayOrdered
  keeps _ := Clock.keepsInstants_utc h
  unbroken _ := Clock.isUnbroken_utc h
  shown _ := (Clock.shows_utc_iff h).mpr ⟨start.wall, (Moment.instant_utc h).symm⟩

theorem reaches_utc {now : Moment} (hnow : now.clock.IsUtc) : Reaches start f now := by
  unfold Reaches
  split
  · rw [Moment.since_utc hnow h, Moment.instant_utc h, Clock.shows_utc_iff h]
    exact ⟨now.wall, by omega⟩
  · unfold Moment.on?
    split
    · rfl
    · rw [Moment.instant_utc hnow, WallTime.ofTicks?_ticks, Option.bind_some, ← Moment.on?_universal,
        Moment.on?_utc h]
      rfl

/-- The date with a number is at the point that the number tells. -/
theorem isDate_utc_iff {interval index : Nat} {t : Int} :
    IsDate start f interval index t ↔
      t = point start.wall f interval index ∧ ∃ w : WallTime, w.ticks = t := by
  have hread : ∀ {s : Int}, (∃ w : WallTime, w.ticks = s ∧ t = w.ticks) ↔
      t = s ∧ ∃ w : WallTime, w.ticks = t := by
    intro s
    constructor
    · rintro ⟨w, hw, ht⟩
      exact ⟨ht.trans hw, w, ht.symm⟩
    · rintro ⟨ht, w, hw⟩
      exact ⟨w, hw.trans ht, hw.symm⟩
  unfold IsDate
  cases hunit : f.unit with
  | absolute unit => simp only [point, hunit, Moment.instant_utc h, Clock.shows_utc_iff h]
  | wall unit =>
    simp only [Clock.instant_reading h]
    exact hread
  | months unit =>
    simp only [Clock.instant_reading h]
    exact hread

theorem occurrence_eq_ok_iff {c : Component} (hf : c.freq = some f) {index : Nat} {m : Moment} :
    occurrence start c index = .ok m ↔
      ∃ t : WallTime, t.ticks = point start.wall f c.interval index ∧ m = start.clock.reading t := by
  rw [occurrence_onClock h hf]
  rcases isAt_occurrence start.wall hf index with ⟨t, ht, hok⟩ | ⟨hend, e, -, herror⟩
  · rw [hok]
    constructor
    · intro hm
      cases hm
      exact ⟨t, ht, rfl⟩
    · rintro ⟨w, hw, rfl⟩
      rw [WallTime.ext (hw.trans ht.symm)]
      rfl
  · rw [herror]
    constructor
    · intro hm
      cases hm
    · rintro ⟨w, hw, -⟩
      have := w.inCalendar
      unfold WallTime.calendarEnd at hend
      omega

end Plain

/-! ## Lists of dates -/

/-- A list of the dates of a component, each at its number. -/
def Component.Lists (c : Component) (start : Moment) (dates : List Moment) : Prop :=
  ∀ index m, dates[index]? = some m ↔ c.Gives start index m

/-- Excluded dates that are told by their instants: none of them is skipped or repeated, none comes
right after a change of its clock, and they come one before the other as their instants do. -/
structure Descriptor.ExcludesClearly (d : Descriptor) : Prop where
  settled : ∀ e ∈ d.excluded, e.isProblematic = false
  exists_before : ∀ e ∈ d.excluded, 0 < e.instant →
    ∃ b, e.add? (-1) = some b ∧ b.instant = e.instant - 1
  ordered : ∀ e ∈ d.excluded, ∀ e' ∈ d.excluded, Descriptor.InOrder e e'

/-- Excluded dates in universal time are told by their instants. -/
theorem Descriptor.excludesClearly_of_utc {d : Descriptor} (h : ∀ e ∈ d.excluded, e.clock.IsUtc) :
    d.ExcludesClearly where
  settled e he := Moment.isProblematic_utc (h e he)
  exists_before e he hpos := by
    rw [Moment.instant_utc (h e he)] at hpos
    obtain ⟨t, ht, hticks⟩ := WallTime.ofTicks?_isSome (n := e.wall.ticks + -1) (by omega)
      (by have := e.wall.inCalendar; omega)
    refine ⟨⟨t, e.clock, false⟩, ?_, ?_⟩
    · show (WallTime.ofTicks? (e.wall.ticks + -1)).map _ = _
      rw [ht]
      rfl
    · rw [Moment.instant_utc (m := ⟨t, e.clock, false⟩) (h e he), Moment.instant_utc (h e he), hticks]
      rfl
  ordered e he e' he' := by
    unfold InOrder
    rw [Moment.before_utc (h e he) (h e' he'), decide_eq_true_iff, Moment.instant_utc (h e he),
      Moment.instant_utc (h e' he')]

namespace Source

open Plain

variable {d : Descriptor} {c : Component} {f : Frequency} {dates : List Moment}

section

variable (hutc : d.start.clock.IsUtc)
  (hforeign : ∀ e ∈ d.excluded, e.clock.same d.start.clock = false ∨ e.clock.IsUtc)
  (hexcluded : d.ExcludesClearly)

include hutc hforeign hexcluded

/-- Excluded dates agree with the moments of a clock that shows universal time. -/
theorem excluded_agrees {e : Moment} (he : e ∈ d.excluded) {m : Moment}
    (hm : m.clock = d.start.clock) : e.Agrees m := by
  have hcompares : e.ComparesOn m.clock := by
    rw [hm]
    exact (hforeign e he).elim Moment.comparesOn_of_not_same (Moment.comparesOn_utc hutc)
  exact hcompares.agrees fun _ =>
    .inr ⟨hexcluded.settled e he, Moment.isProblematic_utc (hm ▸ hutc)⟩

end

section

variable (hutc : d.start.clock.IsUtc) (hf : c.freq = some f) (hinterval : 0 < c.interval)
  (hspan : HasSpan f c.interval)

include hutc hf hinterval hspan

/-- The search from the last instant before a date leads to its number. -/
theorem firstIndexAfter_utc {b : Moment} (hcompares : b.ComparesOn d.start.clock)
    (hreaches : Reaches d.start f b) {index : Nat} {t : WallTime}
    (ht : t.ticks = point d.start.wall f c.interval index) (hb : b.instant = t.ticks - 1) :
    firstIndexAfter d.start c b = .ok index := by
  obtain ⟨first, hfirst, hsearch⟩ := firstIndexAfter_of_comparesOn (countsFrom_utc hutc) hf
    hinterval hcompares hspan hreaches
  have hdate : IsDate d.start f c.interval index t.ticks := (isDate_utc_iff hutc).mpr ⟨ht, t, rfl⟩
  have hle : first ≤ index := by
    by_contra hlt
    obtain ⟨s, hs, hle⟩ := (hfirst index).mp (not_le.mp hlt)
    rw [hs.unique hdate] at hle
    omega
  have hge : index ≤ first := by
    by_contra hlt
    obtain ⟨s, hs⟩ := exists_isDate_of_le (countsFrom_utc hutc) hinterval hdate (not_le.mp hlt).le
    have hless := point_strictMono d.start.wall f hinterval (not_le.mp hlt)
    have hpoint := ((isDate_utc_iff hutc).mp hs).1
    exact lt_irrefl first ((hfirst first).mpr ⟨s, hs, by omega⟩)
  obtain rfl : first = index := le_antisymm hle hge
  rcases hsearch with ⟨-, hfound⟩ | ⟨hnone, -⟩
  · exact hfound
  · exact absurd hdate (hnone _)

variable (hforeign : ∀ e ∈ d.excluded, e.clock.same d.start.clock = false ∨ e.clock.IsUtc)
  (hexcluded : d.ExcludesClearly)

include hforeign hexcluded

/-- The number of a date is excluded if an excluded date has its instant. -/
theorem mem_excludedIndices_utc {index : Nat} {m : Moment} (hm : c.Gives d.start index m)
    (hpos : 0 < m.instant) :
    index ∈ excludedIndices d c ↔ ¬ m.isKept d.excluded = true := by
  obtain ⟨t, ht, rfl⟩ := (occurrence_eq_ok_iff hutc hf).mp hm.isOccurrence
  have hinstant := Clock.instant_reading hutc t
  have hagrees : ∀ e ∈ d.excluded, e.Agrees (d.start.clock.reading t) :=
    fun e he => excluded_agrees hutc hforeign hexcluded he rfl
  rw [mem_excludedIndices_iff, Moment.isKept_iff]
  push Not
  constructor
  · rintro ⟨e, he, -, hindex⟩
    obtain ⟨b, o, -, -, ho, hsame⟩ := exists_of_excludedIndex hindex
    obtain rfl : o = d.start.clock.reading t := Except.ok.inj (ho.symm.trans hm.isOccurrence)
    exact ⟨e, he, (hagrees e he).same.mp (by rwa [Moment.same_comm])⟩
  · rintro ⟨e, he, heq⟩
    obtain ⟨b, hb, hbefore⟩ := hexcluded.exists_before e he (by omega)
    have hclock : b.clock = e.clock := by
      obtain ⟨w, -, rfl⟩ := Option.map_eq_some_iff.mp hb
      rfl
    have hshown : d.start.clock.Shows b.instant := by
      obtain ⟨w, -, hw⟩ := WallTime.ofTicks?_isSome (n := b.instant) (by omega)
        (by have := t.inCalendar; omega)
      exact (Clock.shows_utc_iff hutc).mpr ⟨w, hw⟩
    have hfound : firstIndexAfter d.start c b = .ok index := by
      rcases hforeign e he with hother | hother <;> rw [← hclock] at hother
      · exact firstIndexAfter_utc hutc hf hinterval hspan (Moment.comparesOn_of_not_same hother)
          ((measuresAsInstant_of_foreign (.inl hother)).reaches hshown) ht (by omega)
      · exact firstIndexAfter_utc hutc hf hinterval hspan (Moment.comparesOn_utc hutc hother)
          (reaches_utc hutc hother) ht (by omega)
    refine ⟨e, he, fun hlt => ?_, ?_⟩
    · -- no date comes before the start
      have hlt := (excluded_agrees hutc hforeign hexcluded he (m := d.start) rfl).before.mp hlt
      have hstart := start_le_point d.start.wall f hinterval index
      rw [Moment.instant_utc hutc] at hlt
      omega
    · rw [excludedIndex_eq hb hfound hm.isOccurrence, if_pos]
      rw [Moment.same_comm]
      exact (hagrees e he).same.mpr heq

/-- The further dates of a plain rule are those of the list that are after the moment and have no
excluded instant. -/
theorem plainNth_of_lists (hlists : c.Lists d.start dates) (now : WallTime) (k : Nat) :
    orNone (plainNth d c (Moment.universal now) k) =
      .ok ((dates.filter (·.isKept d.excluded)).filter (Moment.universal now).before)[k]? := by
  have hnow : d.start.clock.Shows now.ticks := (Clock.shows_utc_iff hutc).mpr ⟨now, rfl⟩
  obtain ⟨first, hfirst, hsearch⟩ := firstIndexAfter_on_clock (countsFrom_utc hutc) hf hinterval hspan
    hnow
  -- the dates after the moment are those from the first number on
  have hafter : ∀ i m, dates[i]? = some m →
      ((Moment.universal now).before m = true ↔ first ≤ i) := by
    intro i m hm
    obtain ⟨t, ht, rfl⟩ := (occurrence_eq_ok_iff hutc hf).mp ((hlists i m).mp hm).isOccurrence
    rw [Moment.before_eq (.inl rfl), decide_eq_true_iff, Clock.instant_reading hutc,
      Moment.instant_universal, ← not_lt (a := i), hfirst i]
    refine ⟨fun hlt ⟨s, hs, hle⟩ => ?_, fun hnone => ?_⟩
    · rw [((isDate_utc_iff hutc).mp hs).1] at hle
      omega
    · by_contra hle
      exact hnone ⟨t.ticks, (isDate_utc_iff hutc).mpr ⟨ht, t, rfl⟩, not_lt.mp hle⟩
  rw [List.filter_comm, filter_eq_drop fun i hi => hafter i _ (List.getElem?_eq_getElem hi)]
  rcases hsearch with ⟨-, hfound⟩ | ⟨hnone, e, he, herror⟩
  · have hgives : ∀ i < dates.length, c.Gives d.start i (dates.getD i d.start) := by
      intro i hi
      rw [← hlists, List.getElem?_eq_getElem hi, List.getD_eq_getElem _ _ hi]
    have hlast : ∀ i m, c.Gives d.start i m → i < dates.length := fun i m hm =>
      (List.getElem?_eq_some_iff.mp ((hlists i m).mpr hm)).1
    have hdrop : (List.range' first (dates.length - first)).map (dates.getD · d.start) =
        dates.drop first := by
      refine List.ext_getElem (by simp) fun i hi hi' => ?_
      rw [List.length_map, List.length_range'] at hi
      rw [List.getElem_map, List.getElem_range', List.getElem_drop, List.getD_eq_getElem _ _ (by omega)]
      simp
    rw [plainNth_eq_getElem? hfound hgives hlast, ← hdrop, List.filter_map]
    refine congrArg (fun indices : List Nat => Except.ok (indices.map (dates.getD · d.start))[k]?)
      (List.filter_congr fun i hi => ?_)
    obtain ⟨hle, hlt⟩ := List.mem_range'_1.mp hi
    have hm := hgives i (by omega)
    have hbefore := hafter i _ ((hlists i _).mpr hm)
    have hpos : 0 < (dates.getD i d.start).instant := by
      have hlater := hbefore.mpr hle
      have hnonneg := now.nonneg
      rw [Moment.before_eq (.inl rfl), decide_eq_true_iff, Moment.instant_universal] at hlater
      omega
    rw [Bool.eq_iff_iff, decide_eq_true_iff,
      mem_excludedIndices_utc hutc hf hinterval hspan hforeign hexcluded hm hpos, not_not]
    rfl
  · -- no number is left, so no date is after the moment
    have hlength : dates.length ≤ first := by
      by_contra hlt
      have hm := (hlists first _).mp (List.getElem?_eq_getElem (not_le.mp hlt))
      exact hnone _ (isDate_of_occurrence (countsFrom_utc hutc) hf hm.isOccurrence)
    unfold plainNth
    rw [herror, List.drop_eq_nil_of_le hlength]
    exact orNone_error he

end

end Source

end ScanPolicy
