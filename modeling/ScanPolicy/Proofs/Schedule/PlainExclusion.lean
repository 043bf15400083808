import ScanPolicy.Proofs.Recurrence.Excluding
import ScanPolicy.Proofs.Schedule.PlainOrder
import ScanPolicy.Proofs.Schedule.SameInstant

/-!
# The excluded dates of a plain rule

An excluded date of a plain rule removes a number: the first one of which the date is after the
moment just before the excluded date, if that date is the same as the excluded one. Where
this search comes out at the instant of the excluded date, the rule has all its dates but
those with one of the excluded instants.

- `Plain.IsSearchable`: what an excluded date needs for the search;
  `Plain.isSearchable_of_foreign`: excluded dates of other clocks.
- `Plain.firstIndexAfter_of_gives`: the search just before a date.
- `Plain.mem_excludedIndices_of_gives`: the numbers that are removed.
- `Source.plainNth_excluding`: the further dates with and without excluded dates.
-/

namespace ScanPolicy

/-- A schedule without its excluded dates. -/
def Descriptor.withoutExcluded (d : Descriptor) : Descriptor := { d with excluded := [] }

namespace Plain

/-- Whether the search for the number of an excluded date keeps to its instant: it is not before the
start, and just before it there is a moment that is as far before it in universal time, compares with
the dates as its instant does, and lets the estimate keep to the calendar. -/
structure IsSearchable (start : Moment) (c : Component) (e : Moment) : Prop where
  notBefore : ¬ e.before start
  exists_before : ∃ b, e.add? (-1) = some b ∧ b.instant = e.instant - 1 ∧
    b.ComparesOn start.clock ∧ ∀ f ∈ c.freq, Reaches start f b

/-- The search for a moment of another clock or of the universal one keeps to its instant, if that clock
is not changed just before it. -/
theorem isSearchable_of_foreign {start e b : Moment} {c : Component}
    (hforeign : e.clock.same start.clock = false ∨ e.clock = .universal)
    (hb : e.add? (-1) = some b) (hinstant : b.instant = e.instant - 1)
    (hstart : start.instant ≤ e.instant) (hshown : start.clock.Shows b.instant) :
    IsSearchable start c e := by
  have hclock : b.clock = e.clock := by
    obtain ⟨t, -, rfl⟩ := Option.map_eq_some_iff.mp hb
    rfl
  have hcompares : ∀ {m : Moment}, m.clock.same start.clock = false ∨ m.clock = .universal →
      m.ComparesOn start.clock := fun h =>
    h.elim Moment.comparesOn_of_not_same Moment.comparesOn_of_universal
  refine ⟨fun hbefore => ?_, b, hb, hinstant, hcompares (hclock.symm ▸ hforeign), fun f _ => ?_⟩
  · exact not_lt.mpr hstart ((hcompares hforeign start rfl).1.mp hbefore)
  · exact (measuresAsInstant_of_foreign (hclock.symm ▸ hforeign)).reaches hshown

/-! ## Numbers -/

variable {d : Descriptor} {c : Component} {index : Nat} {m : Moment}

/-- What the dates of a component need to be told apart by their instants. -/
structure TellsApart (start : Moment) (c : Component) : Prop where
  keeps : c.KeepsOrder start
  separates : ∀ f ∈ c.freq, ¬ f.isSubDaily → start.clock.SeparatesDays
  interval : 0 < c.interval
  once : c.freq = none → c = Component.once

section

variable {start : Moment} (h : TellsApart start c) (hm : c.Gives start index m)

include h hm

/-- The search just before a date leads to its number. -/
theorem firstIndexAfter_of_gives (hspan : ∀ f ∈ c.freq, HasSpan f c.interval) {b : Moment}
    (hb : b.instant = m.instant - 1) (hcompares : b.ComparesOn start.clock)
    (hreach : ∀ f ∈ c.freq, Reaches start f b) : firstIndexAfter start c b = .ok index := by
  cases hf : c.freq with
  | none =>
    -- the only date is the start
    have hcount := hm.inCount 1 (by rw [h.once hf]; rfl)
    have hstart := hm.isOccurrence
    unfold occurrence at hstart
    rw [hf] at hstart
    cases hstart
    unfold firstIndexAfter
    rw [hf]
    dsimp only
    rw [if_pos ((hcompares m rfl).1.mpr (by omega)), show index = 0 by omega]
  | some f =>
    have hcounts := h.keeps.counts f hf
    have hdate := isDate_of_occurrence hcounts hf hm.isOccurrence
    obtain ⟨first, hfirst, hsearch⟩ := firstIndexAfter_of_comparesOn hcounts hf h.interval
      hcompares (hspan f hf) (hreach f hf)
    -- the dates with smaller numbers are at the moment or before it, this one is after it
    have hsmaller : index ≤ first := by
      by_contra hlt
      obtain ⟨n, hn, -⟩ := hm.of_le h.keeps h.interval (not_le.mp hlt).le
      have hlt' := hn.lt hm hf hcounts h.interval (h.separates f hf) (not_le.mp hlt)
      exact lt_irrefl first ((hfirst first).mpr
        ⟨_, isDate_of_occurrence hcounts hf hn.isOccurrence, by omega⟩)
    have hlarger : first ≤ index := by
      by_contra hlt
      obtain ⟨t, ht, hle⟩ := (hfirst index).mp (not_le.mp hlt)
      rw [ht.unique hdate] at hle
      omega
    obtain rfl : first = index := le_antisymm hlarger hsmaller
    rcases hsearch with ⟨-, hfound⟩ | ⟨hnone, -⟩
    · exact hfound
    · exact absurd hdate (hnone _)

/-- A number is removed if its date has the instant of an excluded date. -/
theorem mem_excludedIndices_of_gives (hstart : d.start = start)
    (hspan : ∀ f ∈ c.freq, HasSpan f c.interval)
    (hsame : ∀ e ∈ d.excluded, e.same m = true ↔ e.instant = m.instant)
    (hsearchable : ∀ e ∈ d.excluded, e.instant = m.instant → IsSearchable start c e) :
    index ∈ excludedIndices d c ↔ ¬ m.isKept d.excluded = true := by
  rw [mem_excludedIndices_iff, Moment.isKept_iff, hstart]
  push Not
  constructor
  · rintro ⟨e, he, -, hindex⟩
    obtain ⟨b, o, -, -, ho, hsame'⟩ := exists_of_excludedIndex hindex
    obtain rfl : o = m := Except.ok.inj (ho.symm.trans hm.isOccurrence)
    exact ⟨e, he, (hsame e he).mp (by rwa [Moment.same_comm])⟩
  · rintro ⟨e, he, heq⟩
    obtain ⟨hnotBefore, b, hb, hinstant, hcompares, hreach⟩ := hsearchable e he heq
    refine ⟨e, he, hnotBefore, ?_⟩
    rw [excludedIndex_eq hb (firstIndexAfter_of_gives h hm hspan (by omega) hcompares hreach)
      hm.isOccurrence, if_pos]
    rw [Moment.same_comm]
    exact (hsame e he).mpr heq

end

/-- The numbers for which a component gives a moment are the first ones. -/
theorem TellsApart.exists_length {start : Moment} (h : TellsApart start c) :
    ∃ n, ∀ i, i < n ↔ ∃ m, c.Gives start i m := by
  have hlate : ∃ late, ¬ ∃ m, c.Gives start late m := by
    cases hf : c.freq with
    | none =>
      refine ⟨1, fun ⟨m, hm⟩ => ?_⟩
      exact lt_irrefl 1 (hm.inCount 1 (by rw [h.once hf]; rfl))
    | some f =>
      have hcounts := h.keeps.counts f hf
      refine ⟨1440 * Calendar.dayCount, fun ⟨m, hm⟩ => ?_⟩
      exact not_isDate_of_late hcounts h.interval le_rfl _
        (isDate_of_occurrence hcounts hf hm.isOccurrence)
  have hsmaller : ∀ i j, i ≤ j → (∃ m, c.Gives start j m) → ∃ m, c.Gives start i m := by
    rintro i j hij ⟨m, hm⟩
    obtain ⟨n, hn, -⟩ := hm.of_le h.keeps h.interval hij
    exact ⟨n, hn⟩
  obtain ⟨late, hlate⟩ := hlate
  obtain ⟨n, -, hn⟩ := exists_lt_iff hsmaller hlate
  exact ⟨n, hn⟩

end Plain

/-! ## The further dates -/

namespace Source

open Plain

variable {d : Descriptor} {c : Component} {now : Moment}

/-- The further dates of a plain rule are those of its numbers that are not removed. -/
theorem plainNth_eq_getElem? {first n : Nat} (hfirst : firstIndexAfter d.start c now = .ok first)
    {date : Nat → Moment} (hgives : ∀ i < n, c.Gives d.start i (date i))
    (hlast : ∀ i m, c.Gives d.start i m → i < n) (k : Nat) :
    orNone (plainNth d c now k) = .ok (((List.range' first (n - first)).filter
      (· ∉ excludedIndices d c)).map date)[k]? := by
  rw [List.getElem?_map, (advance_spec (excludedIndices_pairwise d c) first k).getElem? n]
  split
  · next hlt =>
    rw [plainNth_of_gives hfirst (hgives _ hlt)]
    rfl
  · next hge => exact plainNth_of_not_gives hfirst fun m hm => hge (hlast _ m hm)

/-- A plain rule with excluded dates has the further dates that it has without them, but for those
with one of their instants. -/
theorem plainNth_excluding (h : TellsApart d.start c) (hnow : now.ComparesOn d.start.clock)
    (hsame : ∀ e ∈ d.excluded, ∀ index m, occurrence d.start c index = .ok m →
      (e.same m = true ↔ e.instant = m.instant))
    (hsearchable : ∀ e ∈ d.excluded, ∀ index m, occurrence d.start c index = .ok m →
      e.instant = m.instant → IsSearchable d.start c e) :
    ∃ dates : List Moment, ∀ k,
      orNone (plainNth d.withoutExcluded c now k) = .ok dates[k]? ∧
        orNone (plainNth d c now k) = .ok (dates.filter (·.isKept d.excluded))[k]? := by
  cases hfirst : firstIndexAfter d.start c now with
  | error e =>
    have hnone : ∀ excluded k, orNone (plainNth { d with excluded } c now k) = .ok none := by
      intro excluded k
      unfold plainNth
      rw [hfirst]
      exact orNone_error (firstIndexAfter_failsOnly d.start c now e hfirst)
    exact ⟨[], fun k => ⟨hnone [] k, hnone d.excluded k⟩⟩
  | ok first =>
    obtain ⟨n, hn⟩ := h.exists_length
    have : Nonempty Moment := ⟨now⟩
    choose! date hgives using fun i => (hn i).mp
    have hlast : ∀ i m, c.Gives d.start i m → i < n := fun i m hm => (hn i).mpr ⟨m, hm⟩
    refine ⟨(List.range' first (n - first)).map date, fun k => ⟨?_, ?_⟩⟩
    · rw [plainNth_eq_getElem? (d := d.withoutExcluded) hfirst hgives hlast k]
      show Except.ok (((List.range' first (n - first)).filter (· ∉ [])).map date)[k]? = _
      simp
    · have hspan : ∀ f ∈ c.freq, HasSpan f c.interval := fun f hf =>
        (firstIndexAfter_ok hf hnow hfirst).1
      have hkept : ∀ i ∈ List.range' first (n - first),
          decide (i ∉ excludedIndices d c) = (date i).isKept d.excluded := by
        intro i hi
        obtain ⟨hle, hlt⟩ := List.mem_range'_1.mp hi
        have hm := hgives i (by omega)
        rw [Bool.eq_iff_iff, decide_eq_true_iff, mem_excludedIndices_of_gives h hm rfl hspan
          (fun e he => hsame e he i _ hm.isOccurrence)
          (fun e he => hsearchable e he i _ hm.isOccurrence), not_not]
      rw [plainNth_eq_getElem? hfirst hgives hlast k, List.filter_map, List.filter_congr hkept]
      rfl

end Source

end ScanPolicy
