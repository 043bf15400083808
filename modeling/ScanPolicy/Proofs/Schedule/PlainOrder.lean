import ScanPolicy.Proofs.Schedule.ClockNext
import ScanPolicy.Proofs.Schedule.Parsed
import ScanPolicy.Proofs.Zone.Calm

/-!
# The order of the dates of a plain rule

The dates that a plain rule gives are numbered. A larger number has a later date, the count
and the last moment let a number through if they let a larger one through, and a later
moment is passed by a larger number.

- `Component.KeepsOrder`: what this needs of the clock and of the last moment.
- `Component.Gives.of_le`, `Component.Gives.lt`: a larger number has a later date.
- `Plain.advance_le`, `Plain.advance_lt`, `Source.firstIndexAfter_mono`: the numbers.
- `Source.plainNth_of_later`, `Source.plainNth_of_further`: the first dates after two moments,
  and two further dates after one moment.
- `Source.now_lt_of_plainNth`: a date after a moment is after its instant.
-/

namespace ScanPolicy

/-- What is after the earlier one of two moments of one clock is after both, if they are in one order
on the wall and by their instants. -/
theorem Moment.before_of_le {u m n : Moment} (hclock : m.clock = n.clock)
    (hwall : m.wall.ticks ≤ n.wall.ticks) (hinstant : m.instant ≤ n.instant) (h : u.before m) :
    u.before n := by
  unfold before since at h ⊢
  rw [hclock, decide_eq_true_iff] at h
  rw [decide_eq_true_iff]
  by_cases hsame : u.clock.same n.clock
  · rw [if_pos hsame] at h ⊢
    omega
  · rw [if_neg hsame] at h ⊢
    omega

/-! ## Numbers -/

namespace Plain

variable {start : Moment} {c : Component} {f : Frequency}

/-- The number after those that are left out is not smaller for a larger start. -/
theorem advance_le {excluded : List Nat} (hsorted : excluded.Pairwise (· < ·)) {i j : Nat}
    (hij : i ≤ j) : advance i 0 excluded ≤ advance j 0 excluded := by
  have hi := advance_spec hsorted i 0
  have hj := advance_spec hsorted j 0
  by_contra hlt
  -- all numbers from `i` up to the one reached are left out, and so would be the other one
  have hmem : advance j 0 excluded ∈
      (Finset.Ico i (advance i 0 excluded)).filter (· ∉ excluded) := by
    simp only [Finset.mem_filter, Finset.mem_Ico]
    exact ⟨⟨hij.trans hj.le, not_le.mp hlt⟩, hj.notMem⟩
  rw [Finset.card_eq_zero.mp hi.count] at hmem
  exact absurd hmem (Finset.notMem_empty _)

/-- More steps lead to a larger number. -/
theorem advance_lt {excluded : List Nat} (hsorted : excluded.Pairwise (· < ·)) (i : Nat) {k l : Nat}
    (hkl : k < l) : advance i k excluded < advance i l excluded := by
  have hk := advance_spec hsorted i k
  have hl := advance_spec hsorted i l
  by_contra hle
  have hsub : Finset.Ico i (advance i l excluded) ⊆ Finset.Ico i (advance i k excluded) :=
    Finset.Ico_subset_Ico_right (not_lt.mp hle)
  have hcard := Finset.card_le_card (Finset.filter_subset_filter (· ∉ excluded) hsub)
  rw [hk.count, hl.count] at hcard
  omega

theorem ascend_ok {now : Moment} {fuel n i : Nat} (h : ascend start c now fuel n = .ok i) :
    ∃ o, occurrence start c i = .ok o ∧ ¬ o.notAfter now := by
  induction fuel generalizing n with
  | zero => cases h
  | succ fuel ih =>
    unfold ascend at h
    split at h
    · cases h
    · next o ho =>
      split at h
      · exact ih h
      · next hafter =>
        cases h
        exact ⟨o, ho, hafter⟩

/-- The first number after a moment has an occurrence after it, and the period is a span. -/
theorem firstIndexAfter_ok (hf : c.freq = some f) {now : Moment}
    (hcompares : now.ComparesOn start.clock) {first : Nat}
    (h : firstIndexAfter start c now = .ok first) :
    HasSpan f c.interval ∧ ∃ o, occurrence start c first = .ok o ∧ now.instant < o.instant := by
  unfold firstIndexAfter at h
  rw [hf] at h
  obtain ⟨elapsed, helapsed, h⟩ := bind_eq_ok_iff.mp h
  obtain ⟨index, -, h⟩ := bind_eq_ok_iff.mp h
  obtain ⟨o, ho, hafter⟩ := ascend_ok h
  rw [hcompares.notAfter_iff (clock_of_occurrence ho), not_le] at hafter
  refine ⟨?_, o, ho, hafter⟩
  unfold elapsedPeriods at helapsed
  unfold HasSpan
  cases hunit : f.unit with
  | absolute unit =>
    rw [hunit] at helapsed
    obtain ⟨period, hperiod, -⟩ := bind_eq_ok_iff.mp helapsed
    exact Option.isSome_iff_exists.mpr ⟨_, some_of_within hperiod⟩
  | wall unit =>
    rw [hunit] at helapsed
    obtain ⟨here, -, helapsed⟩ := bind_eq_ok_iff.mp helapsed
    obtain ⟨period, hperiod, -⟩ := bind_eq_ok_iff.mp helapsed
    exact Option.isSome_iff_exists.mpr ⟨_, some_of_within hperiod⟩
  | months unit => trivial

end Plain

/-! ## Dates -/

/-- What the dates of a plain component need to be in the order of their numbers: its frequency
counts on the clock of the start, and minutes and hours have a last moment in universal time. -/
structure Component.KeepsOrder (c : Component) (start : Moment) : Prop where
  counts : ∀ f ∈ c.freq, Plain.CountsFrom start f
  bound : ∀ f ∈ c.freq, f.isSubDaily → ∀ u ∈ c.bound, u.clock = .universal

/-- The clock of a calm zone counts every frequency from a start that it shows. -/
theorem Component.KeepsOrder.of_isCalm {c : Component} {start : Moment} {low : Int} {z : Zone}
    (hcalm : z.IsCalm low) (hclock : start.clock = .zoned z)
    (hshown : (Clock.zoned z).Shows start.instant) (hbound : ∀ u ∈ c.bound, u.clock = .universal) :
    c.KeepsOrder start := by
  refine ⟨fun f _ => ?_, fun _ _ _ => hbound⟩
  refine ⟨fun _ => ?_, fun _ => ?_, fun _ => ?_, fun _ => ?_⟩ <;> rw [hclock]
  · exact hcalm.separatesDays.isDayOrdered
  · exact hcalm.keepsInstants
  · exact hcalm.isUnbroken
  · exact hshown

namespace Component.Gives

open Plain

variable {start : Moment} {c : Component} {i j : Nat} {n : Moment}

/-- A component that gives a moment for a number gives one for every smaller number, and this one is
not later. -/
theorem of_le (h : c.Gives start j n) (hkeeps : c.KeepsOrder start) (hinterval : 0 < c.interval)
    (hij : i ≤ j) : ∃ m, c.Gives start i m ∧ m.instant ≤ n.instant := by
  have hcount : ∀ k ∈ c.count, i < k := fun k hk => lt_of_le_of_lt hij (h.inCount k hk)
  cases hf : c.freq with
  | none =>
    have hsame : ∀ k, occurrence start c k = .ok start := fun k => by
      unfold occurrence
      rw [hf]
    obtain rfl : start = n := Except.ok.inj ((hsame j).symm.trans h.isOccurrence)
    exact ⟨start, ⟨hcount, hsame i, h.inBound⟩, le_rfl⟩
  | some f =>
    have hcounts := hkeeps.counts f hf
    have hdate := isDate_of_occurrence hcounts hf h.isOccurrence
    obtain ⟨s, hs⟩ := exists_isDate_of_le hcounts hinterval hdate hij
    have hle := hs.le hcounts hinterval hdate hij
    obtain ⟨m, hm, -, rfl⟩ := hs.exists_occurrence hcounts hf
    refine ⟨m, ⟨hcount, hm, fun u hu hbefore => h.inBound u hu ?_⟩, hle⟩
    by_cases hsub : f.isSubDaily
    · have hclock := hkeeps.bound f hf hsub u hu
      rw [Moment.before_eq (.inl hclock), decide_eq_true_iff] at hbefore ⊢
      omega
    · -- days and longer periods are in order on the wall too
      obtain ⟨v, hv, rfl⟩ := reading_of_occurrence hf hsub hm
      obtain ⟨w, hw, rfl⟩ := reading_of_occurrence hf hsub h.isOccurrence
      refine Moment.before_of_le (m := start.clock.reading v) rfl ?_ hle hbefore
      have hmono := point_mono start.wall f hinterval hij
      rw [← hv, ← hw] at hmono
      exact hmono

/-- A smaller number has an earlier date, if the clock separates the days. -/
theorem lt {m : Moment} {f : Frequency} (hm : c.Gives start i m) (hn : c.Gives start j n)
    (hf : c.freq = some f) (hcounts : CountsFrom start f) (hinterval : 0 < c.interval)
    (hseparates : ¬ f.isSubDaily → start.clock.SeparatesDays) (hij : i < j) :
    m.instant < n.instant := by
  by_cases hsub : f.isSubDaily
  · obtain ⟨unit, hunit⟩ := exists_absolute hsub
    obtain ⟨u, hu, -⟩ := hcounts.shown hsub
    have hpoint : ∀ {k : Nat} {o : Moment}, c.Gives start k o →
        o.instant = point u f c.interval k := by
      intro k o h
      exact ((isDate_iff_point hunit hu).mp (isDate_of_occurrence hcounts hf h.isOccurrence)).1
    rw [hpoint hm, hpoint hn]
    exact point_strictMono u f hinterval hij
  · obtain ⟨v, hv, rfl⟩ := reading_of_occurrence hf hsub hm.isOccurrence
    obtain ⟨w, hw, rfl⟩ := reading_of_occurrence hf hsub hn.isOccurrence
    refine hseparates hsub v w ?_
    rw [hv, hw]
    exact point_add_day hsub hinterval hij

end Component.Gives

/-! ## Searches -/

namespace Source

open Plain

variable {d : Descriptor} {c : Component}

/-- The answer of a plain rule is what the component gives for the number reached. -/
theorem gives_of_plainNth {now m : Moment} {k : Nat} (h : orNone (plainNth d c now k) = .ok (some m)) :
    ∃ first, firstIndexAfter d.start c now = .ok first ∧
      c.Gives d.start (advance first k (excludedIndices d c)) m := by
  have h := orNone_eq_some h
  cases hfirst : firstIndexAfter d.start c now with
  | error e =>
    unfold plainNth at h
    rw [hfirst] at h
    cases h
  | ok first =>
    rw [plainNth_eq hfirst] at h
    split at h
    · cases h
    · next hcount =>
      obtain ⟨o, ho, h⟩ := bind_eq_ok_iff.mp h
      split at h
      · cases h
      · next hbound =>
        cases h
        refine ⟨first, rfl, fun n hn => ?_, ho, fun u hu hbefore => hbound ?_⟩
        · rw [Option.mem_def.mp hn] at hcount
          simpa using hcount
        · rw [Option.mem_def.mp hu]
          exact hbefore

variable (hkeeps : c.KeepsOrder d.start) (hinterval : 0 < c.interval)

include hkeeps hinterval

/-- An earlier moment is passed by a smaller number. -/
theorem firstIndexAfter_mono {now later : WallTime} (hle : now.ticks ≤ later.ticks)
    (hnow : d.start.clock.Shows now.ticks) {j : Nat}
    (h : firstIndexAfter d.start c (Moment.universal later) = .ok j) :
    ∃ i ≤ j, firstIndexAfter d.start c (Moment.universal now) = .ok i := by
  cases hf : c.freq with
  | none =>
    unfold firstIndexAfter at h ⊢
    rw [hf] at h ⊢
    dsimp only at h ⊢
    rw [Moment.before_eq (.inl rfl), Moment.instant_universal] at h ⊢
    cases h
    refine ⟨_, ?_, rfl⟩
    by_cases hlater : later.ticks < d.start.instant
    · rw [if_pos (decide_eq_true (lt_of_le_of_lt hle hlater)), if_pos (decide_eq_true hlater)]
    · rw [if_neg (show ¬ decide (later.ticks < d.start.instant) = true by simpa using hlater)]
      split <;> decide
  | some f =>
    obtain ⟨hspan, o, ho, hafter⟩ := firstIndexAfter_ok hf (Moment.comparesOn_of_universal rfl) h
    rw [Moment.instant_universal] at hafter
    have hcounts := hkeeps.counts f hf
    obtain ⟨i, hi, hsearch⟩ := firstIndexAfter_on_clock hcounts hf hinterval hspan hnow
    have hdate := isDate_of_occurrence hcounts hf ho
    have hij : i ≤ j := by
      by_contra hlt
      obtain ⟨t, ht, hnot⟩ := (hi j).mp (not_le.mp hlt)
      rw [ht.unique hdate] at hnot
      omega
    rcases hsearch with ⟨-, hfound⟩ | ⟨hnone, -⟩
    · exact ⟨i, hij, hfound⟩
    · -- the search for the earlier moment cannot break off before a number with a date
      obtain ⟨s, hs⟩ := exists_isDate_of_le hcounts hinterval hdate hij
      exact absurd hs (hnone s)

/-- If a plain rule has a date after a moment, it has one after an earlier moment that is not
later. -/
theorem plainNth_of_later {now later : WallTime} (hle : now.ticks ≤ later.ticks)
    (hnow : d.start.clock.Shows now.ticks) {n : Moment}
    (h : orNone (plainNth d c (Moment.universal later) 0) = .ok (some n)) :
    ∃ m, orNone (plainNth d c (Moment.universal now) 0) = .ok (some m) ∧ m.instant ≤ n.instant := by
  obtain ⟨j, hj, hgives⟩ := gives_of_plainNth h
  obtain ⟨i, hij, hi⟩ := firstIndexAfter_mono hkeeps hinterval hle hnow hj
  obtain ⟨m, hm, hinstant⟩ := hgives.of_le hkeeps hinterval
    (advance_le (excludedIndices_pairwise d c) hij)
  refine ⟨m, ?_, hinstant⟩
  rw [plainNth_of_gives hi hm]
  rfl

/-- If a plain rule has a further date after a moment, it has all earlier ones. -/
theorem plainNth_of_further {now : WallTime} {j k : Nat} (hjk : j < k) {n : Moment}
    (honce : c.freq = none → c = Component.once)
    (hseparates : ∀ f ∈ c.freq, ¬ f.isSubDaily → d.start.clock.SeparatesDays)
    (h : orNone (plainNth d c (Moment.universal now) k) = .ok (some n)) :
    ∃ m, orNone (plainNth d c (Moment.universal now) j) = .ok (some m) ∧ m.instant < n.instant := by
  obtain ⟨first, hfirst, hgives⟩ := gives_of_plainNth h
  have hlt := advance_lt (excludedIndices_pairwise d c) first hjk
  obtain ⟨m, hm, -⟩ := hgives.of_le hkeeps hinterval hlt.le
  refine ⟨m, ?_, ?_⟩
  · rw [plainNth_of_gives hfirst hm]
    rfl
  · cases hf : c.freq with
    | none =>
      -- the single date has the number zero
      have hcount := hgives.inCount 1 (by rw [honce hf]; rfl)
      omega
    | some f => exact hm.lt hgives hf (hkeeps.counts f hf) hinterval (hseparates f hf) hlt

omit hkeeps in
/-- The dates of a plain rule after a moment are after it. Where no number is passed over, this needs
nothing of the clock. -/
theorem now_lt_of_plainNth {now : Moment} (hcompares : now.ComparesOn d.start.clock) {k : Nat}
    (hordered : k ≠ 0 ∨ excludedIndices d c ≠ [] → ∀ f ∈ c.freq, KeepsOccurrences d.start f)
    (honce : c.freq = none → c = Component.once) {m : Moment}
    (h : orNone (plainNth d c now k) = .ok (some m)) : now.instant < m.instant := by
  obtain ⟨first, hfirst, hgives⟩ := gives_of_plainNth h
  have hle := (advance_spec (excludedIndices_pairwise d c) first k).le
  cases hf : c.freq with
  | none =>
    have hcount := hgives.inCount 1 (by rw [honce hf]; rfl)
    have hm := hgives.isOccurrence
    unfold firstIndexAfter at hfirst
    unfold occurrence at hm
    rw [hf] at hfirst hm
    cases hm
    dsimp only at hfirst
    split at hfirst
    · next hbefore => exact (hcompares d.start rfl).1.mp hbefore
    · cases hfirst
      omega
  | some f =>
    obtain ⟨-, o, ho, hafter⟩ := firstIndexAfter_ok hf hcompares hfirst
    by_cases hpassed : k ≠ 0 ∨ excludedIndices d c ≠ []
    · exact lt_of_lt_of_le hafter
        (occurrence_le (hordered hpassed f hf) hf hinterval ho hgives.isOccurrence hle)
    · obtain ⟨rfl, hnil⟩ := not_or.mp hpassed |>.imp not_not.mp not_not.mp
      have hm := hgives.isOccurrence
      rw [hnil] at hm
      rw [show advance first 0 [] = first from rfl, ho] at hm
      cases hm
      exact hafter

end Source

end ScanPolicy
