import ScanPolicy.Proofs.Outcome
import ScanPolicy.Proofs.Schedule.Merge
import ScanPolicy.Proofs.Zone.Calm

/-!
# The earliest instant of several sources

A schedule follows the source of which the first date after a moment is the earliest one.
Dates of one clock are compared by what the clock shows: in the hours around a change of
the clock a date may win against one that is earlier in universal time.

- `Descriptor.next_eq_earliest_instant`: among dates that their clocks show in the order
  of their instants the earliest one wins, of equal ones the first.
- `Descriptor.next_not_earliest_instant`: a date of the repeated hour wins against an
  earlier one.
-/

namespace ScanPolicy

namespace Descriptor

/-- If the first dates of the sources are shown by their clocks in the order of their instants, the
next occurrence is that of the source with the earliest instant, of equal ones the first, and this
source gives the further occurrences. -/
theorem next_eq_earliest_instant {d : Descriptor} {now : Moment} {first : Source → Option Moment}
    (hfirst : ∀ s ∈ d.sources, s.nthAfter d now 0 = .ok (first s))
    (hshown : ∀ s ∈ d.sources, ∀ s' ∈ d.sources, ∀ m ∈ first s, ∀ m' ∈ first s',
      m.clock.same m'.clock → (m.wall.ticks < m'.wall.ticks ↔ m.instant < m'.instant)) :
    ((∀ s ∈ d.sources, first s = none) ∧ ∀ k : Nat, d.next now k = .ok none) ∨
      ∃ front s back m, d.sources = front ++ s :: back ∧ first s = some m ∧
        (∀ s' ∈ front, ∀ m' ∈ first s', m.instant < m'.instant) ∧
        (∀ s' ∈ back, ∀ m' ∈ first s', m.instant ≤ m'.instant) ∧
        d.next now 0 = some <$> within m.universal? ∧
        ∀ k : Nat, d.next now k = s.nthAfter d now k >>= answer := by
  have horder : ∀ s ∈ d.sources, ∀ s' ∈ d.sources, ∀ m ∈ first s, ∀ m' ∈ first s', InOrder m m' := by
    intro s hs s' hs' m hm m' hm'
    unfold InOrder Moment.before Moment.since
    rw [decide_eq_true_iff]
    split
    · next hsame =>
      rw [← hshown s hs s' hs' m hm m' hm' hsame]
      omega
    · omega
  rcases next_of_winner hfirst horder with
    hnone | ⟨front, s, back, m, hsources, hm, hfront, hback, hnext⟩
  · exact .inl hnone
  · refine .inr ⟨front, s, back, m, hsources, hm, hfront, hback, ?_, hnext⟩
    rw [show (0 : Int) = (0 : Nat) from rfl, hnext 0, hfirst s (by simp [hsources]), hm]
    rfl

/-- A weekly rule and one of every seventh day, which have the same dates in Berlin. -/
theorem next_eq_earliest_instant_of_tie : ∃ d now, ∃ first : Source → Option Moment,
    (parse ("DTSTART;TZID=Europe/Berlin:20240101T090000\nRRULE:FREQ=WEEKLY\n" ++
      "RRULE:FREQ=DAILY;INTERVAL=7").toList none).run.value = .ok d ∧
    WallTime.ofFields? ⟨2024, 1, 5⟩ 0 0 0 0 = some now ∧
    (∀ s ∈ d.sources, s.nthAfter d (Moment.universal now) 0 = .ok (first s)) ∧
    (((∀ s ∈ d.sources, first s = none) ∧
        ∀ k : Nat, d.next (Moment.universal now) k = .ok none) ∨
      ∃ front s back m, d.sources = front ++ s :: back ∧ first s = some m ∧
        (∀ s' ∈ front, ∀ m' ∈ first s', m.instant < m'.instant) ∧
        (∀ s' ∈ back, ∀ m' ∈ first s', m.instant ≤ m'.instant) ∧
        d.next (Moment.universal now) 0 = some <$> within m.universal? ∧
        ∀ k : Nat, d.next (Moment.universal now) k =
          s.nthAfter d (Moment.universal now) k >>= answer) := by
  obtain ⟨d, now, hd, hnow, hanswers, hall⟩ : ∃ d now,
      (parse ("DTSTART;TZID=Europe/Berlin:20240101T090000\nRRULE:FREQ=WEEKLY\n" ++
        "RRULE:FREQ=DAILY;INTERVAL=7").toList none).run.value = .ok d ∧
      WallTime.ofFields? ⟨2024, 1, 5⟩ 0 0 0 0 = some now ∧
      (d.sources.all fun s => (s.nthAfter d (Moment.universal now) 0).toOption.isSome) = true ∧
      (d.sources.all fun s => d.sources.all fun s' =>
        (s.nthAfter d (Moment.universal now) 0).toOption.join.all fun m =>
        (s'.nthAfter d (Moment.universal now) 0).toOption.join.all fun m' =>
        decide (m.wall.ticks < m'.wall.ticks) == decide (m.instant < m'.instant)) = true :=
    ⟨_, _, rfl, rfl, by decide +kernel, by decide +kernel⟩
  have hfirst : ∀ s ∈ d.sources, s.nthAfter d (Moment.universal now) 0 =
      .ok (s.nthAfter d (Moment.universal now) 0).toOption.join := by
    intro s hs
    obtain ⟨x, hx⟩ := Option.isSome_iff_exists.mp (List.all_eq_true.mp hanswers s hs)
    rw [ok_of_toOption hx]
    rfl
  refine ⟨d, now, _, hd, hnow, hfirst, next_eq_earliest_instant hfirst ?_⟩
  intro s hs s' hs' m hm m' hm' _
  have hsame := List.all_eq_true.mp (List.all_eq_true.mp hall s hs) s' hs'
  rw [Option.mem_def.mp hm, Option.mem_def.mp hm'] at hsame
  exact decide_eq_decide.mp (beq_iff_eq.mp hsame)

/-- A daily rule has a quarter to three of the first pass. A rule of every 1485 minutes has half past
two of the second pass, which is before it on the wall, and gives the next occurrence. -/
theorem next_not_earliest_instant : ∃ d now s m r,
    (parse ("DTSTART;TZID=Europe/Berlin:20241026T024500\nRRULE:FREQ=MINUTELY;INTERVAL=1485\n" ++
      "RRULE:FREQ=DAILY").toList none).run.value = .ok d ∧
    WallTime.ofFields? ⟨2024, 10, 26⟩ 12 0 0 0 = some now ∧ s ∈ d.sources ∧
    s.nthAfter d (Moment.universal now) 0 = .ok (some m) ∧
    d.next (Moment.universal now) 0 = .ok (some r) ∧ m.instant < r.instant := by
  obtain ⟨d, now, c, c', hd, hnow, hcomponents, hlater⟩ : ∃ d now c c',
      (parse ("DTSTART;TZID=Europe/Berlin:20241026T024500\nRRULE:FREQ=MINUTELY;INTERVAL=1485\n" ++
        "RRULE:FREQ=DAILY").toList none).run.value = .ok d ∧
      WallTime.ofFields? ⟨2024, 10, 26⟩ 12 0 0 0 = some now ∧ d.components = [c, c'] ∧
      (((Source.rule c').nthAfter d (Moment.universal now) 0).toOption.join.any fun m =>
        (d.next (Moment.universal now) 0).toOption.join.any fun r =>
          decide (m.instant < r.instant)) = true :=
    ⟨_, _, _, _, rfl, rfl, rfl, by decide +kernel⟩
  obtain ⟨m, hm, hlater⟩ := (Option.any_eq_true _ _).mp hlater
  obtain ⟨r, hr, hlater⟩ := (Option.any_eq_true _ _).mp hlater
  refine ⟨d, now, .rule c', m, r, hd, hnow, ?_, ?_, ?_, decide_eq_true_iff.mp hlater⟩
  · unfold sources
    rw [hcomponents]
    exact List.mem_append_left _ (by simp)
  · exact ok_of_toOption (Option.join_eq_some_iff.mp hm)
  · exact ok_of_toOption (Option.join_eq_some_iff.mp hr)

end Descriptor

end ScanPolicy
