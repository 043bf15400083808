import ScanPolicy.Proofs.Recurrence.Excluding
import ScanPolicy.Proofs.Recurrence.Layout
import ScanPolicy.Proofs.Recurrence.RunDates

/-!
# Rules of which the faults only end a search

A search through a rule may break off at the layout of a year, at the times of a period,
after the last day of the calendar, or where no further period is reached. For a tame rule
all of these only mean that there is no further date.

- `Rule.IsTame`: the layouts of a rule and its turns of the day.
- `Rule.Run.endsSearch`: the fault after the dates of a run.
- `Rule.search_failsOnly`: a search through a tame rule without the excluded dates.
-/

namespace ScanPolicy

namespace Rule

/-- A rule of which the layouts, and the turns from the periods that count, break off only if there
is no further date. -/
structure IsTame (r : Rule) : Prop where
  frame : ∀ p : Period, p.Fits r.freq →
    FailsOnly (·.endsSearch = true) (r.frame p.yearMonth.1 p.yearMonth.2)
  turns : ∀ p : Period, p.Fits r.freq →
    r.number p % r.interval = r.number r.firstPeriod % r.interval →
    ∀ skips e, r.nextPeriod skips p = .failed e → e.endsSearch

variable {r : Rule}

/-- Of the periods with a number that counts, a run breaks off only where the search ends. -/
theorem Run.endsSearch {cost : Nat} {p : Period} {isFirst : Bool} {ts : List WallTime}
    {fault : Option Fault} (h : r.Run cost p isFirst ts fault) (ht : r.IsTame) (hr : r.IsComplete)
    (hp : p.Fits r.freq)
    (hmod : r.number p % r.interval = r.number r.firstPeriod % r.interval) :
    ∀ e ∈ fault, e.endsSearch := by
  induction h with
  | noDates hnone =>
    intro e he
    cases he
    rcases dates_eq_error hnone with hframe | htimes
    · exact ht.frame _ hp _ hframe
    · exact (timesIn_error hp htimes).1
  | broken hbroken =>
    intro e he
    cases he
    exact ((Rule.dates_spec hr hp hbroken).fault _ rfl).1
  | ended =>
    intro e he
    cases he
  | stuck hfound hnext =>
    intro e he
    cases he
    exact ht.turns _ hp hmod _ _ hnext
  | more hfound hnext rest ih =>
    obtain ⟨hq, hfollows, -⟩ := nextPeriod_more hr hp hnext
    refine ih hq (hfollows.mod_eq.trans (Eq.trans ?_ hmod))
    exact (r.freq.baseOf_spec hr.interval_pos _ _).2

end Rule

/-! ## Searching through a tame rule -/

namespace Walk

/-- A walk that can break off only where the search ends. -/
def IsTame (w : Walk) : Prop :=
  ∃ n dates fault, Trace step n w dates fault ∧ ∀ e ∈ fault, e.endsSearch

variable {w v : Walk}

theorem IsTame.failsOnly (h : w.IsTame) : FailsOnly (·.endsSearch = true) w.step := by
  obtain ⟨n, dates, fault, htrace, hfault⟩ := h
  intro e he
  cases htrace with
  | failed hstep =>
    cases he.symm.trans hstep
    exact hfault e rfl
  | done hstep => cases he.symm.trans hstep
  | silent hstep => cases he.symm.trans hstep
  | emit hstep => cases he.symm.trans hstep

theorem IsTame.next (h : w.IsTame)
    (hstep : w.step = .ok (.silent v) ∨ ∃ m, w.step = .ok (.emit m v)) : v.IsTame := by
  obtain ⟨n, dates, fault, htrace, hfault⟩ := h
  cases htrace with
  | failed hstop => rcases hstep with h | ⟨m, h⟩ <;> cases h.symm.trans hstop
  | done hstop => rcases hstep with h | ⟨m, h⟩ <;> cases h.symm.trans hstop
  | silent hstep' rest =>
    rcases hstep with h | ⟨m, h⟩ <;> cases h.symm.trans hstep'
    exact ⟨_, _, _, rest, hfault⟩
  | emit hstep' rest =>
    rcases hstep with h | ⟨m, h⟩ <;> cases h.symm.trans hstep'
    exact ⟨_, _, _, rest, hfault⟩

/-- The walk through a tame rule. -/
theorem isTame_ofRule {r : Rule} (ht : r.IsTame) (hr : r.IsComplete) : (ofRule r).IsTame := by
  have hfits : r.firstPeriod.Fits r.freq := r.firstPeriod_eq ▸ Period.ofTime_fits r.freq r.anchor.wall
  obtain ⟨cost, ts, fault, hrun⟩ := Rule.exists_run hr hfits true
  obtain ⟨n, htrace, -⟩ := Rule.trace_ofRule hrun
  refine ⟨n, _, _, htrace, fun e he => hrun.endsSearch ht hr hfits rfl e ?_⟩
  -- bounds and counts only take faults away
  unfold Rule.cutEnding Rule.ending at he
  cases hcount : r.count with
  | none =>
    rw [hcount, Option.elim_none] at he
    split at he
    · cases he
    · exact he
  | some c =>
    rw [hcount, Option.elim_some] at he
    split at he
    · cases he
    · split at he
      · cases he
      · exact he

end Walk

namespace RuleSet

/-- The states of a walk through one tame rule. -/
inductive IsTame : RuleSet → Prop
  | single {w : Walk} (hw : w.IsTame) (excluded : List Moment) (last : Option Moment) :
      IsTame (single w excluded last)
  | ready {w : Walk} (hw : w.IsTame) (date : Moment) (excluded : List Moment)
      (last : Option Moment) : IsTame (singleReady date w excluded last)
  | empty (excluded : List Moment) (last : Option Moment) : IsTame ⟨[], [], excluded, last⟩

/-- A step of the walk breaks off only where the search ends, and leaves a walk of the same kind. -/
theorem IsTame.step_spec {s : RuleSet} (h : s.IsTame) :
    FailsOnly (·.endsSearch = true) s.step ∧
      ∀ t, s.step = .ok (.silent t) ∨ (∃ m, s.step = .ok (.emit m t)) → t.IsTame := by
  cases h with
  | @single w hw excluded last =>
    cases hstep : w.step with
    | error e =>
      rw [step_single_failed hstep]
      refine ⟨failsOnly_error (hw.failsOnly e hstep), ?_⟩
      rintro t (h | ⟨m, h⟩) <;> cases h
    | ok o =>
      cases o with
      | done =>
        rw [step_single_done hstep]
        refine ⟨failsOnly_ok _, ?_⟩
        rintro t (h | ⟨m, h⟩) <;> cases h
        exact .empty excluded last
      | silent v =>
        rw [step_single_silent hstep]
        refine ⟨failsOnly_ok _, ?_⟩
        rintro t (h | ⟨m, h⟩) <;> cases h
        exact .single (hw.next (.inl hstep)) excluded last
      | emit date v =>
        rw [step_single_emit hstep]
        refine ⟨failsOnly_ok _, ?_⟩
        rintro t (h | ⟨m, h⟩) <;> cases h
        exact .ready (hw.next (.inr ⟨date, hstep⟩)) date excluded last
  | @ready w hw date excluded last =>
    by_cases hnew : repeats last date = true
    · have hstep : (singleReady date w excluded last).step =
          .ok (.silent (RuleSet.single w excluded last)) := step_of_repeats rfl rfl rfl hnew
      rw [hstep]
      refine ⟨failsOnly_ok _, ?_⟩
      rintro t (h | ⟨m, h⟩) <;> cases h
      exact .single hw excluded last
    · rw [step_singleReady hnew]
      refine ⟨failsOnly_ok _, ?_⟩
      split_ifs
      all_goals
        rintro t (h | ⟨m, h⟩) <;> cases h
        exact .single hw _ _
  | empty excluded last =>
    rw [step_empty]
    refine ⟨failsOnly_ok _, ?_⟩
    rintro t (h | ⟨m, h⟩) <;> cases h

end RuleSet

namespace Rule

/-- A search through a tame rule breaks off only where there is no further date. -/
theorem search_failsOnly {r : Rule} (ht : r.IsTame) (hr : r.IsComplete) (excluded : List Moment)
    (now : Moment) (fuel k : Nat) : FailsOnly (·.endsSearch = true)
      (search RuleSet.step now fuel (.after k) (RuleSet.ofRules [r] [] excluded)) := by
  -- along the steps of the walk, whatever is still sought
  have hsteps : ∀ fuel (sought : Sought) {s : RuleSet}, s.IsTame →
      FailsOnly (·.endsSearch = true) (search RuleSet.step now fuel sought s) := by
    intro fuel
    induction fuel with
    | zero => exact fun sought s _ => failsOnly_ok _
    | succ fuel ih =>
      intro sought s hs
      obtain ⟨hfails, hnext⟩ := hs.step_spec
      unfold search
      split
      · next e he => exact failsOnly_error (hfails e he)
      · exact failsOnly_ok _
      · next t hstep => exact ih sought (hnext t (.inl hstep))
      · next date t hstep =>
        have ht := hnext t (.inr ⟨date, hstep⟩)
        split
        · split
          · exact failsOnly_ok _
          · exact ih _ ht
          · exact ih _ ht
        · exact ih _ ht
  exact hsteps fuel _ (.single (Walk.isTame_ofRule ht hr) (Moment.sort excluded) none)

end Rule

end ScanPolicy
