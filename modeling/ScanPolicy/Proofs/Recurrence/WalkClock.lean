import ScanPolicy.Proofs.Recurrence.Search
import ScanPolicy.Proofs.Recurrence.WalkOrder

/-!
# The clock of a walk

All dates of a walk through rules are read on the clock on which the rules count their
periods, whatever the rules are.

- `Walk.rule_of_silent`, `Walk.rule_of_emit`: a walk stays with its rule.
- `Lane.IsOn`, `RuleSet.IsOn`: lanes of rules that count on a clock.
- `RuleSet.clock_of_yielded`: the clock of the dates of a walk.
-/

namespace ScanPolicy

namespace Walk

variable {w v : Walk}

theorem rule_of_silent (h : w.step = .ok (.silent v)) : v.rule = w.rule := by
  unfold step at h
  split at h
  · cases h
  · split at h
    · cases h
    · cases h
      rfl
  · split at h
    · cases h
      rfl
    · cases h
    · cases h
  · cases h
  · dsimp only at h
    split at h
    · cases h
    · split at h
      · cases h
        rfl
      · split at h <;> cases h

theorem rule_of_emit {m : Moment} (h : w.step = .ok (.emit m v)) :
    v.rule = w.rule ∧ m.clock = w.rule.anchor.clock := by
  unfold step at h
  split at h
  · cases h
  · split at h <;> cases h
  · split at h <;> cases h
  · cases h
  · dsimp only at h
    split at h
    · cases h
    · split at h
      · cases h
      · split at h
        · cases h
          exact ⟨rfl, rfl⟩
        · cases h
        · cases h
          exact ⟨rfl, rfl⟩

end Walk

namespace Lane

/-- Whether a lane walks through a rule that counts on a clock. -/
def IsOn (clock : Clock) : Lane → Prop
  | waiting w => w.rule.anchor.clock = clock
  | ready m w => m.clock = clock ∧ w.rule.anchor.clock = clock

variable {clock : Clock} {lanes : List Lane}

theorem isOn_of_advance {w : Walk} (hw : w.rule.anchor.clock = clock) (h : advance w = .ok lanes) :
    ∀ lane ∈ lanes, lane.IsOn clock := by
  obtain ⟨o, ho, h⟩ := bind_eq_ok_iff.mp h
  cases o with
  | done =>
    cases h
    exact fun lane hlane => absurd hlane List.not_mem_nil
  | silent v =>
    cases h
    rw [List.forall_mem_singleton]
    exact (congrArg (·.anchor.clock) (Walk.rule_of_silent ho)).trans hw
  | emit m v =>
    cases h
    obtain ⟨hrule, hm⟩ := Walk.rule_of_emit ho
    rw [List.forall_mem_singleton]
    exact ⟨hm.trans hw, (congrArg (·.anchor.clock) hrule).trans hw⟩

theorem isOn_of_advanceFirst (hlanes : ∀ lane ∈ lanes, lane.IsOn clock) {moved : List Lane}
    (h : advanceFirst lanes = .ok (some moved)) : ∀ lane ∈ moved, lane.IsOn clock := by
  induction lanes generalizing moved with
  | nil => cases h
  | cons lane rest ih =>
    obtain ⟨hlane, hrest⟩ := List.forall_mem_cons.mp hlanes
    cases lane with
    | waiting w =>
      obtain ⟨more, hmore, h⟩ := bind_eq_ok_iff.mp h
      cases h
      exact List.forall_mem_append.mpr ⟨isOn_of_advance hlane hmore, hrest⟩
    | ready m w =>
      obtain ⟨o, ho, h⟩ := bind_eq_ok_iff.mp h
      cases o with
      | none => cases h
      | some more =>
        cases h
        exact List.forall_mem_cons.mpr ⟨hlane, ih hrest ho⟩

theorem isOn_of_earliest (hlanes : ∀ lane ∈ lanes, lane.IsOn clock) {m : Moment} {w : Walk}
    {others : List Lane} (h : earliest lanes = some (m, w, others)) :
    m.clock = clock ∧ ∀ lane ∈ waiting w :: others, lane.IsOn clock := by
  induction lanes generalizing m w others with
  | nil => cases h
  | cons lane rest ih =>
    obtain ⟨hlane, hrest⟩ := List.forall_mem_cons.mp hlanes
    cases lane with
    | waiting v =>
      obtain ⟨⟨n, u, lanes'⟩, hearliest, h⟩ := Option.map_eq_some_iff.mp h
      cases h
      obtain ⟨hn, hothers⟩ := ih hrest hearliest
      obtain ⟨hw, hothers⟩ := List.forall_mem_cons.mp hothers
      exact ⟨hn, List.forall_mem_cons.mpr ⟨hw, List.forall_mem_cons.mpr ⟨hlane, hothers⟩⟩⟩
    | ready n v =>
      unfold earliest at h
      split at h
      · cases h
        exact ⟨hlane.1, List.forall_mem_cons.mpr ⟨hlane.2, hrest⟩⟩
      · next n' v' lanes' hearliest =>
        split at h
        · cases h
          obtain ⟨hn, hothers⟩ := ih hrest hearliest
          obtain ⟨hw, hothers⟩ := List.forall_mem_cons.mp hothers
          exact ⟨hn, List.forall_mem_cons.mpr ⟨hw, List.forall_mem_cons.mpr ⟨hlane, hothers⟩⟩⟩
        · cases h
          exact ⟨hlane.1, List.forall_mem_cons.mpr ⟨hlane.2, hrest⟩⟩

end Lane

namespace RuleSet

/-- Whether the rules of a walk count on a clock. -/
def IsOn (clock : Clock) (s : RuleSet) : Prop := ∀ lane ∈ s.lanes, lane.IsOn clock

variable {clock : Clock} {s t : RuleSet} {date : Moment}

theorem IsOn.silent (hs : s.IsOn clock) (h : s.step = .ok (.silent t)) : t.IsOn clock := by
  rcases step_cases h with ⟨lanes, hfirst, h⟩ | ⟨_, h⟩ | h | ⟨_, _, _, -, hearliest, h⟩
  · cases h
    exact Lane.isOn_of_advanceFirst hs hfirst
  · cases h
    exact hs
  · cases h
  · have hlanes := (Lane.isOn_of_earliest hs hearliest).2
    rcases h with h | ⟨-, _, h | h⟩
    · cases h
      exact hlanes
    · cases h
      exact hlanes
    · cases h

theorem IsOn.emit (hs : s.IsOn clock) (h : s.step = .ok (.emit date t)) :
    date.clock = clock ∧ t.IsOn clock := by
  rcases step_cases h with ⟨_, -, h⟩ | ⟨_, h⟩ | h | ⟨_, _, _, -, hearliest, h⟩
  · cases h
  · cases h
  · cases h
  · rcases h with h | ⟨-, _, h | h⟩
    · cases h
    · cases h
    · cases h
      exact Lane.isOn_of_earliest hs hearliest

/-- The dates of a walk are on the clock of its rules. -/
theorem clock_of_yielded (hs : s.IsOn clock) (fuel : Nat) :
    ∀ date ∈ yielded step fuel s, date.clock = clock := by
  induction fuel generalizing s with
  | zero => exact fun date hdate => absurd hdate List.not_mem_nil
  | succ fuel ih =>
    unfold yielded
    split
    · exact fun date hdate => absurd hdate List.not_mem_nil
    · exact fun date hdate => absurd hdate List.not_mem_nil
    · next next hstep => exact ih (hs.silent hstep)
    · next date next hstep =>
      obtain ⟨hdate, hnext⟩ := hs.emit hstep
      exact List.forall_mem_cons.mpr ⟨hdate, ih hnext⟩

theorem isOn_ofRules {rules : List Rule} (excludedRules : List Rule) (excluded : List Moment)
    (h : ∀ r ∈ rules, r.anchor.clock = clock) : (ofRules rules excludedRules excluded).IsOn clock := by
  intro lane hlane
  obtain ⟨r, hr, rfl⟩ := List.mem_map.mp hlane
  exact h r hr

end RuleSet

end ScanPolicy
