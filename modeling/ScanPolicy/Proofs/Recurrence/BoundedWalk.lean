import ScanPolicy.Proofs.Moment.Utc
import ScanPolicy.Proofs.Recurrence.RunDates
import ScanPolicy.Proofs.Recurrence.WalkOrder

/-!
# Walks with a last moment

A last moment takes no part in how the dates of a rule are computed. A walk with one takes the same
steps as the walk without it, and ends at the first date that is later.

- `Rule.Generates`: the dates of a rule, and the fault that comes after them.
- `Walk.IsSound.increasing`: the dates of a walk are increasing.
- `Walk.step_bounded`, `Walk.trace_bounded`: walks with a last moment.
- `Rule.Generates.bounded`: the dates of a rule with a last moment.
-/

namespace ScanPolicy

namespace Rule

theorem nextMinute_withBound (r : Rule) (bound : Option Moment) (fuel days h m : Nat) :
    ({ r with bound } : Rule).nextMinute fuel days h m = r.nextMinute fuel days h m := by
  induction fuel generalizing days h m with
  | zero => rfl
  | succ fuel ih => simp only [nextMinute, ih]

theorem nextPeriod_withBound (r : Rule) (bound : Option Moment) (skips : Bool) (p : Period) :
    ({ r with bound } : Rule).nextPeriod skips p = r.nextPeriod skips p := by
  cases p with
  | minute d h m =>
    simp only [nextPeriod, nextMinute_withBound r bound]
  | _ => rfl

end Rule

namespace Walk

variable {w v : Walk} {n : Nat} {dates : List Moment} {fault : Option Fault}

/-! ## The dates of a walk -/

/-- The dates of a walk are on its clock and increasing. -/
theorem IsSound.increasing {clock : Clock} (hw : w.IsSound clock) (h : Trace step n w dates fault) :
    (∀ m ∈ dates, m = clock.reading m.wall ∧ w.MayReach m.wall) ∧
      dates.Pairwise fun a b => a.wall.ticks < b.wall.ticks := by
  induction h with
  | done => exact ⟨fun m hm => absurd hm List.not_mem_nil, List.Pairwise.nil⟩
  | failed => exact ⟨fun m hm => absurd hm List.not_mem_nil, List.Pairwise.nil⟩
  | silent h _ ih =>
    obtain ⟨hv, hreach⟩ := hw.silent h
    obtain ⟨hdates, hsorted⟩ := ih hv
    exact ⟨fun m hm => ⟨(hdates m hm).1, hreach _ (hdates m hm).2⟩, hsorted⟩
  | emit h _ ih =>
    obtain ⟨hv, hdate, hreached, hreach⟩ := hw.emit h
    obtain ⟨hdates, hsorted⟩ := ih hv
    refine ⟨List.forall_mem_cons.mpr ⟨⟨hdate, hreached⟩, fun m hm => ⟨(hdates m hm).1, ?_⟩⟩,
      List.pairwise_cons.mpr ⟨fun m hm => ?_, hsorted⟩⟩
    · exact (hreach _ (hdates m hm).2).1
    · exact (hreach _ (hdates m hm).2).2

/-- A step stays with its rule. -/
theorem rule_of_step (h : w.step = .ok (.silent v) ∨ ∃ m, w.step = .ok (.emit m v)) :
    v.rule = w.rule := by
  obtain ⟨r, place, left⟩ := w
  unfold step at h
  dsimp only at h
  split at h
  · rcases h with h | ⟨m, h⟩ <;> cases h
  · split at h
    · rcases h with h | ⟨m, h⟩ <;> cases h
    · rcases h with h | ⟨m, h⟩ <;> cases h
      rfl
  · split at h <;> rcases h with h | ⟨m, h⟩ <;> cases h
    rfl
  · rcases h with h | ⟨m, h⟩ <;> cases h
  · split_ifs at h
    · rcases h with h | ⟨m, h⟩ <;> cases h
    · rcases h with h | ⟨m, h⟩ <;> cases h
      rfl
    · split at h <;> rcases h with h | ⟨m, h⟩ <;> cases h <;> rfl

/-! ## Walks with a last moment -/

/-- The walk with a last moment. -/
def bounded (u : Moment) (w : Walk) : Walk := { w with rule := { w.rule with bound := some u } }

variable {u : Moment}

/-- A step with a last moment: the walk ends where a later date would come. -/
theorem step_bounded (hbound : w.rule.bound = none)
    (hstart : ∀ t : WallTime, t.ticks < w.rule.anchor.wall.ticks → ¬ u.before (w.rule.moment t)) :
    (w.bounded u).step = w.step.map fun
      | .done => .done
      | .silent v => .silent (v.bounded u)
      | .emit m v => if u.before m then .done else .emit m (v.bounded u) := by
  obtain ⟨r, place, left⟩ := w
  have hpast : ∀ m, isPast r m = false := by
    intro m
    unfold isPast
    rw [hbound]
  unfold bounded step
  cases place with
  | before p isFirst =>
    dsimp only
    rw [show layout { r with bound := some u } p isFirst = layout r p isFirst from rfl]
    split <;> rfl
  | within p skips ts broken =>
    cases ts with
    | nil =>
      cases broken with
      | some e => rfl
      | none =>
        dsimp only
        rw [Rule.nextPeriod_withBound]
        split <;> rfl
    | cons t ts =>
      dsimp only
      rw [hpast, if_neg Bool.false_ne_true]
      show (if u.before (r.moment t) then _ else _) = _
      by_cases hearly : t.ticks < r.anchor.wall.ticks
      · rw [if_neg (hstart t hearly), if_pos hearly, if_pos hearly]
        rfl
      · rw [if_neg hearly, if_neg hearly]
        rw [show (⟨t, r.anchor.clock, false⟩ : Moment) = r.moment t from rfl]
        cases left with
        | none =>
          dsimp only [Except.map]
          split <;> rfl
        | some left =>
          cases left with
          | zero =>
            dsimp only [Except.map]
            split <;> rfl
          | succ left =>
            dsimp only [Except.map]
            split <;> rfl
  | _ => rfl

/-- The dates of a walk with a last moment are those up to it, if no date before the anchor is later and
the dates after a later one are later. A fault does not come after a later date. -/
theorem trace_bounded (h : Trace step n w dates fault) (hbound : w.rule.bound = none)
    (hstart : ∀ t : WallTime, t.ticks < w.rule.anchor.wall.ticks → ¬ u.before (w.rule.moment t))
    (hlater : dates.Pairwise fun a b => u.before a → u.before b) :
    ∃ k, Trace step k (w.bounded u) (dates.filter fun m => !u.before m)
      (if dates.any u.before then none else fault) := by
  induction h with
  | done h =>
    exact ⟨0, .done (by rw [step_bounded hbound hstart, h]; rfl)⟩
  | failed h =>
    exact ⟨1, .failed (by rw [step_bounded hbound hstart, h]; rfl)⟩
  | silent h _ ih =>
    have hrule := rule_of_step (.inl h)
    obtain ⟨k, htrace⟩ := ih (hrule ▸ hbound) (hrule ▸ hstart) hlater
    exact ⟨k + 1, .silent (by rw [step_bounded hbound hstart, h]; rfl) htrace⟩
  | @emit n w v date dates fault h _ ih =>
    obtain ⟨hfirst, hlater⟩ := List.pairwise_cons.mp hlater
    have hstep := step_bounded (u := u) hbound hstart
    rw [h] at hstep
    by_cases hdate : u.before date = true
    · -- the walk ends here, and all other dates are later too
      have hnil : dates.filter (fun m => !u.before m) = [] :=
        List.filter_eq_nil_iff.mpr fun m hm => by simp [hfirst m hm hdate]
      rw [List.filter_cons_of_neg (by simp [hdate]), hnil, List.any_cons, hdate, Bool.true_or,
        if_pos rfl]
      refine ⟨0, .done ?_⟩
      rw [hstep]
      exact congrArg Except.ok (if_pos hdate)
    · have hrule := rule_of_step (.inr ⟨date, h⟩)
      obtain ⟨k, htrace⟩ := ih (hrule ▸ hbound) (hrule ▸ hstart) hlater
      rw [List.filter_cons_of_pos (by simp [hdate]), List.any_cons, Bool.eq_false_iff.mpr hdate,
        Bool.false_or]
      refine ⟨k + 1, .emit ?_ htrace⟩
      rw [hstep]
      exact congrArg Except.ok (if_neg hdate)

end Walk

/-! ## The dates of a rule -/

namespace Rule

/-- The dates that a rule generates from its anchor on, and the fault that comes after them. -/
def Generates (r : Rule) (dates : List Moment) (fault : Option Fault) : Prop :=
  ∃ n, Trace Walk.step n (Walk.ofRule r) dates fault

variable {r : Rule} {dates : List Moment} {fault : Option Fault}

theorem exists_generates (hr : r.IsComplete) : ∃ dates fault, r.Generates dates fault := by
  have hfits : r.firstPeriod.Fits r.freq := by
    rw [firstPeriod_eq]
    exact Period.ofTime_fits _ _
  obtain ⟨cost, ts, fault, hrun⟩ := exists_run hr hfits true
  obtain ⟨n, htrace, -⟩ := trace_ofRule hrun
  exact ⟨_, _, n, htrace⟩

/-- The dates of a rule with a last moment on clocks in universal time, if the rule does not start
after it. -/
theorem Generates.bounded (h : r.Generates dates fault) (hr : r.IsComplete)
    (hbound : r.bound = none) (hutc : r.anchor.clock.IsUtc) {u : Moment} (hu : u.clock.IsUtc)
    (hstart : r.anchor.wall.ticks ≤ u.wall.ticks) :
    Generates { r with bound := some u } (dates.filter fun m => !u.before m)
      (if dates.any u.before then none else fault) := by
  obtain ⟨n, htrace⟩ := h
  have hmoment : ∀ t : WallTime, u.before (r.moment t) = decide (u.wall.ticks < t.ticks) :=
    fun t => Moment.before_utc hu hutc
  obtain ⟨hdates, hsorted⟩ := (Walk.isSound_ofRule hr rfl).increasing htrace
  refine Walk.trace_bounded htrace hbound (fun t ht => ?_) ?_
  · rw [show (Walk.ofRule r).rule = r from rfl] at ht ⊢
    rw [hmoment, decide_eq_true_iff]
    omega
  · refine hsorted.imp_of_mem fun {a b} ha hb hab => ?_
    rw [(hdates a ha).1, (hdates b hb).1]
    exact Moment.before_later hutc hab

end Rule

end ScanPolicy
