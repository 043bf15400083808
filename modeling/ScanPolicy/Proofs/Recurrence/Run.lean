import Mathlib.Data.List.TakeWhile
import ScanPolicy.Proofs.Recurrence.SingleRule

/-!
# Runs of rules

A rule is run through period by period. The run of a rule has all dates of its
periods, also those before the anchor and those after the last moment; it depends
on the anchor only through the first period. The walk through a rule
yields the dates of the run from the anchor up to the last moment, as far as it counts.

- `Rule.dates`: the dates of a period, and whether its day is passed over.
- `Rule.Run`: the dates of the periods from one on, and the fault after them.
- `Rule.kept`, `Rule.ending`: what the walk yields of a run, and how it ends.
- `Walk.trace_counted`: a count leaves the first dates; `Rule.cut`.
- `Rule.search_eq_outcome`: what a search for the further dates of a rule finds; `Rule.sweep_cut`.
-/

namespace ScanPolicy

namespace Rule

/-- The dates of a period, and whether some day of it is not chosen. -/
def dates (r : Rule) (p : Period) (isFirst : Bool) : Except Fault (Dates × Bool) :=
  (Walk.layout r p isFirst).map fun (f, times) => r.datesIn f p times

/-- From a period on, the rule has the given dates, and then the calendar ends or a
fault comes. The first number bounds the steps that a walk takes. -/
inductive Run (r : Rule) : Nat → Period → Bool → List WallTime → Option Fault → Prop
  | noDates {p : Period} {isFirst : Bool} {e : Fault} (h : r.dates p isFirst = .error e) :
      Run r 1 p isFirst [] (some e)
  | broken {p : Period} {isFirst skips : Bool} {times : List WallTime} {e : Fault}
      (h : r.dates p isFirst = .ok (⟨times, some e⟩, skips)) :
      Run r (2 * times.length + 2) p isFirst times (some e)
  | ended {p : Period} {isFirst skips : Bool} {times : List WallTime}
      (h : r.dates p isFirst = .ok (⟨times, none⟩, skips)) (hnext : r.nextPeriod skips p = .done) :
      Run r (2 * times.length + 2) p isFirst times none
  | stuck {p : Period} {isFirst skips : Bool} {times : List WallTime} {e : Fault}
      (h : r.dates p isFirst = .ok (⟨times, none⟩, skips))
      (hnext : r.nextPeriod skips p = .failed e) :
      Run r (2 * times.length + 2) p isFirst times (some e)
  | more {p q : Period} {isFirst skips : Bool} {times later : List WallTime} {cost : Nat}
      {fault : Option Fault} (h : r.dates p isFirst = .ok (⟨times, none⟩, skips))
      (hnext : r.nextPeriod skips p = .more q) (rest : Run r cost q false later fault) :
      Run r (2 * times.length + 2 + cost) p isFirst (times ++ later) fault

/-! ## What a walk yields -/

/-- A date of a rule as a moment. -/
def moment (r : Rule) (t : WallTime) : Moment := ⟨t, r.anchor.clock, false⟩

/-- Whether a date is after the last moment. -/
def isPast (r : Rule) (t : WallTime) : Bool := Walk.isPast r (r.moment t)

/-- The dates that a walk yields: those from the anchor on, up to the first one
that is after the last moment. -/
def kept (r : Rule) (ts : List WallTime) : List Moment :=
  ((ts.takeWhile fun t => !r.isPast t).filter fun t => r.anchor.wall.ticks ≤ t.ticks).map r.moment

/-- How a walk ends: a fault does not count after a date that is after the last
moment. -/
def ending (r : Rule) (ts : List WallTime) (fault : Option Fault) : Option Fault :=
  if ts.any r.isPast then none else fault

/-- What one more step costs at the end without a fault. -/
def endCost (fault : Option Fault) : Nat := fault.elim 1 fun _ => 0

variable {r : Rule}

theorem kept_cons_of_isPast {t : WallTime} (h : r.isPast t) (ts : List WallTime) :
    r.kept (t :: ts) = [] := by
  simp [kept, h]

theorem kept_cons_of_early {t : WallTime} (h : ¬ r.isPast t) (hearly : t.ticks < r.anchor.wall.ticks)
    (ts : List WallTime) : r.kept (t :: ts) = r.kept ts := by
  simp [kept, h, hearly]

theorem kept_cons {t : WallTime} (h : ¬ r.isPast t) (hlate : ¬ t.ticks < r.anchor.wall.ticks)
    (ts : List WallTime) : r.kept (t :: ts) = r.moment t :: r.kept ts := by
  simp [kept, h, Int.not_lt.mp hlate]

theorem kept_append_of_past {ts : List WallTime} (h : ts.any r.isPast) (us : List WallTime) :
    r.kept (ts ++ us) = r.kept ts := by
  induction ts with
  | nil => cases h
  | cons t ts ih =>
    by_cases ht : r.isPast t
    · rw [List.cons_append, kept_cons_of_isPast ht, kept_cons_of_isPast ht]
    · have ih := ih (by simpa [ht] using h)
      by_cases hearly : t.ticks < r.anchor.wall.ticks
      · rw [List.cons_append, kept_cons_of_early ht hearly, kept_cons_of_early ht hearly, ih]
      · rw [List.cons_append, kept_cons ht hearly, kept_cons ht hearly, ih]

theorem kept_append {ts : List WallTime} (h : ¬ ts.any r.isPast) (us : List WallTime) :
    r.kept (ts ++ us) = r.kept ts ++ r.kept us := by
  induction ts with
  | nil => rfl
  | cons t ts ih =>
    have ht : ¬ r.isPast t := fun ht => h (by simp [ht])
    have ih := ih (by simpa [ht] using h)
    by_cases hearly : t.ticks < r.anchor.wall.ticks
    · rw [List.cons_append, kept_cons_of_early ht hearly, kept_cons_of_early ht hearly, ih]
    · rw [List.cons_append, kept_cons ht hearly, kept_cons ht hearly, ih, List.cons_append]

theorem mem_of_mem_kept {m : Moment} {ts : List WallTime} (h : m ∈ r.kept ts) :
    ∃ t ∈ ts, r.moment t = m ∧ ¬ r.isPast t ∧ r.anchor.wall.ticks ≤ t.ticks := by
  obtain ⟨t, ht, rfl⟩ := List.mem_map.mp h
  obtain ⟨ht, hlate⟩ := List.mem_filter.mp ht
  refine ⟨t, (List.takeWhile_sublist _).subset ht, rfl, ?_, of_decide_eq_true hlate⟩
  simpa using List.mem_takeWhile_imp ht

theorem kept_pairwise {R : WallTime → WallTime → Prop} {S : Moment → Moment → Prop}
    {ts : List WallTime} (h : ts.Pairwise R) (hRS : ∀ a b, R a b → S (r.moment a) (r.moment b)) :
    (r.kept ts).Pairwise S := by
  refine List.pairwise_map.mpr ?_
  have hsub : ((ts.takeWhile fun t => !r.isPast t).filter
      fun t => r.anchor.wall.ticks ≤ t.ticks).Sublist ts :=
    List.filter_sublist.trans (List.takeWhile_sublist _)
  exact (h.sublist hsub).imp fun {a b} hab => hRS a b hab

/-- A step at a date of a period. -/
theorem step_within_cons (p : Period) (skips : Bool) (t : WallTime) (ts : List WallTime)
    (broken : Option Fault) :
    Walk.step ⟨r, .within p skips (t :: ts) broken, none⟩ = .ok
      (if r.isPast t then .done
      else if t.ticks < r.anchor.wall.ticks then .silent ⟨r, .within p skips ts broken, none⟩
      else .emit (r.moment t) ⟨r, .within p skips ts broken, none⟩) := by
  show (if r.isPast t then _ else if t.ticks < r.anchor.wall.ticks then _ else _) = _
  rw [apply_ite Except.ok, apply_ite Except.ok]
  rfl

/-- A walk through the dates of a period and then on. -/
theorem trace_within {p : Period} {skips : Bool} {broken : Option Fault} {n : Nat}
    {dates : List Moment} {fault : Option Fault}
    (h : Trace Walk.step n ⟨r, .within p skips [] broken, none⟩ dates fault) (ts : List WallTime) :
    ∃ m, Trace Walk.step m ⟨r, .within p skips ts broken, none⟩
        (if ts.any r.isPast then r.kept ts else r.kept ts ++ dates)
        (if ts.any r.isPast then none else fault) ∧
      m + (if ts.any r.isPast then r.kept ts else r.kept ts ++ dates).length +
          endCost (if ts.any r.isPast then none else fault) ≤
        2 * ts.length + (n + dates.length + endCost fault) := by
  induction ts with
  | nil => exact ⟨n, h, by simp [kept]⟩
  | cons t ts ih =>
    obtain ⟨m, htrace, hcost⟩ := ih
    have hstep := step_within_cons (r := r) p skips t ts broken
    by_cases ht : r.isPast t
    · rw [if_pos ht] at hstep
      have hany : (t :: ts).any r.isPast = true := by simp [ht]
      rw [hany, if_pos rfl, if_pos rfl, kept_cons_of_isPast ht]
      refine ⟨0, .done hstep, ?_⟩
      simp only [endCost, List.length_cons, List.length_nil, Option.elim_none]
      omega
    rw [if_neg ht] at hstep
    have hany : (t :: ts).any r.isPast = ts.any r.isPast := by simp [ht]
    rw [hany]
    by_cases hearly : t.ticks < r.anchor.wall.ticks
    · rw [if_pos hearly] at hstep
      rw [kept_cons_of_early ht hearly]
      exact ⟨m + 1, .silent hstep htrace, by rw [List.length_cons]; omega⟩
    · rw [if_neg hearly] at hstep
      have hkept : (if ts.any r.isPast then r.kept (t :: ts) else r.kept (t :: ts) ++ dates) =
          r.moment t :: if ts.any r.isPast then r.kept ts else r.kept ts ++ dates := by
        rw [kept_cons ht hearly]
        split <;> rfl
      rw [hkept]
      refine ⟨m + 1, .emit hstep htrace, ?_⟩
      rw [List.length_cons, List.length_cons]
      omega

/-- A walk enters a period that has dates. -/
theorem step_before {p : Period} {isFirst skips : Bool} {ds : Dates}
    (h : r.dates p isFirst = .ok (ds, skips)) :
    Walk.step ⟨r, .before p isFirst, none⟩ =
      .ok (.silent ⟨r, .within p skips ds.times ds.fault, none⟩) := by
  unfold dates at h
  unfold Walk.step
  cases hlayout : Walk.layout r p isFirst with
  | error e =>
    rw [hlayout] at h
    cases h
  | ok l =>
    rw [hlayout] at h
    simp only [Except.map, Except.ok.injEq] at h
    simp only [hlayout, h]

theorem step_before_failed {p : Period} {isFirst : Bool} {e : Fault}
    (h : r.dates p isFirst = .error e) :
    Walk.step ⟨r, .before p isFirst, none⟩ = .error e := by
  unfold dates at h
  unfold Walk.step
  cases hlayout : Walk.layout r p isFirst with
  | error e' =>
    rw [hlayout] at h
    cases h
    simp only [hlayout]
  | ok l =>
    rw [hlayout] at h
    cases h

/-- The trace of the walk from a period on. -/
theorem trace_of_run {cost : Nat} {p : Period} {isFirst : Bool} {ts : List WallTime}
    {fault : Option Fault} (h : r.Run cost p isFirst ts fault) :
    ∃ n, Trace Walk.step n ⟨r, .before p isFirst, none⟩ (r.kept ts) (r.ending ts fault) ∧
      n + (r.kept ts).length + endCost (r.ending ts fault) ≤ cost := by
  -- the dates of one period, and then what comes after them
  have hperiod : ∀ (later : List WallTime) (fault : Option Fault) {p : Period}
      {isFirst skips : Bool} {times : List WallTime} {broken : Option Fault} {n cost : Nat},
      r.dates p isFirst = .ok (⟨times, broken⟩, skips) →
      Trace Walk.step n ⟨r, .within p skips [] broken, none⟩ (r.kept later) (r.ending later fault) →
      n + (r.kept later).length + endCost (r.ending later fault) ≤ cost →
      ∃ n, Trace Walk.step n ⟨r, .before p isFirst, none⟩ (r.kept (times ++ later))
          (r.ending (times ++ later) fault) ∧
        n + (r.kept (times ++ later)).length + endCost (r.ending (times ++ later) fault) ≤
          2 * times.length + 1 + cost := by
    intro later fault p isFirst skips times broken n cost hdates htrace hcost
    obtain ⟨m, hm, hmcost⟩ := trace_within htrace times
    have hending : r.ending (times ++ later) fault =
        if times.any r.isPast then none else r.ending later fault := by
      unfold ending
      rw [List.any_append]
      cases times.any r.isPast <;> simp
    have hkept : r.kept (times ++ later) =
        if times.any r.isPast then r.kept times else r.kept times ++ r.kept later := by
      split
      · next hany => exact kept_append_of_past hany later
      · next hany => exact kept_append hany later
    rw [hending, hkept]
    exact ⟨m + 1, .silent (step_before hdates) hm, by omega⟩
  induction h with
  | noDates h => exact ⟨1, .failed (step_before_failed h), by simp [kept, ending, endCost]⟩
  | @broken p isFirst skips times e h =>
    have hstep : Walk.step ⟨r, .within p skips [] (some e), none⟩ = .error e := rfl
    have := hperiod [] (some e) h (.failed hstep) (Nat.le_refl 1)
    rwa [List.append_nil] at this
  | @ended p isFirst skips times h hnext =>
    have hstep : Walk.step ⟨r, .within p skips [] none, none⟩ = .ok .done := by
      simp only [Walk.step, hnext]
    have := hperiod [] none h (.done hstep) (Nat.le_refl 1)
    rwa [List.append_nil] at this
  | @stuck p isFirst skips times e h hnext =>
    have hstep : Walk.step ⟨r, .within p skips [] none, none⟩ = .error e := by
      simp only [Walk.step, hnext]
    have := hperiod [] (some e) h (.failed hstep) (Nat.le_refl 1)
    rwa [List.append_nil] at this
  | @more p q isFirst skips times later cost fault h hnext rest ih =>
    obtain ⟨n, htrace, hcost⟩ := ih
    have hstep : Walk.step ⟨r, .within p skips [] none, none⟩ =
        .ok (.silent ⟨r, .before q false, none⟩) := by
      simp only [Walk.step, hnext]
    obtain ⟨m, hm, hmcost⟩ := hperiod later fault h (.silent hstep htrace) (Nat.le_refl _)
    exact ⟨m, hm, by omega⟩

end Rule

/-! ## Counted walks -/

namespace Walk

/-- The walk that has so many dates left. -/
def counted (n : Nat) (w : Walk) : Walk := { w with left := some n }

/-- A step with a count: the walk ends where a date would come that is not counted any more. -/
theorem step_counted {w : Walk} (hleft : w.left = none) (n : Nat) : (w.counted n).step =
    w.step.map fun
      | .done => .done
      | .silent v => .silent (v.counted n)
      | .emit m v => match n with
        | 0 => .done
        | n + 1 => .emit m (v.counted n) := by
  obtain ⟨r, place, left⟩ := w
  cases hleft
  unfold counted step
  cases place with
  | before p isFirst =>
    dsimp only
    split <;> rfl
  | within p skips ts fault =>
    cases ts with
    | nil =>
      cases fault with
      | none =>
        dsimp only
        split <;> rfl
      | some e => rfl
    | cons t ts =>
      dsimp only
      split
      · rfl
      · split
        · rfl
        · cases n <;> rfl
  | _ => rfl

/-- A walk without a count stays so. -/
theorem left_of_step {w v : Walk} (hleft : w.left = none)
    (h : w.step = .ok (.silent v) ∨ ∃ m, w.step = .ok (.emit m v)) : v.left = none := by
  obtain ⟨r, place, left⟩ := w
  cases hleft
  cases place with
  | before p isFirst =>
    simp only [step] at h
    split at h
    · rcases h with h | ⟨m, h⟩ <;> cases h
    · rcases h with h | ⟨m, h⟩ <;> cases h
      rfl
  | within p skips ts fault =>
    cases ts with
    | nil =>
      cases fault with
      | some e => rcases h with h | ⟨m, h⟩ <;> cases h
      | none =>
        simp only [step] at h
        split at h <;> rcases h with h | ⟨m, h⟩ <;> cases h
        rfl
    | cons t ts =>
      rw [Rule.step_within_cons] at h
      split_ifs at h <;> rcases h with h | ⟨m, h⟩ <;> cases h <;> rfl
  | _ => rcases h with h | ⟨m, h⟩ <;> cases h

/-- A count leaves the first dates. The walk ends without a fault if there are more dates than it
counts. -/
theorem trace_counted {w : Walk} {m : Nat} {dates : List Moment} {fault : Option Fault}
    (h : Trace step m w dates fault) (hleft : w.left = none) (n : Nat) :
    ∃ k ≤ m, Trace step k (w.counted n) (dates.take n) (if n < dates.length then none else fault) := by
  induction h generalizing n with
  | done h => exact ⟨0, Nat.zero_le _, by
      simpa using Trace.done (by rw [step_counted hleft, h]; rfl)⟩
  | failed h => exact ⟨1, Nat.le_refl 1, by
      simpa using Trace.failed (by rw [step_counted hleft, h]; rfl)⟩
  | silent h rest ih =>
    obtain ⟨k, hk, htrace⟩ := ih (left_of_step hleft (.inl h)) n
    exact ⟨k + 1, by omega, .silent (by rw [step_counted hleft, h]; rfl) htrace⟩
  | @emit m w v date dates fault h rest ih =>
    cases n with
    | zero =>
      refine ⟨0, Nat.zero_le _, ?_⟩
      rw [List.take_zero, List.length_cons, if_pos (Nat.succ_pos _)]
      exact .done (by rw [step_counted hleft, h]; rfl)
    | succ n =>
      obtain ⟨k, hk, htrace⟩ := ih (left_of_step hleft (.inr ⟨date, h⟩)) n
      refine ⟨k + 1, by omega, ?_⟩
      rw [List.take_succ_cons, List.length_cons, if_congr Nat.succ_lt_succ_iff rfl rfl]
      exact .emit (by rw [step_counted hleft, h]; rfl) htrace

end Walk

namespace Rule

variable {r : Rule}

/-- The dates that the count of a rule leaves. -/
def cut (r : Rule) (dates : List Moment) : List Moment := r.count.elim dates dates.take

/-- How a walk with the count of a rule ends. -/
def cutEnding (r : Rule) (dates : List Moment) (fault : Option Fault) : Option Fault :=
  r.count.elim fault fun n => if n < dates.length then none else fault

theorem cut_sublist (dates : List Moment) : (r.cut dates).Sublist dates := by
  unfold cut
  cases r.count with
  | none => exact List.Sublist.refl _
  | some n => exact List.take_sublist _ _

/-- The trace of the walk through a rule. -/
theorem trace_ofRule {cost : Nat} {ts : List WallTime} {fault : Option Fault}
    (h : r.Run cost r.firstPeriod true ts fault) :
    ∃ n, Trace Walk.step n (Walk.ofRule r) (r.cut (r.kept ts))
        (r.cutEnding (r.kept ts) (r.ending ts fault)) ∧
      n + (r.cut (r.kept ts)).length + endCost (r.cutEnding (r.kept ts) (r.ending ts fault)) ≤
        cost := by
  obtain ⟨n, htrace, hn⟩ := trace_of_run h
  unfold cut cutEnding Walk.ofRule
  cases r.count with
  | none => exact ⟨n, htrace, hn⟩
  | some c =>
    obtain ⟨k, hk, hcounted⟩ := Walk.trace_counted htrace rfl c
    refine ⟨k, hcounted, ?_⟩
    simp only [Option.elim_some]
    rw [List.length_take]
    split
    · simp only [endCost, Option.elim_none]
      omega
    · omega

theorem same_moment {a b : WallTime} :
    (r.moment a).same (r.moment b) = decide (a.ticks = b.ticks) := by
  have hclock : r.anchor.clock.same r.anchor.clock = true := by
    cases r.anchor.clock <;> simp [Clock.same]
  show (if r.anchor.clock.same r.anchor.clock then _ else _) = _
  rw [if_pos hclock]
  rfl

/-- What a search for the further dates of a rule finds, if its run is in order and
short enough. -/
theorem search_eq_outcome {cost : Nat} {ts : List WallTime} {fault : Option Fault}
    (h : r.Run cost r.firstPeriod true ts fault) (hcost : cost ≤ stepLimit)
    (hsorted : ts.Pairwise fun a b => a.ticks < b.ticks) (excluded : List Moment) (now : Moment)
    (k : Nat) :
    search RuleSet.step now stepLimit (.after k) (RuleSet.ofRules [r] [] excluded) =
      (Sought.after k).outcome now (sweep (Moment.sort excluded) (r.cut (r.kept ts)))
        (r.cutEnding (r.kept ts) (r.ending ts fault)) := by
  obtain ⟨n, htrace, hn⟩ := trace_ofRule h
  have hnew : (r.kept ts).Pairwise fun a b => ¬ a.same b :=
    kept_pairwise hsorted fun a b hab => by
      rw [same_moment, decide_eq_true_eq]
      omega
  have hfresh : ∀ date ∈ r.cut (r.kept ts), ¬ RuleSet.repeats none date :=
    fun _ _ h => Bool.noConfusion h
  obtain ⟨m, hm, hset⟩ := RuleSet.trace_single htrace hfresh (hnew.sublist (cut_sublist _))
  unfold endCost at hn
  exact search_of_trace hset now (by omega) (.after k)

/-- The dates of a run that a walk leaves are those that are not excluded if the excluded dates
before a date are before the later dates too. -/
theorem sweep_cut {ts : List WallTime} (hsorted : ts.Pairwise fun a b => a.ticks < b.ticks)
    {excluded : List Moment} (hexcluded : ∀ e ∈ excluded, ∀ a b : WallTime, a.ticks < b.ticks →
      e.before (r.moment a) → e.before (r.moment b)) :
    sweep (Moment.sort excluded) (r.cut (r.kept ts)) =
      sift (Moment.sort excluded) (r.cut (r.kept ts)) := by
  refine sweep_eq_sift ((kept_pairwise hsorted fun a b hab e he => ?_).sublist (cut_sublist _))
  exact hexcluded e ((List.mergeSort_perm excluded _).mem_iff.mp he) a b hab

end Rule

end ScanPolicy
