import ScanPolicy.Proofs.Moment.Clock
import ScanPolicy.Proofs.Recurrence.Trace

/-!
# One rule without the excluded dates

The walk through a set of one rule yields the dates of the rule except those that
are excluded. It looks only at the first excluded date that does not come before
a date, and drops those that do. On a clock that is set back or forward a dropped date need not come
before the later dates too; but what comes before a date that is not after a moment of universal time
comes before all later dates that are.

- `sift`: the dates that are not excluded; `sweep`: the dates that a walk leaves.
- `sweep_eq_sift`: they are the same if dropped dates come before the later ones.
- `Moment.Separates`, `filter_sweep_append`: after a moment the dates before it do not matter.
- `RuleSet.trace_single`: the trace of a set of one rule, from that of the rule.
-/

namespace ScanPolicy

/-- Whether the first excluded date that does not come before a date is the same. -/
def isExcluded (excluded : List Moment) (date : Moment) : Bool :=
  (excluded.dropWhile (·.before date)).head?.any (·.same date)

/-- The dates that are not excluded. -/
def sift (excluded dates : List Moment) : List Moment :=
  dates.filter fun date => !isExcluded excluded date

theorem sift_cons (excluded : List Moment) (date : Moment) (dates : List Moment) :
    sift excluded (date :: dates) =
      if isExcluded excluded date then sift excluded dates else date :: sift excluded dates := by
  unfold sift
  by_cases h : isExcluded excluded date <;> simp [h]

/-- What comes before a date may be dropped if it comes before the later ones. -/
theorem dropWhile_dropWhile {α : Type} {p q : α → Bool} {xs : List α}
    (h : ∀ x ∈ xs, p x → q x) : (xs.dropWhile p).dropWhile q = xs.dropWhile q := by
  induction xs with
  | nil => rfl
  | cons x rest ih =>
    have ih := ih fun y hy => h y (List.mem_cons_of_mem _ hy)
    by_cases hp : p x
    · rw [List.dropWhile_cons_of_pos hp, List.dropWhile_cons_of_pos (h x List.mem_cons_self hp), ih]
    · rw [List.dropWhile_cons_of_neg hp]

/-- The dates that a walk leaves: each date drops the excluded dates before it for all later ones. -/
def sweep : List Moment → List Moment → List Moment
  | _, [] => []
  | excluded, date :: dates =>
    if isExcluded excluded date then sweep (excluded.dropWhile (·.before date)) dates
    else date :: sweep (excluded.dropWhile (·.before date)) dates

theorem sweep_sublist (excluded dates : List Moment) : (sweep excluded dates).Sublist dates := by
  induction dates generalizing excluded with
  | nil => exact List.Sublist.refl _
  | cons date rest ih =>
    unfold sweep
    split
    · exact (ih _).cons date
    · exact (ih _).cons_cons date

/-- The excluded dates before a date do not matter for later dates. -/
theorem sift_dropWhile {excluded dates : List Moment} {date : Moment}
    (h : ∀ later ∈ dates, ∀ e ∈ excluded, e.before date → e.before later) :
    sift (excluded.dropWhile (·.before date)) dates = sift excluded dates := by
  unfold sift isExcluded
  refine List.filter_congr fun later hlater => ?_
  rw [dropWhile_dropWhile (h later hlater)]

theorem sweep_eq_sift {excluded dates : List Moment}
    (h : dates.Pairwise fun a b => ∀ e ∈ excluded, e.before a → e.before b) :
    sweep excluded dates = sift excluded dates := by
  induction dates generalizing excluded with
  | nil => rfl
  | cons date rest ih =>
    obtain ⟨hdate, hrest⟩ := List.pairwise_cons.mp h
    have hsub : ∀ e ∈ excluded.dropWhile (·.before date), e ∈ excluded := fun e he =>
      (List.dropWhile_sublist _).subset he
    rw [sweep, ih (hrest.imp fun h e he => h e (hsub e he)), sift_dropWhile hdate, sift_cons]

/-! ## After a moment -/

/-- Whether everything before a date that is not after the moment is before another one that is. -/
def Moment.Separates (now a b : Moment) : Prop :=
  ¬ now.before a → now.before b → ∀ e : Moment, e.before a → e.before b

/-- A moment of universal time separates the dates of one clock, in the order of its wall: against
another clock instants are compared, and the moment lies between them. -/
theorem Moment.separates_universal (now : WallTime) {a b : Moment} (hclock : a.clock = b.clock)
    (hab : a.wall.ticks < b.wall.ticks) : (universal now).Separates a b := by
  intro ha hb e he
  rw [before_eq (.inl rfl), decide_eq_true_eq] at ha hb
  unfold before since at he ⊢
  rw [← hclock, decide_eq_true_eq]
  rw [decide_eq_true_eq] at he
  split at he
  · next hsame =>
    rw [if_pos hsame]
    omega
  · next hsame =>
    rw [if_neg hsame]
    omega

section After

variable {now date : Moment} {excluded excluded' dates early late : List Moment}

/-- A date that is not after the moment only drops excluded dates. -/
theorem filter_sweep_cons (h : ¬ now.before date) :
    (sweep excluded (date :: dates)).filter now.before =
      (sweep (excluded.dropWhile (·.before date)) dates).filter now.before := by
  rw [sweep]
  split
  · rfl
  · exact List.filter_cons_of_neg h

/-- Which excluded dates are left matters only at the dates after the moment. -/
theorem filter_sweep_congr (hsep : dates.Pairwise now.Separates)
    (h : ∀ b ∈ dates, now.before b →
      excluded.dropWhile (·.before b) = excluded'.dropWhile (·.before b)) :
    (sweep excluded dates).filter now.before = (sweep excluded' dates).filter now.before := by
  induction dates generalizing excluded excluded' with
  | nil => rfl
  | cons a rest ih =>
    obtain ⟨ha, hrest⟩ := List.pairwise_cons.mp hsep
    by_cases hnow : now.before a
    · -- from here on the same excluded dates are left
      unfold sweep isExcluded
      rw [h a List.mem_cons_self hnow]
    · rw [filter_sweep_cons hnow, filter_sweep_cons hnow]
      refine ih hrest fun b hb hbnow => ?_
      rw [dropWhile_dropWhile fun e _ => ha b hb hnow hbnow e,
        dropWhile_dropWhile fun e _ => ha b hb hnow hbnow e, h b (List.mem_cons_of_mem _ hb) hbnow]

/-- Dates that are not after the moment do not matter for the later ones. -/
theorem filter_sweep_append (hsep : (early ++ late).Pairwise now.Separates)
    (hearly : ∀ a ∈ early, ¬ now.before a) :
    (sweep excluded (early ++ late)).filter now.before = (sweep excluded late).filter now.before := by
  induction early generalizing excluded with
  | nil => rfl
  | cons a rest ih =>
    obtain ⟨ha, hrest⟩ := List.pairwise_cons.mp hsep
    have hnow := hearly a List.mem_cons_self
    rw [List.cons_append, filter_sweep_cons hnow,
      ih hrest fun b hb => hearly b (List.mem_cons_of_mem _ hb)]
    refine filter_sweep_congr (List.pairwise_append.mp hrest).2.1 fun b hb hbnow => ?_
    exact dropWhile_dropWhile fun e _ => ha b (List.mem_append_right _ hb) hnow hbnow e

end After

namespace RuleSet

/-- The set of one rule that is to be walked on. -/
def single (walk : Walk) (excluded : List Moment) (last : Option Moment) : RuleSet :=
  ⟨[.waiting walk], [], excluded, last⟩

/-- The set of one rule of which the next date is known. -/
def singleReady (date : Moment) (walk : Walk) (excluded : List Moment) (last : Option Moment) :
    RuleSet :=
  ⟨[.ready date walk], [], excluded, last⟩

variable {w v : Walk} {excluded : List Moment} {last : Option Moment} {date : Moment}

theorem step_single_failed {e : Fault} (h : w.step = .error e) :
    step (single w excluded last) = .error e := by
  simp [step, single, Lane.advanceFirst, Lane.advance, h, bind, Except.bind]

theorem step_single_done (h : w.step = .ok .done) :
    step (single w excluded last) = .ok (.silent ⟨[], [], excluded, last⟩) := by
  simp [step, single, Lane.advanceFirst, Lane.advance, h, bind, Except.bind, pure, Except.pure]

theorem step_single_silent (h : w.step = .ok (.silent v)) :
    step (single w excluded last) = .ok (.silent (single v excluded last)) := by
  simp [step, single, Lane.advanceFirst, Lane.advance, h, bind, Except.bind, pure, Except.pure]

theorem step_single_emit (h : w.step = .ok (.emit date v)) :
    step (single w excluded last) = .ok (.silent (singleReady date v excluded last)) := by
  simp [step, single, singleReady, Lane.advanceFirst, Lane.advance, h, bind, Except.bind, pure,
    Except.pure]

theorem step_empty : step ⟨[], [], excluded, last⟩ = .ok .done := by
  simp [step, Lane.advanceFirst, Lane.earliest, bind, Except.bind, pure, Except.pure]

/-- A new date is yielded unless it is excluded. -/
theorem step_singleReady (hnew : ¬ repeats last date) :
    step (singleReady date v excluded last) = .ok
      (if isExcluded excluded date then
        .silent (single v (excluded.dropWhile (·.before date)) (some date))
      else .emit date (single v (excluded.dropWhile (·.before date)) (some date))) := by
  have hfalse : repeats last date = false := by simpa using hnew
  unfold isExcluded
  simp only [step, singleReady, Lane.advanceFirst, Lane.earliest, bind, Except.bind, pure,
    Except.pure, hfalse]
  rw [if_neg Bool.false_ne_true]
  exact (apply_ite Except.ok _ _ _).symm

/-- The trace of a set of one rule: the dates of the rule that are not excluded. A
step of the set is a step of the rule or yields a date of it. -/
theorem trace_single {n : Nat} {dates : List Moment} {fault : Option Fault}
    (h : Trace Walk.step n w dates fault) (hlast : ∀ date ∈ dates, ¬ repeats last date)
    (hnew : dates.Pairwise fun a b => ¬ a.same b) :
    ∃ k ≤ n + dates.length + fault.elim 1 fun _ => 0,
      Trace step k (single w excluded last) (sweep excluded dates) fault := by
  induction h generalizing excluded last with
  | done h => exact ⟨1, by simp, .silent (step_single_done h) (.done step_empty)⟩
  | failed h => exact ⟨1, by simp, .failed (step_single_failed h)⟩
  | silent h rest ih =>
    obtain ⟨k, hk, htrace⟩ := ih hlast hnew
    exact ⟨k + 1, by omega, .silent (step_single_silent h) htrace⟩
  | @emit n w v date dates fault h rest ih =>
    obtain ⟨hnew₁, hnew⟩ := List.pairwise_cons.mp hnew
    obtain ⟨k, hk, htrace⟩ := @ih (excluded.dropWhile (·.before date)) (some date) hnew₁ hnew
    have hready := @step_singleReady v excluded _ date (hlast date List.mem_cons_self)
    refine ⟨k + 1 + 1, by simp only [List.length_cons]; omega, ?_⟩
    refine .silent (step_single_emit h) ?_
    unfold sweep
    by_cases hout : isExcluded excluded date
    · rw [if_pos hout] at hready ⊢
      exact .silent hready htrace
    · rw [if_neg hout] at hready ⊢
      exact .emit hready htrace

end RuleSet

end ScanPolicy
