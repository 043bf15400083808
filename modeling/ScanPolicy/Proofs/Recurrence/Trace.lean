import Mathlib.Tactic.Common
import ScanPolicy.Recurrence.Walk

/-!
# Traces of walks

A search takes one step after another until it has what it looks for, so what it
finds depends only on the dates that the steps yield and on how they end.

- `Trace`: the dates of a walk, the fault that breaks it off if one does, and the
  number of steps before the end.
- `Sought.outcome`: what a search finds among some dates.
- `search_of_trace`: a search with enough steps finds the outcome of the trace.
-/

namespace ScanPolicy

/-- From state `s` on, the steps yield the given dates; then the walk ends, or a
fault breaks it off. The last step counts only if it is a fault, as a search that
has no steps left and one that reaches the end give the same. -/
inductive Trace {σ : Type} (step : σ → Except Fault (Step σ)) :
    Nat → σ → List Moment → Option Fault → Prop
  | done {s : σ} (h : step s = .ok .done) : Trace step 0 s [] none
  | failed {s : σ} {e : Fault} (h : step s = .error e) : Trace step 1 s [] (some e)
  | silent {n : Nat} {s t : σ} {dates : List Moment} {fault : Option Fault}
      (h : step s = .ok (.silent t)) (rest : Trace step n t dates fault) :
      Trace step (n + 1) s dates fault
  | emit {n : Nat} {s t : σ} {date : Moment} {dates : List Moment} {fault : Option Fault}
      (h : step s = .ok (.emit date t)) (rest : Trace step n t dates fault) :
      Trace step (n + 1) s (date :: dates) fault

/-- What a search finds among the dates of a walk that ends with or without a
fault. A fault after the sought date counts too if no later date comes before
it, as one more date is looked at before the sought one is given. -/
def Sought.outcome (now : Moment) : Sought → List Moment → Option Fault →
    Except Fault (Option Moment)
  | .after k, dates, fault =>
    match fault with
    | none => .ok (dates.filter now.before)[k]?
    | some e =>
      if (dates.filter now.before).length ≤ k + 1 then .error e
      else .ok (dates.filter now.before)[k]?
  | .found date, dates, fault =>
    match fault with
    | none => .ok (some date)
    | some e => if dates.filter now.before = [] then .error e else .ok (some date)

namespace Sought

variable {now : Moment}

theorem outcome_nil_none (sought : Sought) : sought.outcome now [] none = .ok sought.result := by
  cases sought <;> rfl

theorem outcome_nil_some (sought : Sought) (e : Fault) :
    sought.outcome now [] (some e) = .error e := by
  cases sought with
  | found date => rfl
  | after k =>
    simp [outcome]

/-- Only the dates after the moment matter. -/
theorem outcome_congr {dates dates' : List Moment}
    (h : dates.filter now.before = dates'.filter now.before) (sought : Sought) (fault : Option Fault) :
    sought.outcome now dates fault = sought.outcome now dates' fault := by
  cases sought <;> cases fault <;> simp only [outcome, h]

/-- What is found is one of the dates. -/
theorem mem_of_outcome {k : Nat} {dates : List Moment} {fault : Option Fault} {m : Moment}
    (h : (after k).outcome now dates fault = .ok (some m)) : m ∈ dates := by
  have hmem : (dates.filter now.before)[k]? = some m := by
    unfold outcome at h
    cases fault with
    | none => exact Except.ok.inj h
    | some e =>
      dsimp only at h
      split at h
      · cases h
      · exact Except.ok.inj h
  exact (List.mem_filter.mp (List.mem_of_getElem? hmem)).1

/-- A date that is not after the moment does not matter. -/
theorem outcome_cons_of_not_before {date : Moment} (h : ¬ now.before date) (sought : Sought)
    (dates : List Moment) (fault : Option Fault) :
    sought.outcome now (date :: dates) fault = sought.outcome now dates fault := by
  cases sought <;> simp [outcome, h]

/-- A search that goes on after a date has found one more. -/
theorem outcome_after_zero_cons {date : Moment} (h : now.before date) (dates : List Moment)
    (fault : Option Fault) :
    (after 0).outcome now (date :: dates) fault = (found date).outcome now dates fault := by
  cases fault with
  | none => simp [outcome, h]
  | some e =>
    by_cases hnil : dates.filter now.before = []
    · simp [outcome, h, hnil]
    · have hlen : ¬ (dates.filter now.before).length + 1 ≤ 1 := by
        have := List.length_pos_iff.mpr hnil
        omega
      simp only [outcome, List.filter_cons_of_pos h, List.length_cons, List.getElem?_cons_zero]
      rw [if_neg hnil, if_neg hlen]

theorem outcome_after_succ_cons {date : Moment} (h : now.before date) (k : Nat)
    (dates : List Moment) (fault : Option Fault) :
    (after (k + 1)).outcome now (date :: dates) fault = (after k).outcome now dates fault := by
  cases fault with
  | none => simp [outcome, h]
  | some e => simp [outcome, h]

theorem outcome_found_cons {date first : Moment} (h : now.before date) (dates : List Moment)
    (fault : Option Fault) :
    (found first).outcome now (date :: dates) fault = .ok (some first) := by
  cases fault <;> simp [outcome, h]

end Sought

/-- A search with enough steps finds the outcome of the trace. -/
theorem search_of_trace {σ : Type} {step : σ → Except Fault (Step σ)} {n : Nat} {s : σ}
    {dates : List Moment} {fault : Option Fault} (h : Trace step n s dates fault) (now : Moment)
    {fuel : Nat} (hfuel : n ≤ fuel) (sought : Sought) :
    search step now fuel sought s = sought.outcome now dates fault := by
  induction h generalizing fuel sought with
  | done h =>
    rw [Sought.outcome_nil_none]
    cases fuel with
    | zero => rfl
    | succ fuel =>
      unfold search
      rw [h]
  | failed h =>
    obtain ⟨fuel, rfl⟩ := Nat.exists_eq_add_of_le' hfuel
    rw [Sought.outcome_nil_some]
    unfold search
    rw [h]
  | silent h rest ih =>
    obtain ⟨fuel, rfl⟩ := Nat.exists_eq_add_of_le' (Nat.le_trans (Nat.le_add_left 1 _) hfuel)
    unfold search
    rw [h]
    exact ih (by omega) sought
  | @emit n s t date dates fault h rest ih =>
    obtain ⟨fuel, rfl⟩ := Nat.exists_eq_add_of_le' (Nat.le_trans (Nat.le_add_left 1 _) hfuel)
    unfold search
    rw [h]
    by_cases hnow : now.before date
    · simp only [hnow, if_true]
      match sought with
      | .found first => rw [Sought.outcome_found_cons hnow]
      | .after 0 =>
        rw [Sought.outcome_after_zero_cons hnow]
        exact ih (by omega) (.found date)
      | .after (k + 1) =>
        rw [Sought.outcome_after_succ_cons hnow]
        exact ih (by omega) (.after k)
    · rw [Sought.outcome_cons_of_not_before hnow]
      simp only [hnow]
      exact ih (by omega) sought

end ScanPolicy
