import Mathlib.Tactic.Common
import ScanPolicy.Recurrence.Walk

/-!
# Searches through the same dates

A search takes steps until it has what it looks for. Two searches from one state take the
same steps, so what they find can be compared.

- `yielded`: the dates that a number of steps yields.
- `search_eq_getElem?`: a search that succeeds gives one of these dates.
- `search_congr`: moments that come before the same dates find the same.
- `search_of_later`: a search for the first date after a moment succeeds if one for a later
  moment does, and finds no later date.
- `search_ok_of_le`, `search_of_further`: a search for a date goes through, and succeeds, if one
  for a further date does.
-/

namespace ScanPolicy

variable {σ : Type} {step : σ → Except Fault (Step σ)}

/-- The dates that a number of steps yields. -/
def yielded (step : σ → Except Fault (Step σ)) : Nat → σ → List Moment
  | 0, _ => []
  | fuel + 1, s =>
    match step s with
    | .error _ => []
    | .ok .done => []
    | .ok (.silent s) => yielded step fuel s
    | .ok (.emit date s) => date :: yielded step fuel s

/-! ## One search -/

/-- A date that is found is given in the end. -/
theorem search_found {now date : Moment} {fuel : Nat} {s : σ} {x : Option Moment}
    (h : search step now fuel (.found date) s = .ok x) : x = some date := by
  induction fuel generalizing s with
  | zero =>
    cases h
    rfl
  | succ fuel ih =>
    unfold search at h
    split at h
    · cases h
    · cases h
      rfl
    · exact ih h
    · split at h
      · cases h
        rfl
      · exact ih h

/-- A search that succeeds counts the dates after the moment. -/
theorem search_eq_getElem? {now : Moment} {fuel k : Nat} {s : σ} {x : Option Moment}
    (h : search step now fuel (.after k) s = .ok x) :
    x = ((yielded step fuel s).filter now.before)[k]? := by
  induction fuel generalizing s k with
  | zero =>
    cases h
    rfl
  | succ fuel ih =>
    unfold search at h
    unfold yielded
    cases hstep : step s with
    | error e =>
      rw [hstep] at h
      cases h
    | ok o =>
      rw [hstep] at h
      cases o with
      | done =>
        cases h
        rfl
      | silent next => exact ih h
      | emit date next =>
        dsimp only at h ⊢
        by_cases hnow : now.before date
        · rw [if_pos hnow] at h
          rw [List.filter_cons_of_pos hnow]
          cases k with
          | zero => exact search_found h
          | succ k => exact ih h
        · rw [if_neg hnow] at h
          rw [List.filter_cons_of_neg hnow]
          exact ih h

/-! ## Two searches -/

/-- Moments that come before the same yielded dates are searched from with one result. -/
theorem search_congr {now now' : Moment} {fuel : Nat} {sought : Sought} {s : σ}
    (h : ∀ date ∈ yielded step fuel s, now.before date = now'.before date) :
    search step now fuel sought s = search step now' fuel sought s := by
  induction fuel generalizing sought s with
  | zero => rfl
  | succ fuel ih =>
    unfold yielded at h
    unfold search
    cases hstep : step s with
    | error e => rfl
    | ok o =>
      rw [hstep] at h
      cases o with
      | done => rfl
      | silent next => exact ih h
      | emit date next =>
        obtain ⟨hdate, hnext⟩ := List.forall_mem_cons.mp h
        dsimp only
        rw [hdate]
        split
        · cases sought with
          | found date => rfl
          | after k =>
            cases k with
            | zero => exact ih hnext
            | succ k => exact ih hnext
        · exact ih hnext

section

variable {now later : Moment} (hlater : ∀ date, later.before date → now.before date)

include hlater

/-- What is found for a moment is given if the search for a later moment goes through. -/
theorem search_found_of_later {fuel : Nat} {sought : Sought} {s : σ} {x : Option Moment}
    (h : search step later fuel sought s = .ok x) (date : Moment) :
    search step now fuel (.found date) s = .ok (some date) := by
  induction fuel generalizing s sought with
  | zero => rfl
  | succ fuel ih =>
    unfold search at h ⊢
    cases hstep : step s with
    | error e =>
      rw [hstep] at h
      cases h
    | ok o =>
      rw [hstep] at h
      cases o with
      | done => rfl
      | silent next => exact ih h
      | emit found next =>
        dsimp only at h ⊢
        by_cases hnow : now.before found
        · rw [if_pos hnow]
        · rw [if_neg hnow]
          rw [if_neg fun hafter => hnow (hlater found hafter)] at h
          exact ih h

/-- The first date after a moment is the first one after a later moment, or is not after that
moment. -/
theorem search_of_later {fuel : Nat} {s : σ} {m : Moment}
    (h : search step later fuel (.after 0) s = .ok (some m)) :
    ∃ first, search step now fuel (.after 0) s = .ok (some first) ∧
      (first = m ∨ ¬ later.before first) := by
  induction fuel generalizing s with
  | zero => cases h
  | succ fuel ih =>
    unfold search at h ⊢
    cases hstep : step s with
    | error e =>
      rw [hstep] at h
      cases h
    | ok o =>
      rw [hstep] at h
      cases o with
      | done => cases h
      | silent next => exact ih h
      | emit date next =>
        dsimp only at h ⊢
        by_cases hafter : later.before date
        · -- it is the first date after both moments
          rw [if_pos hafter] at h
          rw [if_pos (hlater date hafter)]
          exact ⟨date, search_found_of_later hlater h date,
            .inl (Option.some.inj (search_found h)).symm⟩
        · rw [if_neg hafter] at h
          by_cases hnow : now.before date
          · -- the date lies between the moments; the later search goes on
            rw [if_pos hnow]
            exact ⟨date, search_found_of_later hlater h date, .inr hafter⟩
          · rw [if_neg hnow]
            exact ih h

end

/-- If the search for a further date goes through, those for all earlier ones do. -/
theorem search_ok_of_le {now : Moment} {fuel j k : Nat} (hjk : j ≤ k) {s : σ} {x : Option Moment}
    (h : search step now fuel (.after k) s = .ok x) :
    ∃ y, search step now fuel (.after j) s = .ok y := by
  induction fuel generalizing s j k with
  | zero => exact ⟨_, rfl⟩
  | succ fuel ih =>
    unfold search at h ⊢
    cases hstep : step s with
    | error e =>
      rw [hstep] at h
      cases h
    | ok o =>
      rw [hstep] at h
      cases o with
      | done => exact ⟨_, rfl⟩
      | silent next => exact ih hjk h
      | emit date next =>
        dsimp only at h ⊢
        by_cases hnow : now.before date
        · rw [if_pos hnow] at h ⊢
          cases j with
          | zero =>
            cases k with
            | zero => exact ⟨x, h⟩
            | succ k => exact ⟨_, search_found_of_later (fun _ hdate => hdate) h date⟩
          | succ j =>
            cases k with
            | zero => omega
            | succ k => exact ih (Nat.le_of_succ_le_succ hjk) h
        · rw [if_neg hnow] at h ⊢
          exact ih hjk h

/-- If a further date is found, all earlier ones are. -/
theorem search_of_further {now : Moment} {fuel j k : Nat} (hjk : j < k) {s : σ} {n : Moment}
    (h : search step now fuel (.after k) s = .ok (some n)) :
    ∃ m, search step now fuel (.after j) s = .ok (some m) := by
  obtain ⟨y, hy⟩ := search_ok_of_le (Nat.le_of_lt hjk) h
  obtain ⟨hlt, -⟩ := List.getElem?_eq_some_iff.mp (search_eq_getElem? h).symm
  rw [search_eq_getElem? hy, List.getElem?_eq_getElem (Nat.lt_trans hjk hlt)] at hy
  exact ⟨_, hy⟩

end ScanPolicy
