import Mathlib.Data.List.Pairwise
import Mathlib.Data.Nat.Basic
import Mathlib.Data.Int.Order.Basic
import Mathlib.Order.Lattice
import Mathlib.Tactic.Tauto
import ScanPolicy.Recurrence.Rule

/-!
# Increasing lists

`Rule.increasing` sorts a list and drops repetitions. For a linear order it
keeps the members (`mem_increasing`), and every two of its values are in order
(`increasing_pairwise`). A list that is increasing already stays as it is
(`increasing_of_pairwise`), so putting numbers in order twice changes nothing.
-/

namespace ScanPolicy.Rule

section LinearOrder

variable {α : Type} [BEq α] {lt : α → α → Bool}

theorem mem_insertNew [LawfulBEq α] {a b : α} {xs : List α} : b ∈ insertNew lt a xs ↔ b = a ∨ b ∈ xs := by
  induction xs with
  | nil => simp [insertNew]
  | cons x rest ih =>
    rw [insertNew]
    split
    · simp
    split
    · next hax =>
      rw [eq_of_beq hax]
      simp
    · rw [List.mem_cons, ih, List.mem_cons]
      tauto

/-- Putting values in order keeps them. -/
theorem mem_increasing [LawfulBEq α] {b : α} {xs : List α} : b ∈ increasing lt xs ↔ b ∈ xs := by
  induction xs with
  | nil => simp [increasing]
  | cons x rest ih =>
    show b ∈ insertNew lt x (increasing lt rest) ↔ _
    rw [mem_insertNew, ih, List.mem_cons]

theorem increasing_eq_nil_iff [LawfulBEq α] {xs : List α} : increasing lt xs = [] ↔ xs = [] := by
  simp only [List.eq_nil_iff_forall_not_mem, mem_increasing]

theorem insertNew_pairwise [LawfulBEq α]
    (htrans : ∀ a b c, lt a b = true → lt b c = true → lt a c = true)
    (htotal : ∀ a b, lt a b = false → (a == b) = false → lt b a = true) {a : α} {xs : List α}
    (h : xs.Pairwise fun x y => lt x y = true) :
    (insertNew lt a xs).Pairwise fun x y => lt x y = true := by
  induction xs with
  | nil => exact List.pairwise_singleton _ _
  | cons x rest ih =>
    obtain ⟨hx, hrest⟩ := List.pairwise_cons.mp h
    rw [insertNew]
    split
    · next hax =>
      refine List.pairwise_cons.mpr ⟨fun y hy => ?_, h⟩
      rcases List.mem_cons.mp hy with rfl | hy
      · exact hax
      · exact htrans a x y hax (hx y hy)
    split
    · exact h
    · next hax hne =>
      refine List.pairwise_cons.mpr ⟨fun y hy => ?_, ih hrest⟩
      rcases mem_insertNew.mp hy with rfl | hy
      · exact htotal _ _ (Bool.eq_false_iff.mpr hax) (Bool.eq_false_iff.mpr hne)
      · exact hx y hy

theorem increasing_pairwise [LawfulBEq α]
    (htrans : ∀ a b c, lt a b = true → lt b c = true → lt a c = true)
    (htotal : ∀ a b, lt a b = false → (a == b) = false → lt b a = true) (xs : List α) :
    (increasing lt xs).Pairwise fun x y => lt x y = true := by
  induction xs with
  | nil => exact List.Pairwise.nil
  | cons x rest ih => exact insertNew_pairwise htrans htotal ih

theorem increasing_lt [LawfulBEq α] [LinearOrder α] (xs : List α) :
    (increasing (fun a b => decide (a < b)) xs).Pairwise (· < ·) := by
  refine (increasing_pairwise (fun a b c => ?_) (fun a b => ?_) xs).imp fun h => of_decide_eq_true h
  · simp only [decide_eq_true_eq]
    exact lt_trans
  · simp only [decide_eq_false_iff_not, decide_eq_true_eq, beq_eq_false_iff_ne]
    exact fun hle hne => lt_of_le_of_ne (not_lt.mp hle) (Ne.symm hne)

/-- An increasing list is in order already. -/
theorem increasing_of_pairwise {xs : List α} (h : xs.Pairwise fun x y => lt x y = true) :
    increasing lt xs = xs := by
  induction xs with
  | nil => rfl
  | cons x rest ih =>
    obtain ⟨hx, hrest⟩ := List.pairwise_cons.mp h
    show insertNew lt x (increasing lt rest) = _
    rw [ih hrest]
    cases rest with
    | nil => rfl
    | cons y more => rw [insertNew, if_pos (hx y List.mem_cons_self)]

end LinearOrder

/-! ## Numbers -/

theorem increasing_nat (xs : List Nat) :
    (increasing (fun a b => decide (a < b)) xs).Pairwise (· < ·) := increasing_lt xs

theorem sortedInts_pairwise (xs : List Int) : (sortedInts xs).Pairwise (· < ·) := increasing_lt xs

@[simp] theorem mem_sortedInts {n : Int} {xs : List Int} : n ∈ sortedInts xs ↔ n ∈ xs :=
  mem_increasing

theorem sortedInts_eq_nil_iff {xs : List Int} : sortedInts xs = [] ↔ xs = [] :=
  increasing_eq_nil_iff

theorem sortedInts_of_pairwise {xs : List Int} (h : xs.Pairwise (· < ·)) : sortedInts xs = xs :=
  increasing_of_pairwise (h.imp fun h => by simpa using h)

/-- Putting numbers in order twice is putting them in order. -/
@[simp] theorem sortedInts_sortedInts (xs : List Int) :
    sortedInts (sortedInts xs) = sortedInts xs :=
  sortedInts_of_pairwise (sortedInts_pairwise xs)

end ScanPolicy.Rule
