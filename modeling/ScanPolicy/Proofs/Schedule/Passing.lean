import ScanPolicy.Proofs.Schedule.Enumeration

/-!
# Passing over excluded numbers

A number of steps from `index` on leads to a number that is not excluded and has that many numbers
before it that are not excluded either. It can be found in rounds: each round passes over the
excluded numbers up to where the last round has led, and the first round that leads nowhere else has
found it.

- `Plain.remaining`: how many numbers are not excluded; `Plain.Reached.unique`.
- `Plain.reach`: one round; `Plain.settle`: the rounds.
- `Plain.settle_eq_advance`: the rounds end, and they end where `Plain.advance` leads.
- `Plain.advance_unique`: the number reached.
-/

namespace ScanPolicy

namespace Plain

variable {excluded : List Nat} {index steps : Nat}

/-! ## Numbers that remain -/

/-- How many numbers from `index` up to `last`, without `last`, are not excluded. -/
def remaining (excluded : List Nat) (index last : Nat) : Nat :=
  ((Finset.Ico index last).filter (· ∉ excluded)).card

theorem remaining_mono {m n : Nat} (h : m ≤ n) : remaining excluded index m ≤ remaining excluded index n :=
  Finset.card_le_card (Finset.filter_subset_filter _ (Finset.Ico_subset_Ico_right h))

theorem remaining_succ {n : Nat} (hindex : index ≤ n) (hn : n ∉ excluded) :
    remaining excluded index (n + 1) = remaining excluded index n + 1 := by
  unfold remaining
  rw [Nat.Ico_succ_right_eq_insert_Ico hindex, Finset.filter_insert, if_pos hn,
    Finset.card_insert_of_notMem (by simp)]

theorem Reached.remaining_succ {r : Nat} (h : Reached index steps excluded r) :
    remaining excluded index (r + 1) = steps + 1 := by
  rw [Plain.remaining_succ h.le h.notMem]
  exact congrArg (· + 1) h.count

theorem Reached.not_lt {r s : Nat} (hr : Reached index steps excluded r)
    (hs : Reached index steps excluded s) : ¬ r < s := by
  intro hlt
  have hmono : remaining excluded index (r + 1) ≤ remaining excluded index s := remaining_mono hlt
  have hcount : remaining excluded index s = steps := hs.count
  rw [hr.remaining_succ] at hmono
  omega

/-- Only one number is reached. -/
theorem Reached.unique {r s : Nat} (hr : Reached index steps excluded r)
    (hs : Reached index steps excluded s) : r = s :=
  le_antisymm (Nat.le_of_not_lt (hs.not_lt hr)) (Nat.le_of_not_lt (hr.not_lt hs))

/-! ## Rounds -/

/-- Where a round leads if the last one has led to `target`: as many numbers further than the steps as
excluded numbers from `index` on are not after `target`. -/
def reach (index steps : Nat) (excluded : List Nat) (target : Nat) : Nat :=
  index + steps + (excluded.countP (· ≤ target) - excluded.countP (· < index))

/-- The rounds from `target` on, until one leads nowhere else; none if there are not enough. -/
def settle (index steps : Nat) (excluded : List Nat) : Nat → Nat → Option Nat
  | 0, _ => none
  | rounds + 1, target =>
    if reach index steps excluded target = target then some target
    else settle index steps excluded rounds (reach index steps excluded target)

theorem reach_mono {s t : Nat} (h : s ≤ t) :
    reach index steps excluded s ≤ reach index steps excluded t := by
  have hcount : excluded.countP (· ≤ s) ≤ excluded.countP (· ≤ t) :=
    List.countP_mono_left fun e _ he => decide_eq_true ((of_decide_eq_true he).trans h)
  unfold reach
  omega

theorem le_reach (index steps : Nat) (excluded : List Nat) (target : Nat) :
    index + steps ≤ reach index steps excluded target :=
  Nat.le_add_right _ _

theorem reach_le (index steps : Nat) (excluded : List Nat) (target : Nat) :
    reach index steps excluded target ≤ index + steps + excluded.length := by
  have hcount : excluded.countP (· ≤ target) ≤ excluded.length := List.countP_le_length
  unfold reach
  omega

/-- The excluded numbers from `index` up to `target` are those up to `target` less those before
`index`. -/
theorem countP_between (excluded : List Nat) {index target : Nat} (h : index ≤ target + 1) :
    excluded.countP (· ≤ target) =
      excluded.countP (· < index) + excluded.countP fun e => index ≤ e ∧ e ≤ target := by
  induction excluded with
  | nil => rfl
  | cons e rest ih =>
    rw [List.countP_cons, List.countP_cons, List.countP_cons, ih]
    simp only [decide_eq_true_eq]
    split <;> split <;> split <;> omega

theorem countP_add_remaining (hsorted : excluded.Pairwise (· < ·)) (index target : Nat) :
    (excluded.countP fun e => index ≤ e ∧ e ≤ target) + remaining excluded index (target + 1) =
      target + 1 - index := by
  have hnodup : (excluded.filter fun e => index ≤ e ∧ e ≤ target).Nodup :=
    (hsorted.imp fun hlt => ne_of_lt hlt).filter _
  have hset : (excluded.filter fun e => index ≤ e ∧ e ≤ target).toFinset =
      (Finset.Ico index (target + 1)).filter (· ∈ excluded) := by
    ext e
    simp only [List.mem_toFinset, List.mem_filter, Finset.mem_filter, Finset.mem_Ico,
      decide_eq_true_eq, Nat.lt_succ_iff]
    exact and_comm
  rw [List.countP_eq_length_filter, ← List.toFinset_card_of_nodup hnodup, hset, remaining,
    Finset.card_filter_add_card_filter_not, Nat.card_Ico]

/-- A round leads on by what is excluded, that is, by what does not remain. -/
theorem reach_add_remaining (hsorted : excluded.Pairwise (· < ·)) (steps : Nat) {target : Nat}
    (h : index ≤ target + 1) :
    reach index steps excluded target + remaining excluded index (target + 1) = target + 1 + steps := by
  have hsplit := countP_between excluded h
  have hcount := countP_add_remaining hsorted index target
  unfold reach
  omega

/-- A round from the number reached leads nowhere else. -/
theorem Reached.reach_eq {r : Nat} (hsorted : excluded.Pairwise (· < ·))
    (h : Reached index steps excluded r) : reach index steps excluded r = r := by
  have hsum := reach_add_remaining hsorted steps (Nat.le_succ_of_le h.le)
  rw [h.remaining_succ] at hsum
  omega

/-- A round from an earlier number leads on. -/
theorem Reached.reach_ne {r target : Nat} (hsorted : excluded.Pairwise (· < ·))
    (h : Reached index steps excluded r) (hindex : index ≤ target) (hlt : target < r) :
    reach index steps excluded target ≠ target := by
  intro hfixed
  have hsum := reach_add_remaining hsorted steps (Nat.le_succ_of_le hindex)
  have hmono : remaining excluded index (target + 1) ≤ remaining excluded index r :=
    remaining_mono hlt
  have hcount : remaining excluded index r = steps := h.count
  omega

/-- The rounds find the number reached. Each one that does not end them comes nearer to it, so there
are no more of them than numbers on the way. -/
theorem Reached.settle_eq {r rounds target : Nat} (hsorted : excluded.Pairwise (· < ·))
    (h : Reached index steps excluded r) (hfrom : index + steps ≤ target) (hto : target ≤ r)
    (hon : target ≤ reach index steps excluded target) (hrounds : r < target + rounds) :
    settle index steps excluded rounds target = some r := by
  induction rounds generalizing target with
  | zero => omega
  | succ rounds ih =>
    unfold settle
    rcases Nat.eq_or_lt_of_le hto with rfl | hlt
    · rw [if_pos (h.reach_eq hsorted)]
    · have hne := h.reach_ne hsorted (by omega) hlt
      have hle : reach index steps excluded target ≤ r :=
        (reach_mono hto).trans_eq (h.reach_eq hsorted)
      rw [if_neg hne]
      exact ih (le_reach _ _ _ _) hle (reach_mono hon) (by omega)

/-- The rounds end, with one more of them than numbers are excluded at most, where `advance` leads. -/
theorem settle_eq_advance (hsorted : excluded.Pairwise (· < ·)) (index steps : Nat) :
    settle index steps excluded (excluded.length + 1) (index + steps) =
      some (advance index steps excluded) := by
  have hreached := advance_spec hsorted index steps
  have hfixed := hreached.reach_eq hsorted
  have hlimit := reach_le index steps excluded (advance index steps excluded)
  have hfirst := le_reach index steps excluded (advance index steps excluded)
  exact hreached.settle_eq hsorted le_rfl (by omega) (le_reach _ _ _ _) (by omega)

/-- Rounds find the number that `advance` reaches, one more of them than numbers are excluded at most.
It is the only number from `index` on that is not excluded and before which exactly `steps` numbers
from `index` on are not excluded. -/
theorem advance_unique (hsorted : excluded.Pairwise (· < ·)) (index steps : Nat) :
    settle index steps excluded (excluded.length + 1) (index + steps) =
      some (advance index steps excluded) ∧
    ∀ r, (index ≤ r ∧ r ∉ excluded ∧ ((Finset.Ico index r).filter (· ∉ excluded)).card = steps) ↔
      r = advance index steps excluded := by
  have hreached := advance_spec hsorted index steps
  refine ⟨settle_eq_advance hsorted index steps, fun r => ⟨?_, ?_⟩⟩
  · rintro ⟨hle, hnot, hcount⟩
    exact Reached.unique ⟨hle, hnot, hcount⟩ hreached
  · rintro rfl
    exact ⟨hreached.le, hreached.notMem, hreached.count⟩

/-- From two on, three remains and then six: four and five are excluded, and the way leads over both. -/
theorem advance_unique_of_chain :
    settle 2 1 [2, 4, 5, 7] 5 3 = some 6 ∧
    ∀ r, (2 ≤ r ∧ r ∉ [2, 4, 5, 7] ∧ ((Finset.Ico 2 r).filter (· ∉ [2, 4, 5, 7])).card = 1) ↔
      r = 6 :=
  advance_unique (by decide) 2 1

end Plain

end ScanPolicy
