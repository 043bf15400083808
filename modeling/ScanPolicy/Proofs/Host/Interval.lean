import Mathlib.Order.Interval.Finset.Nat
import Mathlib.Data.Finset.Card
import Mathlib.Data.List.Pairwise
import ScanPolicy.Host.Exclusion

/-!
# Intervals as sets of numbers

The lists of intervals that the host modules compute with, read as finite sets
of numbers.

- `Interval.numbers`: the numbers of a list of intervals.
- `Interval.Separate`: nonempty intervals in order of which no two overlap;
  for these `Interval.total` is the size of the set (`total_eq_card`).
- `Interval.Canonical`: separate intervals of which no two touch.
  `merge_canonical` and `numbers_merge` say that merging gives the canonical
  intervals with the same numbers.
- `numbers_subtract`: subtracting intervals subtracts the sets.
-/

namespace ScanPolicy.Interval

/-- The numbers of a list of intervals. -/
def numbers : List Interval → Finset Nat
  | [] => ∅
  | i :: rest => Finset.Icc i.first i.last ∪ numbers rest

/-- Nonempty intervals in order, no two of which overlap. -/
structure Separate (is : List Interval) : Prop where
  nonempty : ∀ i ∈ is, i.first ≤ i.last
  ordered : is.Pairwise fun i j => i.last < j.first

/-- Nonempty intervals in order, no two of which overlap or touch. -/
structure Canonical (is : List Interval) : Prop where
  nonempty : ∀ i ∈ is, i.first ≤ i.last
  ordered : is.Pairwise fun i j => i.last + 1 < j.first

theorem Canonical.separate {is : List Interval} (h : Canonical is) : Separate is :=
  ⟨h.nonempty, h.ordered.imp fun hij => by omega⟩

theorem Canonical.tail {i : Interval} {rest : List Interval}
    (h : Canonical (i :: rest)) : Canonical rest :=
  ⟨fun j hj => h.nonempty j (List.mem_cons_of_mem _ hj), (List.pairwise_cons.mp h.ordered).2⟩

/-! ## Membership -/

theorem mem_numbers {n : Nat} :
    ∀ {is : List Interval}, n ∈ numbers is ↔ ∃ i ∈ is, i.first ≤ n ∧ n ≤ i.last
  | [] => by simp [numbers]
  | i :: rest => by simp [numbers, @mem_numbers n rest]

theorem mem_numbers_cons {n : Nat} {i : Interval} {rest : List Interval} :
    n ∈ numbers (i :: rest) ↔ (i.first ≤ n ∧ n ≤ i.last) ∨ n ∈ numbers rest := by
  simp [numbers]

theorem numbers_append (is js : List Interval) :
    numbers (is ++ js) = numbers is ∪ numbers js := by
  induction is with
  | nil => simp [numbers]
  | cons i rest ih => simp [numbers, ih, Finset.union_assoc]

/-- The numbers do not depend on the order of the intervals. -/
theorem numbers_perm {is js : List Interval} (h : is.Perm js) : numbers is = numbers js := by
  ext n
  simp only [mem_numbers, h.mem_iff]

/-! ## Size -/

/-- The size of the set of numbers of separate intervals is the sum of their
sizes. -/
theorem total_eq_card {is : List Interval} (h : Separate is) :
    total is = (numbers is).card := by
  induction is with
  | nil => rfl
  | cons i rest ih =>
    obtain ⟨hlater, hrest⟩ := List.pairwise_cons.mp h.ordered
    have ih' := ih ⟨fun j hj => h.nonempty j (List.mem_cons_of_mem _ hj), hrest⟩
    have hdisj : Disjoint (Finset.Icc i.first i.last) (numbers rest) := by
      rw [Finset.disjoint_left]
      intro n hn hmem
      obtain ⟨j, hj, hjn, -⟩ := mem_numbers.mp hmem
      have hij := hlater j hj
      rw [Finset.mem_Icc] at hn
      omega
    rw [numbers, Finset.card_union_of_disjoint hdisj, Nat.card_Icc, ← ih']
    rfl

/-! ## Merging -/

theorem before_iff (i j : Interval) :
    before i j = true ↔ i.first < j.first ∨ (i.first = j.first ∧ i.last ≤ j.last) := by
  simp [before]

theorem before_total (i j : Interval) : (before i j || before j i) = true := by
  rw [Bool.or_eq_true, before_iff, before_iff]
  omega

theorem before_trans (i j k : Interval) :
    before i j = true → before j k = true → before i k = true := by
  simp only [before_iff]
  omega

/-- Sorted intervals are in order of their first numbers. -/
theorem sort_ordered (is : List Interval) :
    (sort is).Pairwise fun i j => i.first ≤ j.first := by
  refine (List.pairwise_mergeSort before_trans before_total is).imp fun {i j} hij => ?_
  have := (before_iff i j).mp hij
  omega

/-- Nothing that merging builds starts before the interval being built. -/
theorem first_le_of_mem_mergeFrom {current j : Interval} {rest : List Interval}
    (h : (current :: rest).Pairwise fun i j => i.first ≤ j.first)
    (hj : j ∈ mergeFrom current rest) : current.first ≤ j.first := by
  induction rest generalizing current with
  | nil => rw [List.mem_singleton.mp hj]
  | cons i rest ih =>
    obtain ⟨hcur, hrest⟩ := List.pairwise_cons.mp h
    have hi : current.first ≤ i.first := hcur i List.mem_cons_self
    rw [mergeFrom] at hj
    split at hj
    · refine @ih ⟨current.first, max current.last i.last⟩ ?_ hj
      exact List.pairwise_cons.mpr
        ⟨fun k hk => hcur k (List.mem_cons_of_mem _ hk), (List.pairwise_cons.mp hrest).2⟩
    · rcases List.mem_cons.mp hj with rfl | hj
      · exact Nat.le_refl _
      · exact Nat.le_trans hi (ih hrest hj)

theorem mergeFrom_canonical {current : Interval} {rest : List Interval}
    (hne : ∀ i ∈ current :: rest, i.first ≤ i.last)
    (h : (current :: rest).Pairwise fun i j => i.first ≤ j.first) :
    Canonical (mergeFrom current rest) := by
  induction rest generalizing current with
  | nil => exact ⟨hne, List.pairwise_singleton _ _⟩
  | cons i rest ih =>
    obtain ⟨hcur, hrest⟩ := List.pairwise_cons.mp h
    have hc : current.first ≤ current.last := hne current List.mem_cons_self
    have htail : ∀ k ∈ i :: rest, k.first ≤ k.last :=
      fun k hk => hne k (List.mem_cons_of_mem _ hk)
    rw [mergeFrom]
    split
    · refine ih (fun k hk => ?_) (List.pairwise_cons.mpr
        ⟨fun k hk => hcur k (List.mem_cons_of_mem _ hk), (List.pairwise_cons.mp hrest).2⟩)
      rcases List.mem_cons.mp hk with rfl | hk
      · exact Nat.le_trans hc (Nat.le_max_left _ _)
      · exact htail k (List.mem_cons_of_mem _ hk)
    · next hgap =>
      have hmerged := ih htail hrest
      refine ⟨fun k hk => ?_, List.pairwise_cons.mpr ⟨fun k hk => ?_, hmerged.ordered⟩⟩
      · rcases List.mem_cons.mp hk with rfl | hk
        · exact hc
        · exact hmerged.nonempty k hk
      · have := first_le_of_mem_mergeFrom hrest hk
        omega

theorem numbers_mergeFrom {current : Interval} {rest : List Interval}
    (h : (current :: rest).Pairwise fun i j => i.first ≤ j.first) :
    numbers (mergeFrom current rest) = numbers (current :: rest) := by
  induction rest generalizing current with
  | nil => rfl
  | cons i rest ih =>
    obtain ⟨hcur, hrest⟩ := List.pairwise_cons.mp h
    have hi : current.first ≤ i.first := hcur i List.mem_cons_self
    rw [mergeFrom]
    split
    · next htouch =>
      rw [@ih ⟨current.first, max current.last i.last⟩ (List.pairwise_cons.mpr
        ⟨fun k hk => hcur k (List.mem_cons_of_mem _ hk), (List.pairwise_cons.mp hrest).2⟩)]
      ext n
      simp only [mem_numbers_cons]
      constructor
      · rintro (⟨h₁, h₂⟩ | hn)
        · by_cases hn : n ≤ current.last
          · exact .inl ⟨h₁, hn⟩
          · exact .inr (.inl ⟨by omega, by omega⟩)
        · exact .inr (.inr hn)
      · rintro (⟨h₁, h₂⟩ | ⟨h₁, h₂⟩ | hn)
        · exact .inl ⟨h₁, by show n ≤ max _ _; omega⟩
        · exact .inl ⟨by show current.first ≤ n; omega, by show n ≤ max _ _; omega⟩
        · exact .inr hn
    · rw [numbers, ih hrest]
      rfl

/-- Merging keeps the numbers. -/
theorem numbers_merge (is : List Interval) : numbers (merge is) = numbers is := by
  have hperm : numbers (sort is) = numbers is := numbers_perm (List.mergeSort_perm is before)
  have hord := sort_ordered is
  rw [← hperm, merge]
  cases hs : sort is with
  | nil => rfl
  | cons i rest =>
    rw [hs] at hord
    exact numbers_mergeFrom hord

/-- Merging nonempty intervals gives canonical ones. -/
theorem merge_canonical {is : List Interval} (hne : ∀ i ∈ is, i.first ≤ i.last) :
    Canonical (merge is) := by
  have hmem : ∀ i ∈ sort is, i.first ≤ i.last :=
    fun i hi => hne i ((List.mergeSort_perm is before).mem_iff.mp hi)
  have hord := sort_ordered is
  rw [merge]
  cases hs : sort is with
  | nil => exact ⟨by simp [mergeSorted], List.Pairwise.nil⟩
  | cons i rest =>
    rw [hs] at hord hmem
    exact mergeFrom_canonical hmem hord

/-! ## Subtracting -/

/-- The parts left of an interval lie within it and are not empty. -/
theorem bounds_of_mem_subtractFrom {i j : Interval} {excluded : List Interval}
    (hi : i.first ≤ i.last) (hex : Canonical excluded) (hj : j ∈ subtractFrom i excluded) :
    i.first ≤ j.first ∧ j.first ≤ j.last ∧ j.last ≤ i.last := by
  induction excluded generalizing i with
  | nil =>
    rw [List.mem_singleton.mp hj]
    exact ⟨Nat.le_refl _, hi, Nat.le_refl _⟩
  | cons x rest ih =>
    have hx := hex.nonempty x List.mem_cons_self
    rw [subtractFrom] at hj
    split at hj
    · exact ih hi hex.tail hj
    split at hj
    · rw [List.mem_singleton.mp hj]
      exact ⟨Nat.le_refl _, hi, Nat.le_refl _⟩
    rcases List.mem_append.mp hj with hj | hj
    · split at hj
      · rw [List.mem_singleton.mp hj]
        show i.first ≤ i.first ∧ i.first ≤ x.first - 1 ∧ x.first - 1 ≤ i.last
        omega
      · exact absurd hj List.not_mem_nil
    · split at hj
      · next hlast =>
        have := ih (i := ⟨x.last + 1, i.last⟩) hlast hex.tail hj
        simp only at this
        omega
      · exact absurd hj List.not_mem_nil

/-- The parts left of an interval are separate. -/
theorem subtractFrom_separate {i : Interval} {excluded : List Interval}
    (hi : i.first ≤ i.last) (hex : Canonical excluded) :
    Separate (subtractFrom i excluded) := by
  refine ⟨fun j hj => (bounds_of_mem_subtractFrom hi hex hj).2.1, ?_⟩
  induction excluded generalizing i with
  | nil => exact List.pairwise_singleton _ _
  | cons x rest ih =>
    have hx := hex.nonempty x List.mem_cons_self
    rw [subtractFrom]
    split
    · exact ih hi hex.tail
    split
    · exact List.pairwise_singleton _ _
    refine List.pairwise_append.mpr ⟨?_, ?_, ?_⟩
    · split <;> simp
    · split
      · next hlast => exact ih hlast hex.tail
      · exact List.Pairwise.nil
    · intro a ha b hb
      split at ha
      · split at hb
        · next hfirst hlast =>
          rw [List.mem_singleton.mp ha]
          have := (bounds_of_mem_subtractFrom (i := ⟨x.last + 1, i.last⟩) hlast hex.tail hb).1
          simp only at this ⊢
          omega
        · exact absurd hb List.not_mem_nil
      · exact absurd ha List.not_mem_nil

theorem mem_numbers_subtractFrom {i : Interval} {excluded : List Interval} {n : Nat}
    (hex : Canonical excluded) :
    n ∈ numbers (subtractFrom i excluded) ↔
      (i.first ≤ n ∧ n ≤ i.last) ∧ n ∉ numbers excluded := by
  induction excluded generalizing i with
  | nil => simp [subtractFrom, numbers]
  | cons x rest ih =>
    -- whatever is excluded later lies beyond `x`
    have hlater : n ∈ numbers rest → x.last + 1 < n := by
      intro hn
      obtain ⟨j, hj, hjn, -⟩ := mem_numbers.mp hn
      have := (List.pairwise_cons.mp hex.ordered).1 j hj
      omega
    have hx := hex.nonempty x List.mem_cons_self
    rw [subtractFrom, mem_numbers_cons]
    split
    · rw [ih hex.tail]
      constructor
      · rintro ⟨hn, hout⟩
        exact ⟨hn, by rintro (h | h) <;> [omega; exact hout h]⟩
      · rintro ⟨hn, hout⟩
        exact ⟨hn, fun h => hout (.inr h)⟩
    split
    · simp only [numbers, Finset.union_empty, Finset.mem_Icc]
      constructor
      · intro hn
        refine ⟨hn, ?_⟩
        rintro (h | h)
        · omega
        · have := hlater h
          omega
      · exact And.left
    rw [numbers_append, Finset.mem_union]
    have hleft : n ∈ numbers (if i.first < x.first then [⟨i.first, x.first - 1⟩] else []) ↔
        i.first ≤ n ∧ n < x.first := by
      split <;> simp [numbers] <;> omega
    have hright : n ∈ numbers
          (if x.last < i.last then subtractFrom ⟨x.last + 1, i.last⟩ rest else []) ↔
        (x.last < n ∧ n ≤ i.last) ∧ n ∉ numbers rest := by
      split
      · rw [ih hex.tail]
        exact Iff.rfl
      · simp only [numbers, Finset.notMem_empty, false_iff]
        omega
    rw [hleft, hright]
    constructor
    · rintro (h | ⟨h, hout⟩)
      · refine ⟨by omega, ?_⟩
        rintro (h' | h')
        · omega
        · have := hlater h'
          omega
      · exact ⟨by omega, by rintro (h' | h') <;> [omega; exact hout h']⟩
    · rintro ⟨hn, hout⟩
      by_cases hlt : n < x.first
      · exact .inl ⟨hn.1, hlt⟩
      · exact .inr ⟨⟨by omega, hn.2⟩, fun h => hout (.inr h)⟩

/-- Subtracting canonical intervals subtracts their numbers. -/
theorem numbers_subtract (is : List Interval) {excluded : List Interval}
    (hex : Canonical excluded) :
    numbers (subtract is excluded) = numbers is \ numbers excluded := by
  induction is with
  | nil => simp [subtract, numbers]
  | cons i rest ih =>
    have hcons : subtract (i :: rest) excluded =
        subtractFrom i excluded ++ subtract rest excluded := by simp [subtract]
    ext n
    rw [hcons, numbers_append, ih, Finset.mem_union, mem_numbers_subtractFrom hex,
      Finset.mem_sdiff, Finset.mem_sdiff, mem_numbers_cons]
    tauto

/-- What is left of separate intervals is separate. -/
theorem subtract_separate {is excluded : List Interval} (h : Separate is)
    (hex : Canonical excluded) : Separate (subtract is excluded) := by
  refine ⟨fun j hj => ?_, ?_⟩
  · obtain ⟨i, hi, hj⟩ := List.mem_flatMap.mp hj
    exact (bounds_of_mem_subtractFrom (h.nonempty i hi) hex hj).2.1
  · refine List.pairwise_flatMap.mpr
      ⟨fun i hi => (subtractFrom_separate (h.nonempty i hi) hex).ordered, ?_⟩
    refine h.ordered.imp_of_mem fun {i j} hi hj hij a ha b hb => ?_
    have h₁ := (bounds_of_mem_subtractFrom (h.nonempty i hi) hex ha).2.2
    have h₂ := (bounds_of_mem_subtractFrom (h.nonempty j hj) hex hb).1
    omega

/-- The number of numbers that merged intervals have outside canonical ones. -/
theorem total_subtract_merge {is excluded : List Interval}
    (hne : ∀ i ∈ is, i.first ≤ i.last) (hex : Canonical excluded) :
    total (subtract (merge is) excluded) = (numbers is \ numbers excluded).card := by
  rw [total_eq_card (subtract_separate (merge_canonical hne).separate hex),
    numbers_subtract _ hex, numbers_merge]

end ScanPolicy.Interval
