import Mathlib.Order.Bounds.Basic
import ScanPolicy.Proofs.Host.Count

/-!
# Skipping excluded addresses

The excluded addresses of a family are kept as canonical intervals: sorted, nonempty, and no two of
them touch. So one jump over an interval leads to an address that is not excluded.

- `Interval.skip_isLeast`: over canonical intervals a jump leads to the least number that is in none
  of them; `Interval.skip_skip` and `Interval.skip_monotone` follow.
- `HostAtom.HasAddress`: the addresses of an atom; `Exclusion.mem_numbers_spansOf`.
- `Exclusion.ofAtoms_spec`: the intervals that a host list excludes, and the jumps over them.
-/

namespace ScanPolicy

namespace Interval

variable {is : List Interval}

/-- After the first one of canonical intervals there is a gap of one number at least. -/
theorem Canonical.succ_last_lt {i : Interval} {rest : List Interval} (h : Canonical (i :: rest))
    {n : Nat} (hn : n ∈ numbers rest) : i.last + 1 < n := by
  obtain ⟨j, hj, hfirst, -⟩ := mem_numbers.mp hn
  have hgap := (List.pairwise_cons.mp h.ordered).1 j hj
  omega

/-- A jump leads to the least number that lies in no interval. -/
theorem skip_isLeast (h : Canonical is) (n : Nat) :
    IsLeast {m | n ≤ m ∧ m ∉ numbers is} (skip is n) := by
  induction is with
  | nil => exact ⟨⟨le_rfl, Finset.notMem_empty n⟩, fun m hm => hm.1⟩
  | cons i rest ih =>
    have hne := h.nonempty i List.mem_cons_self
    have hgap : ∀ {m}, m ∈ numbers rest → i.last + 1 < m := h.succ_last_lt
    rw [skip]
    split
    · next hbefore =>
      refine ⟨⟨le_rfl, fun hmem => ?_⟩, fun m hm => hm.1⟩
      rcases mem_numbers_cons.mp hmem with hi | hrest
      · omega
      · have := hgap hrest
        omega
    split
    · next hinside =>
      refine ⟨⟨by omega, fun hmem => ?_⟩, fun m ⟨hm, hout⟩ => ?_⟩
      · rcases mem_numbers_cons.mp hmem with hi | hrest
        · omega
        · exact lt_irrefl _ (hgap hrest)
      · by_contra hlt
        exact hout (mem_numbers_cons.mpr (.inl (by omega)))
    · next hafter =>
      -- the first interval lies before `n`, so only the others matter
      have hsame : {m | n ≤ m ∧ m ∉ numbers (i :: rest)} = {m | n ≤ m ∧ m ∉ numbers rest} := by
        ext m
        refine and_congr_right fun hm => not_congr ?_
        rw [mem_numbers_cons, or_iff_right (by omega)]
      rw [hsame]
      exact ih h.tail

theorem skip_of_notMem (h : Canonical is) {n : Nat} (hn : n ∉ numbers is) : skip is n = n :=
  le_antisymm ((skip_isLeast h n).2 ⟨le_rfl, hn⟩) (skip_isLeast h n).1.1

/-- A second jump stays where it is. -/
theorem skip_skip (h : Canonical is) (n : Nat) : skip is (skip is n) = skip is n :=
  skip_of_notMem h (skip_isLeast h n).1.2

/-- A jump from a later number does not lead to an earlier one. -/
theorem skip_monotone (h : Canonical is) : Monotone (skip is) := by
  intro m n hmn
  obtain ⟨hle, hout⟩ := (skip_isLeast h n).1
  exact (skip_isLeast h m).2 ⟨hmn.trans hle, hout⟩

end Interval

/-- Whether an atom is an interval of a family that holds a number. -/
def HostAtom.HasAddress (family : Family) (n : Nat) (a : HostAtom) : Prop :=
  a.version = family.version ∧ a.first ≤ n ∧ n ≤ a.last

namespace Exclusion

open ScanPolicy.Interval

theorem mem_spansOf {family : Family} {atoms : List HostAtom} {i : Interval} :
    i ∈ spansOf family atoms ↔
      ∃ a ∈ atoms, a.version = family.version ∧ a.first = i.first ∧ a.last = i.last := by
  unfold spansOf
  rw [List.mem_filterMap]
  refine exists_congr fun a => and_congr_right fun _ => ?_
  obtain ⟨first, last⟩ := i
  cases a with
  | hostname text name => cases family <;> simp [HostAtom.version, Family.version]
  | span kind text f low high =>
    cases f <;> cases family <;>
      simp [HostAtom.version, Family.version, HostAtom.first, HostAtom.last]

/-- The numbers of the intervals of a family are the addresses of the atoms. -/
theorem mem_numbers_spansOf {family : Family} {atoms : List HostAtom} {n : Nat} :
    n ∈ numbers (spansOf family atoms) ↔ ∃ a ∈ atoms, a.HasAddress family n := by
  rw [mem_numbers]
  constructor
  · rintro ⟨i, hi, hfirst, hlast⟩
    obtain ⟨a, ha, hversion, haFirst, haLast⟩ := mem_spansOf.mp hi
    exact ⟨a, ha, hversion, haFirst ▸ hfirst, haLast ▸ hlast⟩
  · rintro ⟨a, ha, hversion, hfirst, hlast⟩
    exact ⟨⟨a.first, a.last⟩, mem_spansOf.mpr ⟨a, ha, hversion, rfl, rfl⟩, hfirst, hlast⟩

/-- Atoms of a host list, in any order, exclude canonical intervals with the addresses of the atoms.
From any address on a jump leads to the least one that no atom has; a second jump stays there, and
jumps keep the order. -/
theorem ofAtoms_spec {expression : Text} {parsed atoms : List HostAtom}
    (hparsed : HostAtom.parseList expression = .ok parsed) (horder : atoms.Perm parsed)
    (family : Family) :
    Canonical ((ofAtoms atoms).spans family) ∧
    (∀ n, (∃ i ∈ (ofAtoms atoms).spans family, i.first ≤ n ∧ n ≤ i.last) ↔
      ∃ a ∈ atoms, a.HasAddress family n) ∧
    (∀ n, IsLeast {m | n ≤ m ∧ ∀ a ∈ atoms, ¬ a.HasAddress family m}
      ((ofAtoms atoms).skip family n)) ∧
    (∀ n, (ofAtoms atoms).skip family ((ofAtoms atoms).skip family n) =
      (ofAtoms atoms).skip family n) ∧
    Monotone ((ofAtoms atoms).skip family) := by
  have hordered : ∀ a ∈ atoms, a.Ordered :=
    fun a ha => HostAtom.parseList_ordered hparsed a (horder.mem_iff.mp ha)
  have hcanonical : Canonical ((ofAtoms atoms).spans family) := by
    rw [HostList.spans_ofAtoms]
    exact merge_canonical (HostList.spansOf_ordered hordered)
  have hnumbers : ∀ n, n ∈ numbers ((ofAtoms atoms).spans family) ↔
      ∃ a ∈ atoms, a.HasAddress family n := by
    intro n
    rw [HostList.spans_ofAtoms, numbers_merge, mem_numbers_spansOf]
  refine ⟨hcanonical, fun n => mem_numbers.symm.trans (hnumbers n), fun n => ?_,
    skip_skip hcanonical, skip_monotone hcanonical⟩
  have hfree : {m | n ≤ m ∧ ∀ a ∈ atoms, ¬ a.HasAddress family m} =
      {m | n ≤ m ∧ m ∉ numbers ((ofAtoms atoms).spans family)} := by
    ext m
    refine and_congr_right fun _ => ?_
    rw [hnumbers]
    push Not
    rfl
  rw [hfree]
  exact skip_isLeast hcanonical n

/-- A range that touches an address and has another one, in an order that is not the one given. -/
theorem ofAtoms_spec_of_touching_ranges : ∃ parsed,
    HostAtom.parseList "10.0.0.5,gw,10.0.0.4-10.0.0.7,10.0.0.3".toList = .ok parsed ∧
    (ofAtoms parsed.reverse).spans .v4 = [⟨167772163, 167772167⟩] ∧
    Canonical ((ofAtoms parsed.reverse).spans .v4) ∧
    IsLeast {m | 167772163 ≤ m ∧ ∀ a ∈ parsed.reverse, ¬ a.HasAddress .v4 m} 167772168 := by
  let parsed : List HostAtom := [.span .address "10.0.0.5".toList .v4 167772165 167772165,
    .hostname "gw".toList "gw".toList,
    .span .range "10.0.0.4-10.0.0.7".toList .v4 167772164 167772167,
    .span .address "10.0.0.3".toList .v4 167772163 167772163]
  have hparsed : HostAtom.parseList "10.0.0.5,gw,10.0.0.4-10.0.0.7,10.0.0.3".toList = .ok parsed := by
    decide +kernel
  have hspans : (ofAtoms parsed.reverse).spans .v4 = [⟨167772163, 167772167⟩] := by
    have hsorted : (spansOf .v4 parsed.reverse).Pairwise fun i j => before i j = true := by
      decide +kernel
    rw [HostList.spans_ofAtoms]
    unfold merge sort
    rw [List.mergeSort_of_pairwise hsorted]
    rfl
  have hskip : (ofAtoms parsed.reverse).skip .v4 167772163 = 167772168 := by
    unfold Exclusion.skip
    rw [hspans]
    rfl
  obtain ⟨hcanonical, -, hleast, -⟩ := ofAtoms_spec hparsed (List.reverse_perm parsed) .v4
  exact ⟨parsed, hparsed, hspans, hcanonical, hskip ▸ hleast 167772163⟩

end Exclusion

end ScanPolicy
