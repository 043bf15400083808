import Mathlib
import ScanPolicy.Schedule.Plain

/-!
# The further elements of a sequence

A source of dates is a set of points of time, taken in order. `NthAfter` says
which element comes `k` elements after the first one that is later than a
moment; it determines that element (`NthAfter.unique`).

- `nthAfter_of_increasing`: the further elements of an increasing list are the
  members of the list that are later, in order.
- `exists_lt_iff`: a property that passes to smaller numbers ends somewhere.
- `nthAfter_of_index`: if the elements are numbered and some numbers are left
  out, the further element is found by its number.
- `Plain.advance_spec`: the number that `Plain.advance` reaches.
-/

namespace ScanPolicy

/-- `t` is the element of `S` after `now` with exactly `k` elements between
them; there is none if at most `k` elements come after `now`. -/
def NthAfter (S : Set Int) (now : Int) (k : Nat) : Option Int → Prop
  | some t => t ∈ S ∧ now < t ∧ (S ∩ Set.Ioo now t).ncard = k
  | none => (S ∩ Set.Ioi now).Finite ∧ (S ∩ Set.Ioi now).ncard ≤ k

namespace NthAfter

variable {S : Set Int} {now : Int} {k : Nat}

/-- Of two elements, the later one has more elements before it. -/
theorem ncard_lt {s t : Int} (hs : s ∈ S) (hnow : now < s) (hst : s < t) :
    (S ∩ Set.Ioo now s).ncard < (S ∩ Set.Ioo now t).ncard := by
  refine Set.ncard_lt_ncard ?_ ((Set.finite_Ioo now t).inter_of_right S)
  refine ⟨fun x hx => ⟨hx.1, hx.2.1, hx.2.2.trans hst⟩, fun hsub => ?_⟩
  exact lt_irrefl s (hsub ⟨hs, hnow, hst⟩).2.2

/-- No element has `k` elements before it if at most `k` come after `now`. -/
theorem none_unique {t : Int} (h₀ : NthAfter S now k none) (h : NthAfter S now k (some t)) :
    False := by
  obtain ⟨hfin, hle⟩ := h₀
  obtain ⟨ht, hnow, hcard⟩ := h
  have hlt : (S ∩ Set.Ioo now t).ncard < (S ∩ Set.Ioi now).ncard := by
    refine Set.ncard_lt_ncard ⟨fun x hx => ⟨hx.1, hx.2.1⟩, fun hsub => ?_⟩ hfin
    exact lt_irrefl t (hsub ⟨ht, hnow⟩).2.2
  omega

/-- There is one answer. -/
theorem unique : ∀ {a b : Option Int}, NthAfter S now k a → NthAfter S now k b → a = b
  | none, none, _, _ => rfl
  | none, some _, h₀, h => (none_unique h₀ h).elim
  | some _, none, h, h₀ => (none_unique h₀ h).elim
  | some s, some t, ⟨hs, hns, hcs⟩, ⟨ht, hnt, hct⟩ => by
    rcases lt_trichotomy s t with h | h | h
    · have := ncard_lt hs hns h
      omega
    · rw [h]
    · have := ncard_lt ht hnt h
      omega

/-- The first element after `now` is before all others. -/
theorem first_le {s t : Int} (h : NthAfter S now 0 (some t)) (hs : s ∈ S) (hns : now < s) :
    t ≤ s := by
  obtain ⟨-, -, hcard⟩ := h
  by_contra hlt
  have hempty := (Set.ncard_eq_zero ((Set.finite_Ioo now t).inter_of_right S)).mp hcard
  have : s ∈ S ∩ Set.Ioo now t := ⟨hs, hns, not_le.mp hlt⟩
  rw [hempty] at this
  exact this

/-- If there is no first element after `now`, there is none at all. -/
theorem none_first {s : Int} (h : NthAfter S now 0 none) (hs : s ∈ S) : s ≤ now := by
  obtain ⟨hfin, hcard⟩ := h
  by_contra hlt
  have hempty := (Set.ncard_eq_zero hfin).mp (Nat.le_zero.mp hcard)
  have : s ∈ S ∩ Set.Ioi now := ⟨hs, not_le.mp hlt⟩
  rw [hempty] at this
  exact this

end NthAfter

/-! ## Increasing lists -/

/-- The members of an increasing list before one of its places are those at
earlier places. -/
theorem mem_take_iff_lt {xs : List Int} (h : xs.Pairwise (· < ·)) {k : Nat} (hk : k < xs.length)
    {x : Int} : x ∈ xs.take k ↔ x ∈ xs ∧ x < xs[k] := by
  have hsplit : xs = xs.take k ++ xs[k] :: xs.drop (k + 1) := by
    rw [List.getElem_cons_drop, List.take_append_drop]
  rw [hsplit] at h
  obtain ⟨-, htail, hcross⟩ := List.pairwise_append.mp h
  constructor
  · intro hx
    exact ⟨List.mem_of_mem_take hx, hcross x hx _ List.mem_cons_self⟩
  · rintro ⟨hx, hlt⟩
    rw [hsplit, List.mem_append, List.mem_cons] at hx
    rcases hx with hx | rfl | hx
    · exact hx
    · exact absurd hlt (lt_irrefl _)
    · exact absurd ((List.pairwise_cons.mp htail).1 x hx) (not_lt.mpr (le_of_lt hlt))

/-- The further elements of an increasing list. -/
theorem nthAfter_of_increasing {xs : List Int} (h : xs.Pairwise (· < ·)) (now : Int) (k : Nat) :
    NthAfter {t | t ∈ xs} now k (xs.filter (now < ·))[k]? := by
  have hF : (xs.filter (now < ·)).Pairwise (· < ·) := h.filter _
  have hmem : ∀ x, x ∈ xs.filter (now < ·) ↔ x ∈ xs ∧ now < x := fun x => by simp
  generalize xs.filter (now < ·) = F at hF hmem
  have hcard : ∀ l : List Int, l.Pairwise (· < ·) → (l.toFinset : Set Int).ncard = l.length :=
    fun l hl => by
      rw [Set.ncard_coe_finset, List.toFinset_card_of_nodup (hl.imp fun h => ne_of_lt h)]
  by_cases hk : k < F.length
  · rw [List.getElem?_eq_getElem hk]
    obtain ⟨hx, hnow⟩ := (hmem _).mp (List.getElem_mem hk)
    refine ⟨hx, hnow, ?_⟩
    have hset : {t | t ∈ xs} ∩ Set.Ioo now F[k] = ((F.take k).toFinset : Set Int) := by
      ext x
      simp only [Set.mem_inter_iff, Set.mem_ofPred_eq, Set.mem_Ioo, List.coe_toFinset,
        mem_take_iff_lt hF hk, hmem]
      tauto
    rw [hset, hcard _ (hF.sublist (List.take_sublist _ _)), List.length_take]
    omega
  · rw [List.getElem?_eq_none (not_lt.mp hk)]
    have hset : {t | t ∈ xs} ∩ Set.Ioi now = (F.toFinset : Set Int) := by
      ext x
      simp only [Set.mem_inter_iff, Set.mem_ofPred_eq, Set.mem_Ioi, List.coe_toFinset, hmem]
    refine ⟨hset ▸ Finset.finite_toSet _, ?_⟩
    rw [hset, hcard _ hF]
    omega

/-! ## Numbered elements -/

/-- The numbers with a property that passes to smaller numbers are those below some number. -/
theorem exists_lt_iff {P : Nat → Prop} (hP : ∀ i j, i ≤ j → P j → P i) {late : Nat}
    (hlate : ¬ P late) : ∃ n ≤ late, ∀ i, i < n ↔ P i := by
  classical
  have hex : ∃ i, ¬ P i := ⟨late, hlate⟩
  refine ⟨Nat.find hex, Nat.find_min' hex hlate, fun i => ⟨fun hi => ?_, fun h => ?_⟩⟩
  · exact not_not.mp (Nat.find_min hex hi)
  · by_contra hle
    exact Nat.find_spec hex (hP _ i (not_lt.mp hle) h)

/-- The further elements of a sequence of which the first `n` numbers are in
order and the numbers in `out` are left out: `first` is the first number after
`now`, and `r` the number after `k` more that are not left out. -/
theorem nthAfter_of_index {S : Set Int} {O : Nat → Int} {n first r k : Nat} {now : Int}
    {out : List Nat} (hmono : ∀ i j, i < j → j < n → O i < O j)
    (hS : ∀ t, now < t → (t ∈ S ↔ ∃ i < n, i ∉ out ∧ O i = t))
    (hfirst : ∀ i < n, now < O i ↔ first ≤ i) (hr : first ≤ r) (hout : r ∉ out)
    (hcount : ((Finset.Ico first r).filter (· ∉ out)).card = k) :
    NthAfter S now k (if r < n then some (O r) else none) := by
  have hinj : Set.InjOn O (Set.Iio n) := by
    intro i hi j hj hij
    rcases Nat.lt_trichotomy i j with h | h | h
    · have := hmono i j h hj
      omega
    · exact h
    · have := hmono j i h hi
      omega
  -- the elements with numbers from `first` up to a bound, as a finite set
  have hsize : ∀ m ≤ n, ((((Finset.Ico first m).filter (· ∉ out)).image O : Finset Int) :
      Set Int).ncard = ((Finset.Ico first m).filter (· ∉ out)).card := by
    intro m hm
    rw [Set.ncard_coe_finset, Finset.card_image_of_injOn]
    exact hinj.mono fun i hi => by
      simp only [Finset.coe_filter, Finset.mem_Ico, Set.mem_ofPred_eq] at hi
      exact Set.mem_Iio.mpr (by omega)
  split
  · next hrn =>
    refine ⟨?_, (hfirst r hrn).mpr hr, ?_⟩
    · exact (hS _ ((hfirst r hrn).mpr hr)).mpr ⟨r, hrn, hout, rfl⟩
    · rw [← hcount, ← hsize r (le_of_lt hrn)]
      congr 1
      ext t
      simp only [Set.mem_inter_iff, Set.mem_Ioo, Finset.coe_image, Set.mem_image,
        Finset.coe_filter, Finset.mem_Ico, Set.mem_ofPred_eq]
      constructor
      · rintro ⟨ht, hnow, hlt⟩
        obtain ⟨i, hi, hiout, rfl⟩ := (hS t hnow).mp ht
        refine ⟨i, ⟨⟨(hfirst i hi).mp hnow, ?_⟩, hiout⟩, rfl⟩
        by_contra hle
        rcases Nat.eq_or_lt_of_le (not_lt.mp hle) with rfl | h
        · exact lt_irrefl _ hlt
        · have := hmono r i h hi
          omega
      · rintro ⟨i, ⟨⟨h₁, h₂⟩, hiout⟩, rfl⟩
        have hi : i < n := by omega
        have hnow := (hfirst i hi).mpr h₁
        exact ⟨(hS _ hnow).mpr ⟨i, hi, hiout, rfl⟩, hnow, hmono i r h₂ hrn⟩
  · next hrn =>
    have hset : S ∩ Set.Ioi now =
        (((Finset.Ico first n).filter (· ∉ out)).image O : Finset Int) := by
      ext t
      simp only [Set.mem_inter_iff, Set.mem_Ioi, Finset.coe_image, Set.mem_image,
        Finset.coe_filter, Finset.mem_Ico, Set.mem_ofPred_eq]
      constructor
      · rintro ⟨ht, hnow⟩
        obtain ⟨i, hi, hiout, rfl⟩ := (hS t hnow).mp ht
        exact ⟨i, ⟨⟨(hfirst i hi).mp hnow, hi⟩, hiout⟩, rfl⟩
      · rintro ⟨i, ⟨⟨h₁, h₂⟩, hiout⟩, rfl⟩
        have hnow := (hfirst i h₂).mpr h₁
        exact ⟨(hS _ hnow).mpr ⟨i, h₂, hiout, rfl⟩, hnow⟩
    refine ⟨hset ▸ Finset.finite_toSet _, ?_⟩
    rw [hset, hsize n le_rfl, ← hcount]
    refine Finset.card_le_card fun i hi => ?_
    simp only [Finset.mem_filter, Finset.mem_Ico] at hi ⊢
    exact ⟨⟨hi.1.1, by omega⟩, hi.2⟩

namespace Plain

/-! ## Passing over numbers that are left out -/

/-- What holds after the numbers in `passed` were looked at: `steps` numbers
from `index` on are not left out before the one reached, and the one reached is
not left out either. -/
structure Reached (index steps : Nat) (passed : List Nat) (reached : Nat) : Prop where
  le : index ≤ reached
  notMem : reached ∉ passed
  count : ((Finset.Ico index reached).filter (· ∉ passed)).card = steps

theorem reached_init (index steps : Nat) : Reached index steps [] (index + steps) :=
  ⟨Nat.le_add_right _ _, List.not_mem_nil, by simp⟩

/-- Looking at one more number, larger than all before. -/
theorem Reached.step {index steps reached e : Nat} {passed : List Nat}
    (h : Reached index steps passed reached) (hlast : ∀ x ∈ passed, x < e) :
    Reached index steps (passed ++ [e])
      (if index ≤ e && e ≤ reached then reached + 1 else reached) := by
  have hmem : ∀ x, x ∈ passed ++ [e] ↔ x ∈ passed ∨ x = e := fun x => by simp
  split
  · next hin =>
    simp only [Bool.and_eq_true, decide_eq_true_eq] at hin
    obtain ⟨hlow, hhigh⟩ := hin
    have hle := h.le
    refine ⟨by omega, ?_, ?_⟩
    · rw [hmem]
      rintro (hx | hx)
      · have := hlast _ hx
        omega
      · omega
    · rcases Nat.eq_or_lt_of_le hhigh with rfl | hlt
      · -- the number reached itself is left out: it moves on, nothing is lost
        rw [← h.count]
        congr 1
        ext x
        simp only [Finset.mem_filter, Finset.mem_Ico, hmem]
        constructor
        · rintro ⟨⟨h₁, h₂⟩, h₃⟩
          exact ⟨⟨h₁, by omega⟩, fun hx => h₃ (.inl hx)⟩
        · rintro ⟨⟨h₁, h₂⟩, h₃⟩
          exact ⟨⟨h₁, by omega⟩, by rintro (hx | hx) <;> [exact h₃ hx; omega]⟩
      · -- an earlier number is left out, and the one reached takes its place
        have hset : (Finset.Ico index (reached + 1)).filter (· ∉ passed ++ [e]) =
            insert reached (((Finset.Ico index reached).filter (· ∉ passed)).erase e) := by
          ext x
          simp only [Finset.mem_filter, Finset.mem_Ico, hmem, Finset.mem_insert, Finset.mem_erase]
          constructor
          · rintro ⟨⟨h₁, h₂⟩, h₃⟩
            by_cases hx : x = reached
            · exact .inl hx
            · exact .inr ⟨fun hxe => h₃ (.inr hxe), ⟨h₁, by omega⟩, fun hxp => h₃ (.inl hxp)⟩
          · rintro (rfl | ⟨hxe, ⟨h₁, h₂⟩, h₃⟩)
            · refine ⟨⟨h.le, by omega⟩, ?_⟩
              rintro (hx | hx)
              · exact h.notMem hx
              · omega
            · exact ⟨⟨h₁, by omega⟩, by rintro (hx | hx) <;> [exact h₃ hx; exact hxe hx]⟩
        have he : e ∈ (Finset.Ico index reached).filter (· ∉ passed) := by
          simp only [Finset.mem_filter, Finset.mem_Ico]
          exact ⟨⟨hlow, hlt⟩, fun hx => lt_irrefl e (hlast e hx)⟩
        have hpos := Finset.card_pos.mpr ⟨e, he⟩
        rw [hset, Finset.card_insert_of_notMem (by simp), Finset.card_erase_of_mem he, h.count]
        rw [h.count] at hpos
        omega
  · next hin =>
    have hout : ¬ (index ≤ e ∧ e ≤ reached) := by simpa using hin
    refine ⟨h.le, ?_, ?_⟩
    · rw [hmem]
      rintro (hx | hx)
      · exact h.notMem hx
      · have := h.le
        omega
    · rw [← h.count]
      congr 1
      ext x
      simp only [Finset.mem_filter, Finset.mem_Ico, hmem]
      constructor
      · rintro ⟨h₁, h₃⟩
        exact ⟨h₁, fun hx => h₃ (.inl hx)⟩
      · rintro ⟨h₁, h₃⟩
        exact ⟨h₁, by rintro (hx | hx) <;> [exact h₃ hx; omega]⟩

theorem Reached.run {index steps reached : Nat} {passed rest : List Nat}
    (h : Reached index steps passed reached) (hsorted : (passed ++ rest).Pairwise (· < ·)) :
    Reached index steps (passed ++ rest)
      (rest.foldl (fun reached e => if index ≤ e && e ≤ reached then reached + 1 else reached)
        reached) := by
  induction rest generalizing passed reached with
  | nil => simpa using h
  | cons e rest ih =>
    have hlast : ∀ x ∈ passed, x < e :=
      fun x hx => (List.pairwise_append.mp hsorted).2.2 x hx e List.mem_cons_self
    have := ih (h.step hlast) (by simpa using hsorted)
    simpa using this

/-- The number reached from `index` is not excluded, and exactly `steps` numbers
between the two are not excluded. -/
theorem advance_spec {excluded : List Nat} (hsorted : excluded.Pairwise (· < ·))
    (index steps : Nat) :
    Reached index steps excluded (advance index steps excluded) := by
  have hrun := (reached_init index steps).run (by rwa [List.nil_append])
  rwa [List.nil_append] at hrun

/-- Among the first `n` numbers from `index` on the one reached is at the place `steps`, those that are
left out not counted. -/
theorem Reached.getElem? {index steps reached : Nat} {out : List Nat}
    (h : Reached index steps out reached) (n : Nat) :
    ((List.range' index (n - index)).filter (· ∉ out))[steps]? =
      if reached < n then some reached else none := by
  have hlength : ∀ last, ((List.range' index (last - index)).filter (· ∉ out)).length =
      ((Finset.Ico index last).filter (· ∉ out)).card := fun _ => rfl
  have hle := h.le
  split
  · next hlt =>
    have hsplit : List.range' index (n - index) = List.range' index (reached - index) ++
        reached :: List.range' (reached + 1) (n - (reached + 1)) := by
      rw [show n - index = (reached - index) + ((n - (reached + 1)) + 1) by omega,
        ← List.range'_append_1, show index + (reached - index) = reached by omega, List.range'_succ]
    rw [hsplit, List.filter_append, List.filter_cons_of_pos (by simpa using h.notMem),
      List.getElem?_append_right (by rw [hlength, h.count]), hlength, h.count, Nat.sub_self]
    rfl
  · next hge =>
    rw [List.getElem?_eq_none_iff, hlength, ← h.count]
    exact Finset.card_le_card (Finset.filter_subset_filter _
      (Finset.Ico_subset_Ico_right (not_lt.mp hge)))

end Plain

end ScanPolicy
