import ScanPolicy.Schedule.Next
import ScanPolicy.Proofs.Moment.Clock
import ScanPolicy.Proofs.Outcome
import ScanPolicy.Proofs.Schedule.Enumeration

/-!
# The merge of several sources

A schedule takes its dates from several sources. The source with the earliest
date after a moment, of equal ones the first, gives all further dates.

- `Answers`: what a merge of sequences gives; `Answers.unique`.
- `Descriptor.earliest_spec`, `Descriptor.winner_spec`: the earliest candidate, of
  equal ones the first, and its source.
- `Descriptor.next_of_winner`: the next occurrence is that of the source.
- `Descriptor.source_of_next`: a schedule has the answers of one of its sources.
- `Descriptor.next_of_only`: the only candidate answers.
- `Descriptor.next_of_sources`: if every source gives the further dates of a
  set, the schedule gives those of the merge of the sets.
- `Source.placeAfter_spec`: halving finds the place after a moment.
-/

namespace ScanPolicy

/-- The answer of a merge of sequences, which are given as sets in the order of
their sources: the `k`-th further element of the sequence of which the first
element after `now` is the earliest one, of equal ones the first. -/
def Answers (sources : List (Set Int)) (now : Int) (k : Nat) (answer : Option Int) : Prop :=
  (answer = none ∧ ∀ S ∈ sources, ∀ t ∈ S, t ≤ now) ∨
  ∃ earlier winner later first, sources = earlier ++ winner :: later ∧
    NthAfter winner now 0 (some first) ∧
    (∀ S ∈ earlier, ∀ t ∈ S, now < t → first < t) ∧
    (∀ S ∈ later, ∀ t ∈ S, now < t → first ≤ t) ∧
    NthAfter winner now k answer

/-- There is one answer. -/
theorem Answers.unique {sources : List (Set Int)} {now : Int} {k : Nat} {a b : Option Int}
    (ha : Answers sources now k a) (hb : Answers sources now k b) : a = b := by
  -- a winner has an element after `now`, so not all sequences are over
  have hover : ∀ {winner : Set Int} {earlier later : List (Set Int)} {first : Int},
      sources = earlier ++ winner :: later → NthAfter winner now 0 (some first) →
      (∀ S ∈ sources, ∀ t ∈ S, t ≤ now) → False := by
    rintro winner earlier later first rfl ⟨hmem, hnow, -⟩ hover
    exact absurd (hover winner (by simp) first hmem) (not_le.mpr hnow)
  rcases ha with ⟨rfl, hover₁⟩ | ⟨earlier₁, winner₁, later₁, first₁, h₁, hfirst₁, he₁, hl₁, ha⟩
  · rcases hb with ⟨rfl, -⟩ | ⟨_, _, _, _, h₂, hfirst₂, -⟩
    · rfl
    · exact (hover h₂ hfirst₂ hover₁).elim
  rcases hb with ⟨rfl, hover₂⟩ | ⟨earlier₂, winner₂, later₂, first₂, h₂, hfirst₂, he₂, hl₂, hb⟩
  · exact (hover h₁ hfirst₁ hover₂).elim
  -- of two winners at different places, each would have to be before the other one
  have hsame : winner₁ = winner₂ := by
    rcases List.append_eq_append_iff.mp (h₁.symm.trans h₂) with
      ⟨between, hearlier, hlater⟩ | ⟨between, hearlier, hlater⟩
    · cases between with
      | nil => exact (List.cons.inj hlater).1
      | cons S between =>
        obtain ⟨rfl, rfl⟩ := List.cons.inj hlater
        have hlt := he₂ winner₁ (by simp [hearlier]) first₁ hfirst₁.1 hfirst₁.2.1
        have hle := hl₁ winner₂ (by simp) first₂ hfirst₂.1 hfirst₂.2.1
        omega
    · cases between with
      | nil => exact (List.cons.inj hlater).1.symm
      | cons S between =>
        obtain ⟨rfl, rfl⟩ := List.cons.inj hlater
        have hlt := he₁ winner₂ (by simp [hearlier]) first₂ hfirst₂.1 hfirst₂.2.1
        have hle := hl₂ winner₁ (by simp) first₁ hfirst₁.1 hfirst₁.2.1
        omega
  rw [hsame] at ha
  exact ha.unique hb

/-- A sequence without elements at the end changes nothing. -/
theorem Answers.append_empty {sources : List (Set Int)} {now : Int} {k : Nat} {a : Option Int}
    (h : Answers (sources ++ []) now k a) : Answers (sources ++ [∅]) now k a := by
  rw [List.append_nil] at h
  rcases h with ⟨rfl, hover⟩ | ⟨earlier, winner, later, first, rfl, hfirst, he, hl, ha⟩
  · refine .inl ⟨rfl, fun S hS t ht => ?_⟩
    rcases List.mem_append.mp hS with hS | hS
    · exact hover S hS t ht
    · rw [List.mem_singleton.mp hS] at ht
      exact ht.elim
  · refine .inr ⟨earlier, winner, later ++ [∅], first, by simp, hfirst, he, fun S hS t ht => ?_, ha⟩
    rcases List.mem_append.mp hS with hS | hS
    · exact hl S hS t ht
    · rw [List.mem_singleton.mp hS] at ht
      exact ht.elim

/-! ## Further dates -/

namespace Source

/-- Halving finds the place after a moment, if the moments after it come after
the others. -/
theorem placeAfter_spec {now : Moment} {ms : Array Moment}
    (hmono : ∀ i j (hij : i ≤ j) (hj : j < ms.size), now.before ms[i] → now.before ms[j])
    {low high : Nat} (hhigh : high ≤ ms.size)
    (hbelow : ∀ i (hi : i < ms.size), i < low → ¬ now.before ms[i])
    (habove : ∀ i (hi : i < ms.size), high ≤ i → now.before ms[i]) (hle : low ≤ high) :
    ∀ i (hi : i < ms.size), now.before ms[i] ↔ placeAfter now ms low high ≤ i := by
  fun_induction placeAfter now ms low high with
  | case1 low high hlt middle m hm hbefore ih =>
    obtain ⟨hmiddle, rfl⟩ := Array.getElem?_eq_some_iff.mp hm
    refine ih (by omega) hbelow (fun i hi hge => ?_) (by omega)
    exact hmono middle i hge hi hbefore
  | case2 low high hlt middle m hm hbefore ih =>
    obtain ⟨hmiddle, rfl⟩ := Array.getElem?_eq_some_iff.mp hm
    refine ih hhigh (fun i hi hlow h => ?_) habove (by omega)
    exact hbefore (hmono i middle (by omega) hmiddle h)
  | case3 low high hlt middle hm =>
    have := Array.getElem?_eq_none_iff.mp hm
    omega
  | case4 low high hge =>
    intro i hi
    refine ⟨fun h => ?_, fun h => habove i hi (by omega)⟩
    by_contra hlt
    exact hbelow i hi (by omega) h

/-- The elements with a property are those from a place on. -/
theorem filter_eq_drop {α : Type} {p : α → Bool} {xs : List α} {place : Nat}
    (h : ∀ i (hi : i < xs.length), p xs[i] ↔ place ≤ i) : xs.filter p = xs.drop place := by
  induction xs generalizing place with
  | nil => simp
  | cons x rest ih =>
    have hx := h 0 (by simp)
    cases place with
    | zero =>
      have hall : ∀ y ∈ x :: rest, p y := by
        intro y hy
        obtain ⟨i, hi, rfl⟩ := List.mem_iff_getElem.mp hy
        exact (h i hi).mpr (Nat.zero_le i)
      rw [List.drop_zero, List.filter_eq_self.mpr hall]
    | succ place =>
      have hno : ¬ p x := fun hp => absurd (hx.mp hp) (by omega)
      rw [List.filter_cons_of_neg hno, List.drop_succ_cons]
      refine ih fun i hi => ?_
      have hi' := h (i + 1) (by simpa using hi)
      rw [List.getElem_cons_succ] at hi'
      rw [hi']
      omega

/-- Counting from the place after a moment is counting the moments after it. -/
theorem place_getElem? {now : Moment} {ms : List Moment}
    (h : ms.Pairwise fun a b => now.before a → now.before b) (k : Nat) :
    ms.toArray[placeAfter now ms.toArray 0 ms.toArray.size + k]? = (ms.filter now.before)[k]? := by
  have hmono : ∀ i j (hij : i ≤ j) (hj : j < ms.toArray.size),
      now.before ms.toArray[i] → now.before ms.toArray[j] := by
    intro i j hij hj hi
    rcases Nat.eq_or_lt_of_le hij with rfl | hlt
    · exact hi
    · rw [List.getElem_toArray] at hi ⊢
      rw [List.size_toArray] at hj
      exact List.pairwise_iff_getElem.mp h i j (by omega) hj hlt hi
  have hplace := placeAfter_spec hmono le_rfl (fun i _ hi => absurd hi (Nat.not_lt_zero i))
    (fun i hi hge => absurd hi (by omega)) (Nat.zero_le _)
  have hdrop : ms.filter now.before = ms.drop _ := filter_eq_drop hplace
  rw [hdrop, List.getElem?_drop, List.getElem?_toArray]

/-- The further dates in universal time. -/
theorem datesNth_spec {d : Descriptor} {dates : List WallTime}
    (hdates : d.dates = dates.map Moment.universal)
    (hsorted : dates.Pairwise fun a b => a.ticks < b.ticks)
    (hexcluded : ∀ m ∈ d.excluded, m.IsUniversal) (now : WallTime) (k : Nat) :
    ∃ t : Option WallTime, datesNth d (Moment.universal now) k = t.map Moment.universal ∧
      NthAfter {t | (∃ m ∈ d.dates, m.wall.ticks = t) ∧ ∀ e ∈ d.excluded, e.wall.ticks ≠ t}
        now.ticks k (t.map WallTime.ticks) := by
  have hout : ∀ t : WallTime, (Moment.universal t).isIn d.excluded = true ↔
      ∃ e ∈ d.excluded, e.wall.ticks = t.ticks := by
    intro t
    have hmap := Moment.map_universal hexcluded
    rw [hmap, Moment.isIn_universal, decide_eq_true_iff, List.mem_map, ← hmap]
    exact ⟨fun ⟨e, he, heq⟩ => ⟨e, he, heq ▸ rfl⟩, fun ⟨e, he, heq⟩ => ⟨e, he, WallTime.ext heq⟩⟩
  -- the dates that are not excluded, still in order
  let kept := dates.filter fun t => !(Moment.universal t).isIn d.excluded
  have hkept : d.dates.filter (fun m => !m.isIn d.excluded) = kept.map Moment.universal := by
    rw [hdates, List.filter_map]
    rfl
  have hticks : (kept.map WallTime.ticks).Pairwise (· < ·) :=
    List.pairwise_map.mpr (hsorted.filter _)
  have hset : {t | (∃ m ∈ d.dates, m.wall.ticks = t) ∧ ∀ e ∈ d.excluded, e.wall.ticks ≠ t} =
      {t | t ∈ kept.map WallTime.ticks} := by
    ext t
    simp only [Set.mem_ofPred_eq, List.mem_map]
    constructor
    · rintro ⟨⟨m, hm, rfl⟩, hne⟩
      rw [hdates] at hm
      obtain ⟨w, hw, rfl⟩ := List.mem_map.mp hm
      refine ⟨w, List.mem_filter.mpr ⟨hw, ?_⟩, rfl⟩
      rw [Bool.not_eq_true', Bool.eq_false_iff, Ne, hout]
      rintro ⟨e, he, heq⟩
      exact hne e he heq
    · rintro ⟨w, hw, rfl⟩
      obtain ⟨hw, hnot⟩ := List.mem_filter.mp hw
      rw [Bool.not_eq_true', Bool.eq_false_iff, Ne, hout] at hnot
      refine ⟨⟨Moment.universal w, hdates ▸ List.mem_map_of_mem hw, rfl⟩, fun e he heq => ?_⟩
      exact hnot ⟨e, he, heq⟩
  refine ⟨(kept.filter (now.ticks < ·.ticks))[k]?, ?_, ?_⟩
  · have hpairwise : (kept.map Moment.universal).Pairwise fun a b =>
        (Moment.universal now).before a → (Moment.universal now).before b := by
      refine List.pairwise_map.mpr ((hsorted.filter _).imp fun {a b} hab h => ?_)
      simp only [Moment.before_universal, decide_eq_true_eq] at h ⊢
      omega
    unfold datesNth
    rw [hkept, place_getElem? hpairwise, List.filter_map, List.getElem?_map]
    simp only [Function.comp_def, Moment.before_universal]
  · have h := nthAfter_of_increasing hticks now.ticks k
    rw [hset]
    rwa [List.filter_map, List.getElem?_map] at h

end Source

namespace Descriptor

/-! ## Candidates -/

/-- If candidates are before one another as their instants say, the earliest one
comes before those in front of it and not after those behind it. -/
theorem earliest_spec (rest : List (Moment × Source)) (c : Moment × Source)
    (horder : ∀ x ∈ c :: rest, ∀ y ∈ c :: rest,
      x.1.before y.1 = true ↔ x.1.instant < y.1.instant) :
    ∃ front r back, earliest (c :: rest) = some r ∧ c :: rest = front ++ r :: back ∧
      (∀ x ∈ front, r.1.instant < x.1.instant) ∧
      ∀ x ∈ back, r.1.instant ≤ x.1.instant := by
  induction rest generalizing c with
  | nil => exact ⟨[], c, [], rfl, rfl, by simp, by simp⟩
  | cons x rest ih =>
    have hc : c ∈ c :: x :: rest := List.mem_cons_self
    have hx : x ∈ c :: x :: rest := List.mem_cons_of_mem _ List.mem_cons_self
    have hrest : ∀ y ∈ rest, y ∈ c :: x :: rest := fun y hy =>
      List.mem_cons_of_mem _ (List.mem_cons_of_mem _ hy)
    have hbefore := horder x hx c hc
    have hstep : earliest (c :: x :: rest) = earliest ((if x.1.before c.1 then x else c) :: rest) :=
      rfl
    rw [hstep]
    by_cases hlt : x.1.instant < c.1.instant
    · rw [if_pos (hbefore.mpr hlt)]
      have hmem : ∀ y ∈ x :: rest, y ∈ c :: x :: rest := fun y hy => List.mem_cons_of_mem _ hy
      obtain ⟨front, r, back, hr, hsplit, hfront, hback⟩ :=
        ih x fun y hy z hz => horder y (hmem y hy) z (hmem z hz)
      refine ⟨c :: front, r, back, hr, by rw [hsplit, List.cons_append], ?_, hback⟩
      -- the earliest one is not after `x`, which is before `c`
      have hle : r.1.instant ≤ x.1.instant := by
        cases front with
        | nil => exact le_of_eq (by rw [(List.cons.inj hsplit).1])
        | cons y front =>
          rw [(List.cons.inj hsplit).1]
          exact le_of_lt (hfront y List.mem_cons_self)
      intro y hy
      rcases List.mem_cons.mp hy with rfl | hy
      · exact lt_of_le_of_lt hle hlt
      · exact hfront y hy
    · rw [if_neg fun h => hlt (hbefore.mp h)]
      have hmem : ∀ y ∈ c :: rest, y ∈ c :: x :: rest := by
        rintro y (_ | ⟨_, hy⟩)
        · exact hc
        · exact hrest y hy
      obtain ⟨front, r, back, hr, hsplit, hfront, hback⟩ :=
        ih c fun y hy z hz => horder y (hmem y hy) z (hmem z hz)
      cases front with
      | nil =>
        obtain ⟨rfl, rfl⟩ := List.cons.inj hsplit
        refine ⟨[], c, x :: rest, hr, rfl, hfront, fun y hy => ?_⟩
        rcases List.mem_cons.mp hy with rfl | hy
        · exact not_lt.mp hlt
        · exact hback y hy
      | cons y front =>
        obtain ⟨rfl, htail⟩ := List.cons.inj hsplit
        refine ⟨c :: x :: front, r, back, hr, by rw [htail]; rfl, fun y hy => ?_, hback⟩
        have hrc := hfront c List.mem_cons_self
        rcases List.mem_cons.mp hy with rfl | hy
        · exact hrc
        rcases List.mem_cons.mp hy with rfl | hy
        · exact lt_of_lt_of_le hrc (not_lt.mp hlt)
        · exact hfront y (List.mem_cons_of_mem _ hy)

/-- The candidates are the first dates of those sources that have one. -/
theorem candidates_eq {d : Descriptor} {now : Moment} {first : Source → Option Moment}
    {ss : List Source} (h : ∀ s ∈ ss, s.nthAfter d now 0 = .ok (first s)) :
    candidates d now ss = .ok (ss.filterMap fun s => (first s).map (·, s)) := by
  induction ss with
  | nil => rfl
  | cons s rest ih =>
    unfold candidates
    rw [h s List.mem_cons_self, ih fun s hs => h s (List.mem_cons_of_mem _ hs)]
    cases hs : first s with
    | none => rw [List.filterMap_cons_none (by rw [hs]; rfl)]; rfl
    | some m => rw [List.filterMap_cons_some (by rw [hs]; rfl)]; rfl

/-- Without candidates there is no next date. -/
theorem next_of_no_candidates {d : Descriptor} {now : Moment} (k : Nat)
    (hcandidates : candidates d now d.sources = .ok []) : d.next now k = .ok none := by
  unfold next
  rw [if_neg (by omega), hcandidates]
  rfl

/-- The answer for a date that a source gives: the date on the universal clock. -/
def answer : Option Moment → Except Fault (Option Moment)
  | none => .ok none
  | some m => some <$> within m.universal?

theorem answer_universal (t : Option WallTime) :
    answer (t.map Moment.universal) = .ok (t.map Moment.universal) := by
  cases t <;> rfl

/-- The source of the earliest candidate gives the answer. -/
theorem next_of_earliest {d : Descriptor} {now m : Moment} {s : Source}
    {cs : List (Moment × Source)} (hcandidates : candidates d now d.sources = .ok cs)
    (hearliest : earliest cs = some (m, s)) (hfirst : s.nthAfter d now 0 = .ok (some m)) (k : Nat) :
    d.next now k = s.nthAfter d now k >>= answer := by
  unfold next
  rw [if_neg (by omega), hcandidates]
  simp only [bind, Except.bind, pure, Except.pure, hearliest]
  by_cases hk : k = 0
  · subst hk
    rw [hfirst, if_pos (by rfl)]
    rfl
  · rw [if_neg (by omega), Int.toNat_natCast]
    cases s.nthAfter d now k with
    | error e => rfl
    | ok x => cases x <;> rfl

/-- If no other source has a candidate, a source answers. -/
theorem next_of_only {d : Descriptor} {now : Moment} {s : Source} {k : Nat} {first x : Option Moment}
    (hcandidates : candidates d now d.sources = .ok (first.toList.map (·, s)))
    (hfirst : s.nthAfter d now 0 = .ok first) (hx : s.nthAfter d now k = .ok x)
    (hnone : first = none → x = none) : d.next now k = answer x := by
  cases first with
  | none =>
    rw [hnone rfl]
    exact next_of_no_candidates k hcandidates
  | some m =>
    rw [next_of_earliest hcandidates rfl hfirst, hx]
    rfl

/-- Whether two moments come one before the other as their instants do. -/
def InOrder (m n : Moment) : Prop := m.before n = true ↔ m.instant < n.instant

/-- The source of the earliest candidate: the candidates of the sources in front of it
are later, and those of the sources behind it are not earlier. -/
theorem winner_spec {ss : List Source} {first : Source → Option Moment}
    (horder : ∀ s ∈ ss, ∀ s' ∈ ss, ∀ m ∈ first s, ∀ m' ∈ first s', InOrder m m') :
    (∀ s ∈ ss, first s = none) ∨
      ∃ front s back m, ss = front ++ s :: back ∧ first s = some m ∧
        earliest (ss.filterMap fun s => (first s).map (·, s)) = some (m, s) ∧
        (∀ s' ∈ front, ∀ m' ∈ first s', m.instant < m'.instant) ∧
        ∀ s' ∈ back, ∀ m' ∈ first s', m.instant ≤ m'.instant := by
  cases hcs : ss.filterMap fun s => (first s).map (·, s) with
  | nil =>
    refine .inl fun s hs => ?_
    have hnone := List.filterMap_eq_nil_iff.mp hcs s hs
    exact Option.map_eq_none_iff.mp hnone
  | cons c rest =>
    have hmem : ∀ x ∈ c :: rest, x.2 ∈ ss ∧ x.1 ∈ first x.2 := by
      intro x hx
      rw [← hcs] at hx
      obtain ⟨s, hs, hx⟩ := List.mem_filterMap.mp hx
      obtain ⟨m, hm, rfl⟩ := Option.map_eq_some_iff.mp hx
      exact ⟨hs, hm⟩
    obtain ⟨front, r, back, hearliest, hsplit, hfront, hback⟩ := earliest_spec rest c
      fun x hx y hy => horder _ (hmem x hx).1 _ (hmem y hy).1 _ (hmem x hx).2 _ (hmem y hy).2
    rw [hearliest]
    rw [hsplit] at hcs
    obtain ⟨before, behind, hsources, hbefore, hbehind⟩ := List.filterMap_eq_append_iff.mp hcs
    obtain ⟨silent, s, after, rfl, hsilent, hs, hafter⟩ := List.filterMap_eq_cons_iff.mp hbehind
    obtain ⟨m, hm, rfl⟩ := Option.map_eq_some_iff.mp hs
    refine .inr ⟨before ++ silent, s, after, m, by simp [hsources], hm, rfl, ?_, ?_⟩
    · intro s' hs' m' hm'
      rcases List.mem_append.mp hs' with hs' | hs'
      · refine hfront (m', s') ?_
        rw [← hbefore]
        exact List.mem_filterMap.mpr ⟨s', hs', by rw [Option.mem_def.mp hm']; rfl⟩
      · have hnone := hsilent s' hs'
        rw [Option.mem_def.mp hm'] at hnone
        cases hnone
    · intro s' hs' m' hm'
      refine hback (m', s') ?_
      rw [← hafter]
      exact List.mem_filterMap.mpr ⟨s', hs', by rw [Option.mem_def.mp hm']; rfl⟩

/-- The next occurrence, if the first dates of the sources come one before the other as their
instants do: the source of the earliest one gives it. -/
theorem next_of_winner {d : Descriptor} {now : Moment} {first : Source → Option Moment}
    (hfirst : ∀ s ∈ d.sources, s.nthAfter d now 0 = .ok (first s))
    (horder : ∀ s ∈ d.sources, ∀ s' ∈ d.sources, ∀ m ∈ first s, ∀ m' ∈ first s', InOrder m m') :
    ((∀ s ∈ d.sources, first s = none) ∧ ∀ k : Nat, d.next now k = .ok none) ∨
      ∃ front s back m, d.sources = front ++ s :: back ∧ first s = some m ∧
        (∀ s' ∈ front, ∀ m' ∈ first s', m.instant < m'.instant) ∧
        (∀ s' ∈ back, ∀ m' ∈ first s', m.instant ≤ m'.instant) ∧
        ∀ k : Nat, d.next now k = s.nthAfter d now k >>= answer := by
  have hcandidates := candidates_eq hfirst
  rcases winner_spec horder with hnone | ⟨front, s, back, m, hsources, hm, hearliest, hfront, hback⟩
  · refine .inl ⟨hnone, fun k => next_of_no_candidates k ?_⟩
    rw [hcandidates, List.filterMap_eq_nil_iff.mpr fun s hs => by rw [hnone s hs]; rfl]
  · have h₀ := hfirst s (by simp [hsources])
    rw [hm] at h₀
    exact .inr ⟨front, s, back, m, hsources, hm, hfront, hback,
      fun k => next_of_earliest hcandidates hearliest h₀ k⟩

/-! ## Answers -/

theorem earliest_mem {cs : List (Moment × Source)} {c : Moment × Source} (h : earliest cs = some c) :
    c ∈ cs := by
  cases cs with
  | nil => cases h
  | cons x rest =>
    rw [← Option.some.inj h]
    clear h
    induction rest generalizing x with
    | nil => exact List.mem_cons_self
    | cons y rest ih =>
      rw [List.foldl_cons]
      rcases List.mem_cons.mp (ih (if y.1.before x.1 then y else x)) with h | h
      · rw [h]
        split
        · exact List.mem_cons_of_mem _ List.mem_cons_self
        · exact List.mem_cons_self
      · exact List.mem_cons_of_mem _ (List.mem_cons_of_mem _ h)

/-- If there are candidates, every source answers, and the candidates are its first dates. -/
theorem candidates_spec {d : Descriptor} {now : Moment} {ss : List Source}
    {cs : List (Moment × Source)} (h : candidates d now ss = .ok cs) :
    (∀ s ∈ ss, ∃ x, s.nthAfter d now 0 = .ok x) ∧
      ∀ c ∈ cs, c.2 ∈ ss ∧ c.2.nthAfter d now 0 = .ok (some c.1) := by
  induction ss generalizing cs with
  | nil =>
    cases h
    simp
  | cons s rest ih =>
    unfold candidates at h
    obtain ⟨x, hx, h⟩ := bind_eq_ok_iff.mp h
    obtain ⟨more, hmore, h⟩ := bind_eq_ok_iff.mp h
    cases h
    obtain ⟨hanswers, hcandidates⟩ := ih hmore
    constructor
    · intro s' hs'
      rcases List.mem_cons.mp hs' with rfl | hs'
      · exact ⟨x, hx⟩
      · exact hanswers s' hs'
    · intro c hc
      rcases List.mem_append.mp hc with hc | hc
      · obtain ⟨m, hm, rfl⟩ := List.mem_map.mp hc
        rw [Option.mem_toList.mp hm] at hx
        exact ⟨List.mem_cons_self, hx⟩
      · exact ⟨List.mem_cons_of_mem _ (hcandidates c hc).1, (hcandidates c hc).2⟩

/-- If a schedule answers, all its sources do. -/
theorem nthAfter_of_next {d : Descriptor} {now : Moment} {k : Nat} {x : Option Moment}
    (h : d.next now k = .ok x) : ∀ s ∈ d.sources, ∃ y, s.nthAfter d now 0 = .ok y := by
  unfold next at h
  rw [if_neg (by omega)] at h
  obtain ⟨cs, hcs, -⟩ := bind_eq_ok_iff.mp h
  exact (candidates_spec hcs).1

/-- The answers of a schedule are those of one of its sources, or there are none. -/
theorem source_of_next {d : Descriptor} {now : Moment} {k : Nat} {x : Option Moment}
    (h : d.next now k = .ok x) : (∀ j : Nat, d.next now j = .ok none) ∨
      ∃ s ∈ d.sources, ∃ m, s.nthAfter d now 0 = .ok (some m) ∧
        ∀ j : Nat, d.next now j = s.nthAfter d now j >>= answer := by
  unfold next at h
  rw [if_neg (by omega)] at h
  obtain ⟨cs, hcs, -⟩ := bind_eq_ok_iff.mp h
  cases hearliest : earliest cs with
  | none =>
    have hnil : cs = [] := by
      cases cs with
      | nil => rfl
      | cons c rest => cases hearliest
    exact .inl fun j => next_of_no_candidates j (hnil ▸ hcs)
  | some c =>
    obtain ⟨hs, hm⟩ := (candidates_spec hcs).2 c (earliest_mem hearliest)
    exact .inr ⟨c.2, hs, c.1, hm, fun j => next_of_earliest hcs hearliest hm j⟩

/-- The date that is given is the one of the source, on the universal clock. -/
theorem answer_eq_some {y : Option Moment} {n : Moment} (h : answer y = .ok (some n)) :
    ∃ m, y = some m ∧ n.instant = m.instant := by
  cases y with
  | none => cases h
  | some m =>
    obtain ⟨r, hr, h⟩ := map_eq_ok_iff.mp h
    cases h
    refine ⟨m, rfl, (Moment.instant_of_universal? ?_).2⟩
    cases hm : m.universal? with
    | none =>
      rw [hm] at hr
      cases hr
    | some r' =>
      rw [hm] at hr
      cases hr
      rfl

/-- A source that has a date gives an answer, if it can be given at all. -/
theorem exists_of_answer {m : Moment} {x : Option Moment} (h : answer (some m) = .ok x) :
    ∃ n, x = some n ∧ n.instant = m.instant := by
  obtain ⟨n, -, rfl⟩ := map_eq_ok_iff.mp h
  obtain ⟨m', hm', hinstant⟩ := answer_eq_some h
  cases hm'
  exact ⟨n, rfl, hinstant⟩

/-- If every source gives the further dates of a set, the schedule gives those of
the merge of the sets. -/
theorem next_of_sources {d : Descriptor} {now : WallTime} (points : Source → Set Int)
    (h : ∀ s ∈ d.sources, ∀ k, ∃ t : Option WallTime,
      s.nthAfter d (Moment.universal now) k = .ok (t.map Moment.universal) ∧
        NthAfter (points s) now.ticks k (t.map WallTime.ticks)) (k : Nat) :
    ∃ t : Option WallTime, d.next (Moment.universal now) k = .ok (t.map Moment.universal) ∧
      Answers (d.sources.map points) now.ticks k (t.map WallTime.ticks) := by
  choose! date hdate hpoints using h
  -- what comes after `now` in a source does not come before its first date
  have hfirst : ∀ s ∈ d.sources, ∀ t ∈ points s, now.ticks < t →
      ∃ m, date s 0 = some m ∧ m.ticks ≤ t := by
    intro s hs t ht hnow
    have hp := hpoints s hs 0
    cases hm : date s 0 with
    | none =>
      rw [hm] at hp
      exact absurd (hp.none_first ht) (not_le.mpr hnow)
    | some m =>
      rw [hm] at hp
      exact ⟨m, rfl, hp.first_le ht hnow⟩
  have horder : ∀ s ∈ d.sources, ∀ s' ∈ d.sources, ∀ m ∈ (date s 0).map Moment.universal,
      ∀ m' ∈ (date s' 0).map Moment.universal, InOrder m m' := by
    intro s _ s' _ m hm m' _
    obtain ⟨t, -, rfl⟩ := Option.map_eq_some_iff.mp hm
    unfold InOrder
    rw [Moment.before_eq (.inl rfl), decide_eq_true_iff]
  rcases next_of_winner (fun s hs => hdate s hs 0) horder with
    ⟨hnone, hnext⟩ | ⟨front, s, back, m, hsources, hm, hfront, hback, hnext⟩
  · refine ⟨none, hnext k, .inl ⟨rfl, fun S hS t ht => ?_⟩⟩
    obtain ⟨s, hs, rfl⟩ := List.mem_map.mp hS
    by_contra hnow
    obtain ⟨m, hm, -⟩ := hfirst s hs t ht (not_le.mp hnow)
    have hnone := hnone s hs
    rw [hm] at hnone
    cases hnone
  · obtain ⟨first, hdate₀, rfl⟩ := Option.map_eq_some_iff.mp hm
    have hmem : s ∈ d.sources := by simp [hsources]
    have hnext : d.next (Moment.universal now) k = .ok ((date s k).map Moment.universal) := by
      rw [hnext k, hdate s hmem k]
      exact answer_universal _
    refine ⟨date s k, hnext, .inr ⟨front.map points, points s, back.map points, first.ticks,
        by simp [hsources], ?_, ?_, ?_, hpoints s hmem k⟩⟩
    · have hp := hpoints s hmem 0
      rwa [hdate₀] at hp
    · intro S hS t ht hnow
      obtain ⟨s', hs', rfl⟩ := List.mem_map.mp hS
      obtain ⟨m, hm, hle⟩ := hfirst s' (by simp [hsources, hs']) t ht hnow
      have hlt := hfront s' hs' (Moment.universal m) (by rw [hm]; rfl)
      rw [Moment.instant_universal, Moment.instant_universal] at hlt
      exact lt_of_lt_of_le hlt hle
    · intro S hS t ht hnow
      obtain ⟨s', hs', rfl⟩ := List.mem_map.mp hS
      obtain ⟨m, hm, hle⟩ := hfirst s' (by simp [hsources, hs']) t ht hnow
      have hle' := hback s' hs' (Moment.universal m) (by rw [hm]; rfl)
      rw [Moment.instant_universal, Moment.instant_universal] at hle'
      exact le_trans hle' hle

end Descriptor

end ScanPolicy
