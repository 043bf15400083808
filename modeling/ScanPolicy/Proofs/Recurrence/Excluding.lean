import ScanPolicy.Proofs.Moment.Comparison
import ScanPolicy.Proofs.Recurrence.Search
import ScanPolicy.Proofs.Recurrence.WalkOrder

/-!
# Walks without excluded dates

A walk keeps the excluded dates in order and drops those that it has passed. If they agree
with its dates as their instants do, it yields what it would yield without them, but for
the dates with one of their instants.

- `dropWhile_before`: the excluded dates that are left at a date.
- `RuleSet.step_eq`: one step of a walk on which no rule excludes dates.
- `RuleSet.yielded_excluding`: the dates that such a walk yields.
-/

namespace ScanPolicy

/-- Whether a moment has none of the instants of some moments. -/
def Moment.isKept (excluded : List Moment) (m : Moment) : Bool :=
  excluded.all fun e => e.instant != m.instant

theorem Moment.isKept_iff {excluded : List Moment} {m : Moment} :
    m.isKept excluded = true ↔ ∀ e ∈ excluded, e.instant ≠ m.instant := by
  unfold isKept
  rw [List.all_eq_true]
  exact forall₂_congr fun e _ => bne_iff_ne

/-- The excluded dates that are left at a date: the earlier ones are dropped, and the first one that is
left has the instant of the date if one of them has it. -/
theorem dropWhile_before {excluded : List Moment} {date : Moment}
    (hsorted : excluded.Pairwise fun a b => a.instant ≤ b.instant)
    (hagree : ∀ e ∈ excluded, e.Agrees date) :
    ((excluded.dropWhile (·.before date)).head?.any (·.same date) = !date.isKept excluded) ∧
      ∀ e ∈ excluded, e ∉ excluded.dropWhile (·.before date) → e.instant < date.instant := by
  induction excluded with
  | nil => exact ⟨rfl, fun e he => absurd he List.not_mem_nil⟩
  | cons e rest ih =>
    obtain ⟨he, hrest⟩ := List.pairwise_cons.mp hsorted
    obtain ⟨hhead, htail⟩ := List.forall_mem_cons.mp hagree
    by_cases hbefore : e.before date = true
    · -- an earlier date is dropped and has another instant
      obtain ⟨hfirst, hdropped⟩ := ih hrest htail
      have hlt := hhead.before.mp hbefore
      rw [List.dropWhile_cons, if_pos hbefore]
      refine ⟨?_, fun x hx hnot => ?_⟩
      · rw [hfirst, Moment.isKept, Moment.isKept, List.all_cons,
          show (e.instant != date.instant) = true from bne_iff_ne.mpr (by omega), Bool.true_and]
      · rcases List.mem_cons.mp hx with rfl | hx
        · exact hlt
        · exact hdropped x hx hnot
    · rw [List.dropWhile_cons, if_neg hbefore]
      refine ⟨?_, fun x hx hnot => absurd hx hnot⟩
      have hle : date.instant ≤ e.instant := not_lt.mp fun h => hbefore (hhead.before.mpr h)
      show e.same date = !date.isKept (e :: rest)
      rw [Bool.eq_iff_iff, hhead.same, Bool.not_eq_true', Bool.eq_false_iff, Ne, Moment.isKept_iff]
      constructor
      · exact fun heq hkept => hkept e List.mem_cons_self heq
      · intro hkept
        push Not at hkept
        obtain ⟨x, hx, heq⟩ := hkept
        rcases List.mem_cons.mp hx with rfl | hx
        · exact heq
        · have := he x hx
          omega

/-- The dates from a date on are kept by what is left of the excluded dates if they were kept before. -/
theorem isKept_of_dropped {excluded left : List Moment} {date m : Moment}
    (hsub : ∀ e ∈ left, e ∈ excluded)
    (hdropped : ∀ e ∈ excluded, e ∉ left → e.instant < date.instant)
    (hle : date.instant ≤ m.instant) : m.isKept left = m.isKept excluded := by
  rw [Bool.eq_iff_iff, Moment.isKept_iff, Moment.isKept_iff]
  refine ⟨fun h e he => ?_, fun h e he => h e (hsub e he)⟩
  by_cases hleft : e ∈ left
  · exact h e hleft
  · exact ((hdropped e he hleft).trans_le hle).ne

namespace RuleSet

variable {s : RuleSet}

/-! ## Steps of a walk on which no rule excludes dates -/

theorem step_of_advanceFirst {x : Except Fault (Option (List Lane))}
    (hfirst : Lane.advanceFirst s.lanes = x) (hx : x ≠ .ok none) :
    s.step = x >>= fun lanes => .ok (.silent { s with lanes := lanes.getD [] }) := by
  unfold step
  rw [hfirst]
  cases x with
  | error e => rfl
  | ok lanes =>
    cases lanes with
    | none => exact absurd rfl hx
    | some lanes => rfl

theorem step_of_earliest_none (hrules : s.excludedLanes = [])
    (hfirst : Lane.advanceFirst s.lanes = .ok none) (hearliest : Lane.earliest s.lanes = none) :
    s.step = .ok .done := by
  unfold step
  simp only [bind, Except.bind, hfirst, hrules, Lane.advanceFirst, hearliest]
  rfl

section

variable (hrules : s.excludedLanes = []) (hfirst : Lane.advanceFirst s.lanes = .ok none)
  {date : Moment} {walk : Walk} {others : List Lane}
  (hearliest : Lane.earliest s.lanes = some (date, walk, others))

include hrules hfirst hearliest

theorem step_of_repeats (hrepeats : repeats s.last date = true) :
    s.step = .ok (.silent { s with lanes := .waiting walk :: others }) := by
  unfold step
  simp only [bind, Except.bind, hfirst, hrules, Lane.advanceFirst, hearliest, if_pos hrepeats]
  rfl

/-- A new date is yielded if the first excluded date that is left is another one. -/
theorem step_of_new (hnew : repeats s.last date = false) :
    s.step = .ok (
      let excluded := s.excluded.dropWhile (·.before date)
      let next := { s with lanes := .waiting walk :: others, excluded, last := some date }
      if excluded.head?.any (·.same date) then .silent next else .emit date next) := by
  unfold step
  simp only [bind, Except.bind, hfirst, hrules, Lane.advanceFirst, hearliest, hnew, Lane.earliest]
  rw [if_neg Bool.false_ne_true, apply_ite Except.ok]
  rfl

end

/-! ## The dates that are yielded -/

/-- A walk with excluded dates yields what it yields without them, but for the dates with one of their
instants. -/
theorem yielded_excluding {fuel : Nat} (hrules : s.excludedLanes = [])
    (hsorted : s.excluded.Pairwise fun a b => a.instant ≤ b.instant)
    (hagree : ∀ e ∈ s.excluded, ∀ m ∈ yielded step fuel { s with excluded := [] }, e.Agrees m)
    (hordered : (yielded step fuel { s with excluded := [] }).Pairwise
      fun a b => a.instant ≤ b.instant) :
    yielded step fuel s = (yielded step fuel { s with excluded := [] }).filter
      (·.isKept s.excluded) := by
  induction fuel generalizing s with
  | zero => rfl
  | succ fuel ih =>
    unfold yielded at hagree hordered ⊢
    let bare : RuleSet := { s with excluded := [] }
    cases hfirst : Lane.advanceFirst s.lanes with
    | error e =>
      rw [step_of_advanceFirst hfirst (by simp), step_of_advanceFirst (s := bare) hfirst (by simp)]
      rfl
    | ok o =>
      cases o with
      | some lanes =>
        rw [step_of_advanceFirst (s := bare) hfirst (by simp)] at hagree hordered ⊢
        rw [step_of_advanceFirst hfirst (by simp)]
        exact ih (s := { s with lanes }) hrules hsorted hagree hordered
      | none =>
        cases hearliest : Lane.earliest s.lanes with
        | none =>
          rw [step_of_earliest_none hrules hfirst hearliest,
            step_of_earliest_none (s := bare) hrules hfirst hearliest]
          rfl
        | some found =>
          obtain ⟨date, walk, others⟩ := found
          cases hnew : repeats s.last date with
          | true =>
            rw [step_of_repeats (s := bare) hrules hfirst hearliest hnew] at hagree hordered ⊢
            rw [step_of_repeats hrules hfirst hearliest hnew]
            exact ih (s := { s with lanes := .waiting walk :: others }) hrules hsorted hagree hordered
          | false =>
            rw [step_of_new (s := bare) hrules hfirst hearliest hnew] at hagree hordered ⊢
            rw [step_of_new hrules hfirst hearliest hnew]
            -- without excluded dates the date is yielded
            obtain ⟨hle, hordered⟩ := List.pairwise_cons.mp hordered
            obtain ⟨hhead, hdropped⟩ := dropWhile_before hsorted fun e he =>
              hagree e he date List.mem_cons_self
            have hsub := (List.dropWhile_sublist (l := s.excluded) (·.before date)).subset
            have hrest := (ih
              (s := ⟨.waiting walk :: others, s.excludedLanes,
                s.excluded.dropWhile (·.before date), some date⟩) hrules
              (hsorted.sublist (List.dropWhile_sublist _))
              (fun e he m hm => hagree e (hsub he) m (List.mem_cons_of_mem _ hm))
              hordered).trans
              (List.filter_congr fun m hm => isKept_of_dropped hsub hdropped (hle m hm))
            dsimp only
            rw [hhead]
            cases hkept : date.isKept s.excluded with
            | true =>
              refine Eq.trans ?_ (List.filter_cons_of_pos hkept).symm
              exact congrArg (date :: ·) hrest
            | false =>
              refine Eq.trans ?_ (List.filter_cons_of_neg (by simp [hkept])).symm
              exact hrest

end RuleSet

end ScanPolicy
