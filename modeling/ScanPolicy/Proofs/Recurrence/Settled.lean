import Mathlib.Data.List.Sort
import Mathlib.Order.Basic
import ScanPolicy.Proofs.Recurrence.Completion

/-!
# Rules that are completed again

The given parts of a completed rule are in normal form: completing the rule from them
again changes nothing. If the parts that it takes from its anchor are given as well, the
rule may be completed from another anchor, as long as its hours or minutes are reached
from there too.

- `Parts.settle`: the parts with those that are taken from the anchor.
- `Rule.movedTo`: the rule with another anchor.
- `Rule.ofParts_given`: a rule completed from its own parts.
- `Rule.ofParts_settle`: a rule completed from another anchor.
-/

namespace ScanPolicy

attribute [ext] Parts

namespace Parts

/-- The parts together with those that a rule takes from the date and the time of its
anchor. -/
def settle (f : Frequency) (t : WallTime) (p : Parts) : Parts :=
  let p := if p.choosesDays then p else match f with
    | .yearly => { p with
        months := some (p.months.getD [(t.date.month : Int)])
        monthDays := some [(t.date.day : Int)] }
    | .monthly => { p with monthDays := some [(t.date.day : Int)] }
    | .weekly => { p with weekdays := some [⟨t.weekday, none⟩] }
    | _ => p
  let p := if f.isSubDaily then p else { p with hours := some (p.hours.getD [(t.hour : Int)]) }
  let p := if f == .minutely then p
    else { p with minutes := some (p.minutes.getD [(t.minute : Int)]) }
  { p with seconds := some (p.seconds.getD [(t.second : Int)]) }

end Parts

namespace Rule

/-! ## Lists in order -/

/-- The positive and the negative numbers of a list in order, put in order again. -/
theorem sortedInts_split {xs : List Int} (hx : xs.Pairwise (· < ·)) :
    (sortedInts (xs.filter (0 < ·) ++ xs.filter (· < 0))).filter (0 < ·) = xs.filter (0 < ·) ∧
      (sortedInts (xs.filter (0 < ·) ++ xs.filter (· < 0))).filter (· < 0) = xs.filter (· < 0) := by
  constructor
  · refine List.Pairwise.eq_of_mem_iff ((sortedInts_pairwise _).sublist List.filter_sublist)
      (hx.sublist List.filter_sublist) fun a => ?_
    simp only [List.mem_filter, mem_sortedInts, List.mem_append, decide_eq_true_eq]
    constructor
    · rintro ⟨h | h, hpos⟩
      · exact h
      · omega
    · exact fun h => ⟨.inl h, h.2⟩
  · refine List.Pairwise.eq_of_mem_iff ((sortedInts_pairwise _).sublist List.filter_sublist)
      (hx.sublist List.filter_sublist) fun a => ?_
    simp only [List.mem_filter, mem_sortedInts, List.mem_append, decide_eq_true_eq]
    constructor
    · rintro ⟨h | h, hneg⟩
      · omega
      · exact h
    · exact fun h => ⟨.inr h, h.2⟩

/-! ## The given parts of a rule -/

/-- The parts that a rule keeps as given. -/
def givenOf (f : Frequency) (t : WallTime) (p : Parts) (hours minutes : List Int) : Parts :=
  let days := monthDaysOf f t p
  let plain := plainWeekdays f (weekdayPartsOf f t p)
  let numbered := numberedWeekdaysOf f (weekdayPartsOf f t p)
  { positions := p.positions
    months := p.months.map sortedInts
    monthDays := if takesDays p && f.numbersWeekdays then none
      else p.monthDays.map fun _ => days.filter (0 < ·) ++ days.filter (· < 0)
    yearDays := p.yearDays.map sortedInts
    easters := p.easters
    weekNumbers := p.weekNumbers.map sortedInts
    weekdays := if takesDays p && f == .weekly then none
      else p.weekdays.map fun _ =>
        plain.map (⟨·, none⟩) ++ numbered.map fun (w, n) => ⟨w, some n⟩
    hours := p.hours.map fun _ => hours
    minutes := p.minutes.map fun _ => minutes
    seconds := p.seconds.map sortedInts }

section Given

variable {f : Frequency} {t t' : WallTime} {p : Parts} {hours minutes : List Int}

/-- No day of a month is zero, if the rule may take its days from its anchor. -/
def NoZero (f : Frequency) (p : Parts) : Prop :=
  f.isSubDaily = false → ∀ ds, p.monthDays = some ds → (0 : Int) ∉ ds

/-- Whether the days of a period are taken from the anchor if no part chooses them. -/
def mayTakeDays : Frequency → Bool
  | .yearly | .monthly | .weekly => true
  | _ => false

/-- Another part than the days of a month chooses days, if those are all zero, so that none of them is
kept. -/
def KeepsDays (f : Frequency) (p : Parts) : Prop :=
  mayTakeDays f = true → ∀ ds, p.monthDays = some ds → ds ≠ [] → (∀ d ∈ ds, d = 0) →
    { p with monthDays := none }.choosesDays = true

theorem NoZero.keepsDays (h : NoZero f p) : KeepsDays f p := by
  intro hf ds hds hne hzero
  obtain ⟨d, rest, rfl⟩ := List.exists_cons_of_ne_nil hne
  have hlong : f.isSubDaily = false := by
    cases f <;> first | rfl | cases hf
  have hd := hzero d List.mem_cons_self
  exact absurd (hd ▸ List.mem_cons_self) (h hlong _ hds)

theorem choosesDays_eq (p : Parts) : p.choosesDays =
    (Parts.isGiven p.monthDays || { p with monthDays := none }.choosesDays) := by
  unfold Parts.choosesDays
  cases Parts.isGiven p.monthDays <;> simp [Parts.isGiven]

theorem isGiven_map_sortedInts (xs : Option (List Int)) :
    Parts.isGiven (xs.map sortedInts) = Parts.isGiven xs := by
  cases xs with
  | none => rfl
  | some xs =>
    cases xs with
    | nil => rfl
    | cons x xs =>
      show Parts.isGiven (some (sortedInts (x :: xs))) = true
      cases h : sortedInts (x :: xs) with
      | nil => exact absurd (sortedInts_eq_nil_iff.mp h) (List.cons_ne_nil _ _)
      | cons y ys => rfl

/-- If days are taken from the anchor, no days of a month and no weekdays are given. -/
theorem not_given_of_takesDays (h : takesDays p = true) :
    Parts.isGiven p.monthDays = false ∧ p.weekdays = none := by
  unfold takesDays Parts.choosesDays at h
  cases hweekdays : p.weekdays with
  | none =>
    refine ⟨?_, rfl⟩
    cases hmonth : Parts.isGiven p.monthDays with
    | false => rfl
    | true => simp [hmonth] at h
  | some ws => simp [hweekdays] at h

/-- Days of a month are kept unless they are all zero. -/
theorem isGiven_monthDays_givenOf
    (hkept : ∀ ds, p.monthDays = some ds → ds ≠ [] → ∃ d ∈ ds, d ≠ 0) :
    Parts.isGiven (givenOf f t p hours minutes).monthDays = Parts.isGiven p.monthDays := by
  show Parts.isGiven (if takesDays p && f.numbersWeekdays then none else _) = _
  split
  · next htakes =>
    rw [(not_given_of_takesDays (Bool.and_eq_true_iff.mp htakes).1).1]
    rfl
  · next htakes =>
    cases hmonth : p.monthDays with
    | none => rfl
    | some ds =>
      have hdays : monthDaysOf f t p = sortedInts ds := by
        unfold monthDaysOf
        rw [if_neg htakes, hmonth]
        rfl
      rw [hdays]
      cases ds with
      | nil => rfl
      | cons d ds =>
        obtain ⟨e, he, hne⟩ := hkept _ hmonth (List.cons_ne_nil d ds)
        have hmem : e ∈ (sortedInts (d :: ds)).filter (0 < ·) ++
            (sortedInts (d :: ds)).filter (· < 0) := by
          simp only [List.mem_append, List.mem_filter, mem_sortedInts, decide_eq_true_eq]
          rcases lt_or_gt_of_ne hne with h | h
          · exact .inr ⟨he, h⟩
          · exact .inl ⟨he, h⟩
        show Parts.isGiven (some _) = true
        generalize (sortedInts (d :: ds)).filter (0 < ·) ++
          (sortedInts (d :: ds)).filter (· < 0) = xs at hmem
        cases xs with
        | nil => cases hmem
        | cons x xs => rfl

theorem isSome_weekdays_givenOf :
    (givenOf f t p hours minutes).weekdays.isSome = p.weekdays.isSome := by
  show (if takesDays p && f == .weekly then none else _ : Option (List WeekdayPart)).isSome = _
  split
  · next htakes =>
    rw [(not_given_of_takesDays (Bool.and_eq_true_iff.mp htakes).1).2]
  · exact Option.isSome_map

/-- The other parts that choose days are kept. -/
theorem choosesDays_otherwise_givenOf :
    { givenOf f t p hours minutes with monthDays := none }.choosesDays =
      { p with monthDays := none }.choosesDays := by
  unfold Parts.choosesDays
  dsimp only
  rw [isSome_weekdays_givenOf]
  show (Parts.isGiven (p.weekNumbers.map sortedInts) || Parts.isGiven (p.yearDays.map sortedInts) ||
    _ || _ || _) = _
  rw [isGiven_map_sortedInts, isGiven_map_sortedInts]
  rfl

/-- The parts that a rule keeps choose days if the given ones do. -/
theorem choosesDays_givenOf (hzero : NoZero f p) (hlong : f.isSubDaily = false) :
    (givenOf f t p hours minutes).choosesDays = p.choosesDays := by
  rw [choosesDays_eq, choosesDays_eq p, choosesDays_otherwise_givenOf, isGiven_monthDays_givenOf]
  intro ds hds hne
  obtain ⟨d, rest, rfl⟩ := List.exists_cons_of_ne_nil hne
  exact ⟨d, List.mem_cons_self, fun h => hzero hlong _ hds (h ▸ List.mem_cons_self)⟩

/-- A rule that may take its days from its anchor keeps its choice. -/
theorem KeepsDays.choosesDays (hkeeps : KeepsDays f p) (hf : mayTakeDays f = true) :
    (givenOf f t p hours minutes).choosesDays = p.choosesDays := by
  rw [choosesDays_eq, choosesDays_eq p, choosesDays_otherwise_givenOf]
  by_cases hkept : ∀ ds, p.monthDays = some ds → ds ≠ [] → ∃ d ∈ ds, d ≠ 0
  · rw [isGiven_monthDays_givenOf hkept]
  · push Not at hkept
    obtain ⟨ds, hds, hne, hzero⟩ := hkept
    rw [hkeeps hf ds hds hne hzero, Bool.or_true, Bool.or_true]

/-- No day that is kept is zero. -/
theorem noZero_givenOf (f : Frequency) (t : WallTime) (p : Parts) (hours minutes : List Int) :
    NoZero f (givenOf f t p hours minutes) := by
  have hsplit : ∀ xs : List Int, (0 : Int) ∉ xs.filter (0 < ·) ++ xs.filter (· < 0) := by
    intro xs h
    simp [List.mem_append, List.mem_filter] at h
  intro _ ds hds
  have hgiven : (givenOf f t p hours minutes).monthDays = if takesDays p && f.numbersWeekdays then none
    else p.monthDays.map fun _ =>
      (monthDaysOf f t p).filter (0 < ·) ++ (monthDaysOf f t p).filter (· < 0) := rfl
  rw [hgiven] at hds
  split at hds
  · cases hds
  · obtain ⟨_, -, rfl⟩ := Option.map_eq_some_iff.mp hds
    exact hsplit _

/-- The parts that a rule keeps leave its days to its anchor if the given ones do, as far as it
takes days from there. -/
theorem takesDays_givenOf (hkeeps : KeepsDays f p) {takes : Bool}
    (htakes : mayTakeDays f = false → takes = false) :
    (takesDays (givenOf f t p hours minutes) && takes) = (takesDays p && takes) := by
  cases hf : mayTakeDays f with
  | false => rw [htakes hf, Bool.and_false, Bool.and_false]
  | true =>
    unfold takesDays
    rw [hkeeps.choosesDays hf]

theorem takes_of_mayTakeDays (hf : mayTakeDays f = false) :
    f.numbersWeekdays = false ∧ (f == .yearly) = false ∧ (f == .weekly) = false := by
  cases f <;> first | exact ⟨rfl, rfl, rfl⟩ | cases hf

/-! ## Completing from the kept parts -/

theorem monthsOf_givenOf (hkeeps : KeepsDays f p) :
    monthsOf f t (givenOf f t p hours minutes) = monthsOf f t p := by
  unfold monthsOf
  rw [takesDays_givenOf hkeeps (fun hf => (takes_of_mayTakeDays hf).2.1)]
  unfold givenOf
  dsimp only
  cases p.months with
  | none => rfl
  | some ms => exact sortedInts_sortedInts ms

/-- The days of a month that are kept, put in order. -/
theorem monthDays_split (ds : Option (List Int)) (days : List Int)
    (hdays : days = sortedInts (ds.getD [])) :
    (sortedInts ((ds.map fun _ => days.filter (0 < ·) ++ days.filter (· < 0)).getD [])).filter (0 < ·) =
        days.filter (0 < ·) ∧
      (sortedInts ((ds.map fun _ => days.filter (0 < ·) ++ days.filter (· < 0)).getD [])).filter (· < 0) =
        days.filter (· < 0) := by
  subst hdays
  cases ds with
  | none => exact ⟨rfl, rfl⟩
  | some ds => exact sortedInts_split (sortedInts_pairwise ds)

theorem monthDaysOf_givenOf (hkeeps : KeepsDays f p) :
    (monthDaysOf f t (givenOf f t p hours minutes)).filter (0 < ·) = (monthDaysOf f t p).filter (0 < ·) ∧
      (monthDaysOf f t (givenOf f t p hours minutes)).filter (· < 0) =
        (monthDaysOf f t p).filter (· < 0) := by
  have hgiven : (givenOf f t p hours minutes).monthDays = if takesDays p && f.numbersWeekdays then none
    else p.monthDays.map fun _ =>
      (monthDaysOf f t p).filter (0 < ·) ++ (monthDaysOf f t p).filter (· < 0) := rfl
  by_cases htakes : (takesDays p && f.numbersWeekdays) = true
  · have hsame : monthDaysOf f t (givenOf f t p hours minutes) = monthDaysOf f t p := by
      unfold monthDaysOf
      rw [takesDays_givenOf hkeeps (fun hf => (takes_of_mayTakeDays hf).1), if_pos htakes, if_pos htakes]
    rw [hsame]
    exact ⟨rfl, rfl⟩
  · rw [if_neg htakes] at hgiven
    have hdays : monthDaysOf f t p = sortedInts (p.monthDays.getD []) := by
      unfold monthDaysOf
      rw [if_neg htakes]
    have hagain : monthDaysOf f t (givenOf f t p hours minutes) =
        sortedInts ((givenOf f t p hours minutes).monthDays.getD []) := by
      unfold monthDaysOf
      rw [takesDays_givenOf hkeeps (fun hf => (takes_of_mayTakeDays hf).1), if_neg htakes]
    rw [hagain, hgiven]
    exact monthDays_split p.monthDays _ hdays

/-! ## Weekdays -/

/-- Weekdays as they are kept: those without numbers first. -/
def keptWeekdays (plain : List Nat) (numbered : List (Nat × Int)) : List WeekdayPart :=
  plain.map (⟨·, none⟩) ++ numbered.map fun (w, n) => ⟨w, some n⟩

theorem numbered_pairwise (xs : List (Nat × Int)) :
    (increasing numberedBefore xs).Pairwise fun a b => numberedBefore a b = true := by
  refine increasing_pairwise (fun a b c => ?_) (fun a b => ?_) xs
  · unfold numberedBefore
    simp only [Bool.or_eq_true, Bool.and_eq_true, decide_eq_true_eq, beq_iff_eq]
    omega
  · unfold numberedBefore
    simp only [Bool.or_eq_true, Bool.or_eq_false_iff, Bool.and_eq_true, Bool.and_eq_false_iff,
      decide_eq_true_eq, decide_eq_false_iff_not, beq_iff_eq, beq_eq_false_iff_ne, Prod.ext_iff,
      ne_eq]
    omega

theorem numberedWeekdaysOf_eq_nil (hf : f.numbersWeekdays = false) (ws : List WeekdayPart) :
    numberedWeekdaysOf f ws = [] := by
  unfold numberedWeekdaysOf
  rw [increasing_eq_nil_iff, List.filterMap_eq_nil_iff]
  intro w _
  have hplain : isPlain f w = true := by
    unfold isPlain
    rw [hf, Bool.not_false, Bool.or_true]
  rw [if_pos hplain]

theorem plainWeekdays_kept (ws : List WeekdayPart) :
    plainWeekdays f (keptWeekdays (plainWeekdays f ws) (numberedWeekdaysOf f ws)) =
      plainWeekdays f ws := by
  have hsorted : (plainWeekdays f ws).Pairwise fun a b => decide (a < b) = true :=
    (increasing_nat _).imp fun h => by simpa using h
  have hplain : ((plainWeekdays f ws).map fun w => (⟨w, none⟩ : WeekdayPart)).filter (isPlain f) =
      (plainWeekdays f ws).map fun w => ⟨w, none⟩ := by
    refine List.filter_eq_self.mpr fun w hw => ?_
    obtain ⟨n, -, rfl⟩ := List.mem_map.mp hw
    rfl
  have hnumbered : ((numberedWeekdaysOf f ws).map fun (w, n) => (⟨w, some n⟩ : WeekdayPart)).filter
      (isPlain f) = [] := by
    cases hf : f.numbersWeekdays with
    | false =>
      rw [numberedWeekdaysOf_eq_nil hf]
      rfl
    | true =>
      refine List.filter_eq_nil_iff.mpr fun w hw => ?_
      obtain ⟨n, -, rfl⟩ := List.mem_map.mp hw
      unfold isPlain
      rw [hf]
      simp
  show increasing _ (((keptWeekdays (plainWeekdays f ws) (numberedWeekdaysOf f ws)).filter
    (isPlain f)).map (·.weekday)) = _
  unfold keptWeekdays
  rw [List.filter_append, hplain, hnumbered, List.append_nil, List.map_map]
  show increasing _ ((plainWeekdays f ws).map id) = _
  rw [List.map_id]
  exact increasing_of_pairwise hsorted

theorem numberedWeekdays_kept (ws : List WeekdayPart) :
    numberedWeekdaysOf f (keptWeekdays (plainWeekdays f ws) (numberedWeekdaysOf f ws)) =
      numberedWeekdaysOf f ws := by
  cases hf : f.numbersWeekdays with
  | false => rw [numberedWeekdaysOf_eq_nil hf, numberedWeekdaysOf_eq_nil hf]
  | true =>
    have hplain : ((plainWeekdays f ws).map fun w => (⟨w, none⟩ : WeekdayPart)).filterMap
        (fun w => if isPlain f w then none else w.number.map (w.weekday, ·)) = [] := by
      refine List.filterMap_eq_nil_iff.mpr fun w hw => ?_
      obtain ⟨n, -, rfl⟩ := List.mem_map.mp hw
      rfl
    have hnumbered : ((numberedWeekdaysOf f ws).map fun (w, n) => (⟨w, some n⟩ : WeekdayPart)).filterMap
        (fun w => if isPlain f w then none else w.number.map (w.weekday, ·)) =
          numberedWeekdaysOf f ws := by
      rw [List.filterMap_map]
      conv_rhs => rw [← List.filterMap_some (l := numberedWeekdaysOf f ws)]
      refine List.filterMap_congr fun x _ => ?_
      simp [isPlain, hf]
    show increasing _ ((keptWeekdays (plainWeekdays f ws) (numberedWeekdaysOf f ws)).filterMap
      fun w => if isPlain f w then none else w.number.map (w.weekday, ·)) = _
    unfold keptWeekdays
    rw [List.filterMap_append, hplain, List.nil_append, hnumbered]
    exact increasing_of_pairwise (numbered_pairwise _)

theorem weekdayPartsOf_givenOf (hkeeps : KeepsDays f p) :
    plainWeekdays f (weekdayPartsOf f t (givenOf f t p hours minutes)) =
        plainWeekdays f (weekdayPartsOf f t p) ∧
      numberedWeekdaysOf f (weekdayPartsOf f t (givenOf f t p hours minutes)) =
        numberedWeekdaysOf f (weekdayPartsOf f t p) := by
  have hgiven : (givenOf f t p hours minutes).weekdays = if takesDays p && f == .weekly then none
    else p.weekdays.map fun _ => keptWeekdays (plainWeekdays f (weekdayPartsOf f t p))
      (numberedWeekdaysOf f (weekdayPartsOf f t p)) := rfl
  by_cases htakes : (takesDays p && f == .weekly) = true
  · have hsame : weekdayPartsOf f t (givenOf f t p hours minutes) = weekdayPartsOf f t p := by
      unfold weekdayPartsOf
      rw [takesDays_givenOf hkeeps (fun hf => (takes_of_mayTakeDays hf).2.2), if_pos htakes, if_pos htakes]
    rw [hsame]
    exact ⟨rfl, rfl⟩
  · rw [if_neg htakes] at hgiven
    have hagain : weekdayPartsOf f t (givenOf f t p hours minutes) =
        (givenOf f t p hours minutes).weekdays.getD [] := by
      unfold weekdayPartsOf
      rw [takesDays_givenOf hkeeps (fun hf => (takes_of_mayTakeDays hf).2.2), if_neg htakes]
    rw [hagain, hgiven]
    cases hws : p.weekdays with
    | none =>
      have hnil : weekdayPartsOf f t p = [] := by
        unfold weekdayPartsOf
        rw [if_neg htakes, hws]
        rfl
      rw [hnil]
      exact ⟨rfl, rfl⟩
    | some ws =>
      exact ⟨plainWeekdays_kept _, numberedWeekdays_kept _⟩

/-! ## Hours, minutes and seconds -/

/-- What is reached from one start is reached from another one that is whole steps away. -/
theorem reachable_again {interval base start start' : Nat} {values reached : List Int}
    (h : reachable interval base start values = .ok reached)
    (hphase : ((start' : Int) - start) % (Nat.gcd interval base : Int) = 0) :
    reachable interval base start' reached = .ok reached := by
  obtain ⟨hne, hreached⟩ := reachable_eq_ok_iff.mp h
  have hall : reached.filter (isReached interval base start') = reached := by
    refine List.filter_eq_self.mpr fun v hv => ?_
    rw [hreached, mem_sortedInts, List.mem_filter] at hv
    have hv := hv.2
    unfold isReached at hv ⊢
    simp only [Bool.or_eq_true, beq_iff_eq] at hv ⊢
    refine hv.imp_right fun hv => ?_
    have hsplit : v - (start' : Int) = (v - start) - ((start' : Int) - start) := by omega
    rw [hsplit]
    exact Int.emod_eq_zero_of_dvd (Int.dvd_sub (Int.dvd_of_emod_eq_zero hv)
      (Int.dvd_of_emod_eq_zero hphase))
  refine reachable_eq_ok_iff.mpr ⟨?_, ?_⟩
  · rw [hall]
    intro hnil
    rw [hnil] at hreached
    exact hne (sortedInts_eq_nil_iff.mp hreached.symm)
  · rw [hall, hreached, sortedInts_sortedInts]

variable {interval : Nat}

/-- The hours of a rule that is completed again. -/
theorem hoursOf_given {hour hour' : Nat} {given : Option (List Int)}
    (h : hoursOf f interval hour given = .ok hours)
    (hphase : f = .hourly → given.isSome → ((hour' : Int) - hour) % (Nat.gcd interval 24 : Int) = 0) :
    (f.isSubDaily = true ∨ hour' = hour →
        hoursOf f interval hour' (given.map fun _ => hours) = .ok hours) ∧
      (f.isSubDaily = false →
        hoursOf f interval hour' (some ((given.map fun _ => hours).getD [(hour : Int)])) = .ok hours) := by
  have hsorted := sortedInts_of_pairwise (hoursOf_sorted h)
  cases given with
  | none =>
    have hhours := Except.ok.inj h
    constructor
    · rintro (hsub | rfl)
      · rw [hsub, if_pos rfl] at hhours
        rw [← hhours]
        show pure (if f.isSubDaily then [] else _) = _
        rw [hsub]
        rfl
      · exact h
    · intro hlong
      rw [hlong, if_neg Bool.false_ne_true] at hhours
      rw [← hhours]
      cases f <;> first | rfl | cases hlong
  | some hs =>
    have hagain : hoursOf f interval hour' (some hours) = .ok hours := by
      unfold hoursOf at h ⊢
      dsimp only at h ⊢
      split at h
      · next hf =>
        rw [if_pos hf]
        exact reachable_again h (hphase (eq_of_beq hf) rfl)
      · next hf =>
        rw [if_neg hf, hsorted]
        rfl
    exact ⟨fun _ => hagain, fun _ => hagain⟩

/-- The minutes of a rule that is completed again. -/
theorem minutesOf_given {minute minute' : Nat} {given : Option (List Int)}
    (h : minutesOf f interval minute given = .ok minutes)
    (hphase : f = .minutely → given.isSome →
      ((minute' : Int) - minute) % (Nat.gcd interval 60 : Int) = 0) :
    (f = .minutely ∨ minute' = minute →
        minutesOf f interval minute' (given.map fun _ => minutes) = .ok minutes) ∧
      (f ≠ .minutely → minutesOf f interval minute'
        (some ((given.map fun _ => minutes).getD [(minute : Int)])) = .ok minutes) := by
  have hsorted := sortedInts_of_pairwise (minutesOf_sorted h)
  cases given with
  | none =>
    have hminutes := Except.ok.inj h
    constructor
    · rintro (rfl | rfl)
      · rw [← hminutes]
        rfl
      · exact h
    · intro hlong
      rw [if_neg (by simpa using hlong)] at hminutes
      rw [← hminutes]
      cases f <;> first | rfl | exact absurd rfl hlong
  | some ms =>
    have hagain : minutesOf f interval minute' (some minutes) = .ok minutes := by
      unfold minutesOf at h ⊢
      dsimp only at h ⊢
      split at h
      · next hf =>
        rw [if_pos hf]
        exact reachable_again h (hphase (eq_of_beq hf) rfl)
      · next hf =>
        rw [if_neg hf, hsorted]
        rfl
    exact ⟨fun _ => hagain, fun _ => hagain⟩

theorem secondsOf_given (second : Nat) (given : Option (List Int)) :
    secondsOf second (given.map sortedInts) = secondsOf second given := by
  cases given with
  | none => rfl
  | some ss => exact sortedInts_sortedInts ss

theorem secondsOf_settled (second second' : Nat) (given : Option (List Int)) :
    secondsOf second' (some ((given.map sortedInts).getD [(second : Int)])) = secondsOf second given := by
  cases given with
  | none => rfl
  | some ss => exact sortedInts_sortedInts ss

end Given

/-! ## Completing again -/

section Again

variable {f : Frequency} {anchor : Moment} {interval weekStart : Nat} {count : Option Nat}
  {bound : Option Moment} {p : Parts} {r : Rule}

/-- What a completed rule keeps is in the parts that were given, with its own hours and minutes. -/
theorem given_eq_givenOf (h : ofParts f anchor interval weekStart count bound p = .ok r) :
    r.given = givenOf f anchor.wall.wholeSecond p r.hours r.minutes :=
  congrArg Rule.given (ofParts_eq_ok_iff.mp h).2.2.2.2

/-- A wall time without a part of a second stays as it is. -/
theorem wholeSecond_eq {t : WallTime} (h : t.ticks % Span.second = 0) : t.wholeSecond = t := by
  unfold WallTime.wholeSecond
  have hkeeps : t.ticks.fmod Span.second = 0 := by
    rw [Int.fmod_eq_emod_of_nonneg _ (by decide), h]
  rw [hkeeps, Int.sub_zero, WallTime.ofTicks?_ticks]
  rfl

theorem ticks_wholeSecond (t : WallTime) : t.wholeSecond.ticks = t.ticks - t.ticks % Span.second := by
  have hpos := t.nonneg
  have hlt := t.inCalendar
  have hmod : t.ticks.fmod Span.second = t.ticks % Span.second :=
    Int.fmod_eq_emod_of_nonneg _ (by decide)
  unfold WallTime.wholeSecond
  rw [hmod, Span.second_eq]
  obtain ⟨u, hu, hticks⟩ :=
    WallTime.ofTicks?_isSome (n := t.ticks - t.ticks % 1000000) (by omega) (by omega)
  rw [hu, Option.getD_some, hticks]

theorem wholeSecond_wholeSecond (t : WallTime) : t.wholeSecond.wholeSecond = t.wholeSecond := by
  refine wholeSecond_eq ?_
  rw [ticks_wholeSecond, Span.second_eq]
  omega

theorem givenOf_givenOf (hkeeps : KeepsDays f p) (t : WallTime) (hours minutes : List Int) :
    givenOf f t (givenOf f t p hours minutes) hours minutes = givenOf f t p hours minutes := by
  obtain ⟨hpos, hneg⟩ := @monthDaysOf_givenOf f t p hours minutes hkeeps
  obtain ⟨hplain, hnumbered⟩ :=
    @weekdayPartsOf_givenOf f t p hours minutes hkeeps
  have hmonthDays := @takesDays_givenOf f t p hours minutes hkeeps _ fun hf => (takes_of_mayTakeDays hf).1
  have hweekdays := @takesDays_givenOf f t p hours minutes hkeeps _ fun hf =>
    (takes_of_mayTakeDays hf).2.2
  have hints : ∀ xs : Option (List Int), (xs.map sortedInts).map sortedInts = xs.map sortedInts := by
    intro xs
    cases xs with
    | none => rfl
    | some xs => exact congrArg some (sortedInts_sortedInts xs)
  have hmap : ∀ {α : Type} (b : Bool) (xs : Option (List α)) (ys : List α),
      (if b then none else (if b then none else xs.map fun _ => ys).map fun _ => ys) =
        if b then none else xs.map fun _ => ys := by
    intro α b xs ys
    cases b <;> cases xs <;> rfl
  have hagain : ∀ (xs : Option (List Int)) (ys : List Int),
      (xs.map fun _ => ys).map (fun _ => ys) = xs.map fun _ => ys := by
    intro xs ys
    cases xs <;> rfl
  refine Parts.ext rfl (hints _) ?_ (hints _) rfl (hints _) ?_ (hagain _ _) (hagain _ _) (hints _)
  · show (if takesDays (givenOf f t p hours minutes) && f.numbersWeekdays then none
      else (givenOf f t p hours minutes).monthDays.map fun _ =>
        (monthDaysOf f t (givenOf f t p hours minutes)).filter (0 < ·) ++
          (monthDaysOf f t (givenOf f t p hours minutes)).filter (· < 0)) = _
    rw [hpos, hneg, hmonthDays]
    exact hmap _ _ _
  · show (if takesDays (givenOf f t p hours minutes) && f == .weekly then none
      else (givenOf f t p hours minutes).weekdays.map fun _ => keptWeekdays
        (plainWeekdays f (weekdayPartsOf f t (givenOf f t p hours minutes)))
        (numberedWeekdaysOf f (weekdayPartsOf f t (givenOf f t p hours minutes)))) = _
    rw [hplain, hnumbered, hweekdays]
    exact hmap _ _ _

theorem completed_givenOf (hkeeps : KeepsDays f p) (bound' : Option Moment) (hours minutes : List Int)
    (dayTimes : List TimeOfDay) :
    completed f { anchor with wall := anchor.wall.wholeSecond } interval weekStart count bound'
        (givenOf f anchor.wall.wholeSecond p hours minutes) hours minutes dayTimes =
      { completed f anchor interval weekStart count bound p hours minutes dayTimes with
        bound := bound' } := by
  obtain ⟨hpos, hneg⟩ := @monthDaysOf_givenOf f anchor.wall.wholeSecond p hours minutes hkeeps
  obtain ⟨hplain, hnumbered⟩ := @weekdayPartsOf_givenOf f anchor.wall.wholeSecond p hours minutes hkeeps
  have hints : ∀ xs : Option (List Int),
      sortedInts ((xs.map sortedInts).getD []) = sortedInts (xs.getD []) := by
    intro xs
    cases xs with
    | none => rfl
    | some xs => exact sortedInts_sortedInts xs
  unfold completed
  dsimp only
  rw [wholeSecond_wholeSecond, Rule.mk.injEq]
  refine ⟨rfl, rfl, rfl, rfl, rfl, rfl, rfl, monthsOf_givenOf hkeeps, hpos, hneg, hints _, rfl, hints _,
    hplain, hnumbered, rfl, rfl, secondsOf_given _ _, rfl, givenOf_givenOf hkeeps _ _ _⟩

/-- Completing a rule from the parts that it keeps changes nothing but the last moment. -/
theorem ofParts_given (h : ofParts f anchor interval weekStart count bound p = .ok r)
    (hkeeps : KeepsDays f p) (bound' : Option Moment) :
    ofParts f r.anchor interval weekStart count bound' r.given = .ok { r with bound := bound' } := by
  obtain ⟨hall, hhours, hminutes, htimes, hr⟩ := ofParts_eq_ok_iff.mp h
  have hgiven := given_eq_givenOf h
  have hanchor : r.anchor = { anchor with wall := anchor.wall.wholeSecond } := congrArg Rule.anchor hr
  have hagain : completed f r.anchor interval weekStart count bound' r.given r.hours r.minutes r.dayTimes =
      { completed f anchor interval weekStart count bound p r.hours r.minutes r.dayTimes with
        bound := bound' } := by
    rw [hanchor, hgiven]
    exact completed_givenOf hkeeps bound' _ _ _
  refine ofParts_eq_ok_iff.mpr ⟨?_, ?_, ?_, ?_, ?_⟩
  · rw [hgiven]
    exact hall
  · rw [hanchor, hgiven]
    dsimp only
    rw [wholeSecond_wholeSecond]
    exact (hoursOf_given hhours fun _ _ => by rw [Int.sub_self, Int.zero_emod]).1 (.inr rfl)
  · rw [hanchor, hgiven]
    dsimp only
    rw [wholeSecond_wholeSecond]
    exact (minutesOf_given hminutes fun _ _ => by rw [Int.sub_self, Int.zero_emod]).1 (.inr rfl)
  · rw [hanchor, hgiven]
    dsimp only
    rw [wholeSecond_wholeSecond]
    show dayTimesOf f r.hours r.minutes (secondsOf _ (p.seconds.map sortedInts)) = _
    rw [secondsOf_given]
    exact htimes
  · dsimp only
    rw [hagain]
    exact congrArg (fun r : Rule => { r with bound := bound' }) hr

/-- A rule to which days of a month were given and that keeps none of them, as they are all zero, and that
is given no other part that chooses its days. If it is completed again, its days are taken from its
anchor. -/
def LosesDays (r : Rule) : Prop :=
  mayTakeDays r.freq = true ∧ r.given.monthDays = some [] ∧ r.given.choosesDays = false

theorem keepsDays_of_ofParts (h : ofParts f anchor interval weekStart count bound p = .ok r)
    (hnot : ¬ r.LosesDays) : KeepsDays f p := by
  intro hf ds hds hne hzero
  by_contra hother
  have hother := Bool.eq_false_iff.mpr hother
  have htakes : takesDays p = false := by
    obtain ⟨d, rest, rfl⟩ := List.exists_cons_of_ne_nil hne
    unfold takesDays
    rw [choosesDays_eq, hds]
    rfl
  -- none of the days is positive or negative
  have hnone : (givenOf f anchor.wall.wholeSecond p r.hours r.minutes).monthDays = some [] := by
    have hdays : monthDaysOf f anchor.wall.wholeSecond p = sortedInts ds := by
      unfold monthDaysOf
      rw [htakes, hds]
      rfl
    have hpos : (sortedInts ds).filter (0 < ·) = [] :=
      List.filter_eq_nil_iff.mpr fun d hd => by simp [hzero d (mem_sortedInts.mp hd)]
    have hneg : (sortedInts ds).filter (· < 0) = [] :=
      List.filter_eq_nil_iff.mpr fun d hd => by simp [hzero d (mem_sortedInts.mp hd)]
    unfold givenOf
    dsimp only
    rw [hdays, hpos, hneg, htakes, hds]
    rfl
  refine hnot ⟨?_, ?_, ?_⟩
  · rw [show r.freq = f from congrArg Rule.freq (ofParts_eq_ok_iff.mp h).2.2.2.2]
    exact hf
  · rw [given_eq_givenOf h, hnone]
  · rw [given_eq_givenOf h, choosesDays_eq, choosesDays_otherwise_givenOf, hnone, hother]
    rfl

/-! ## Completing from another anchor -/

/-- The rule with its periods counted from another anchor. -/
def movedTo (r : Rule) (anchor : Moment) (given : Parts) : Rule := { r with anchor, given }

section Settle

variable {t t' : WallTime}

theorem settle_positions : (p.settle f t).positions = p.positions := by
  unfold Parts.settle
  cases p.choosesDays <;> cases f <;> rfl

theorem settle_yearDays : (p.settle f t).yearDays = p.yearDays := by
  unfold Parts.settle
  cases p.choosesDays <;> cases f <;> rfl

theorem settle_easters : (p.settle f t).easters = p.easters := by
  unfold Parts.settle
  cases p.choosesDays <;> cases f <;> rfl

theorem settle_weekNumbers : (p.settle f t).weekNumbers = p.weekNumbers := by
  unfold Parts.settle
  cases p.choosesDays <;> cases f <;> rfl

theorem settle_months : (p.settle f t).months =
    if takesDays p && f == .yearly then some (p.months.getD [(t.date.month : Int)]) else p.months := by
  unfold Parts.settle takesDays
  cases p.choosesDays <;> cases f <;> rfl

theorem settle_monthDays : (p.settle f t).monthDays =
    if takesDays p && f.numbersWeekdays then some [(t.date.day : Int)] else p.monthDays := by
  unfold Parts.settle takesDays
  cases p.choosesDays <;> cases f <;> rfl

theorem settle_weekdays : (p.settle f t).weekdays =
    if takesDays p && f == .weekly then some [⟨t.weekday, none⟩] else p.weekdays := by
  unfold Parts.settle takesDays
  cases p.choosesDays <;> cases f <;> rfl

theorem settle_hours : (p.settle f t).hours =
    if f.isSubDaily then p.hours else some (p.hours.getD [(t.hour : Int)]) := by
  unfold Parts.settle
  cases p.choosesDays <;> cases f <;> rfl

theorem settle_minutes : (p.settle f t).minutes =
    if f == .minutely then p.minutes else some (p.minutes.getD [(t.minute : Int)]) := by
  unfold Parts.settle
  cases p.choosesDays <;> cases f <;> rfl

theorem settle_seconds : (p.settle f t).seconds = some (p.seconds.getD [(t.second : Int)]) := by
  unfold Parts.settle
  cases p.choosesDays <;> cases f <;> rfl

/-- From an anchor of settled parts no years, months or weekdays are taken. -/
theorem takesDays_settle (hf : f = .yearly ∨ f = .monthly ∨ f = .weekly) :
    takesDays (p.settle f t) = false := by
  have hmonthDays := settle_monthDays (f := f) (t := t) (p := p)
  have hweekdays := settle_weekdays (f := f) (t := t) (p := p)
  cases htakes : takesDays (p.settle f t) with
  | false => rfl
  | true =>
    obtain ⟨hmonth, hweek⟩ := not_given_of_takesDays htakes
    cases hp : takesDays p with
    | true =>
      rw [hp] at hmonthDays hweekdays
      rcases hf with rfl | rfl | rfl
      · rw [hmonthDays] at hmonth
        cases hmonth
      · rw [hmonthDays] at hmonth
        cases hmonth
      · rw [hweekdays] at hweek
        cases hweek
    | false =>
      -- Parts that choose days still do.
      rw [hp, Bool.false_and, if_neg Bool.false_ne_true] at hmonthDays hweekdays
      unfold takesDays Parts.choosesDays at hp htakes
      rw [settle_weekNumbers, settle_yearDays, settle_easters, hmonthDays, hweekdays, hp] at htakes
      cases htakes

/-- What a rule takes from its parts stays the same if they are settled. -/
theorem monthsOf_settle (hkeeps : KeepsDays f p) (hours minutes : List Int) :
    monthsOf f t' ((givenOf f t p hours minutes).settle f t) = monthsOf f t p := by
  have hmonths := settle_months (f := f) (t := t) (p := givenOf f t p hours minutes)
  have hgiven : (givenOf f t p hours minutes).months = p.months.map sortedInts := rfl
  rw [takesDays_givenOf hkeeps (fun hf => (takes_of_mayTakeDays hf).2.1), hgiven] at hmonths
  have hnot : (takesDays ((givenOf f t p hours minutes).settle f t) && f == .yearly) = false := by
    cases hf : f == .yearly with
    | false => exact Bool.and_false _
    | true => rw [takesDays_settle (.inl (eq_of_beq hf)), Bool.false_and]
  unfold monthsOf
  rw [hnot, hmonths]
  by_cases htakes : (takesDays p && f == .yearly) = true
  · rw [if_pos htakes]
    cases p.months with
    | none =>
      dsimp only
      rw [if_pos htakes]
      rfl
    | some ms => exact sortedInts_sortedInts ms
  · rw [if_neg htakes]
    cases p.months with
    | none =>
      dsimp only
      rw [if_neg htakes]
      rfl
    | some ms => exact sortedInts_sortedInts ms

theorem monthDaysOf_settle (hkeeps : KeepsDays f p) (hours minutes : List Int) :
    (monthDaysOf f t' ((givenOf f t p hours minutes).settle f t)).filter (0 < ·) =
        (monthDaysOf f t p).filter (0 < ·) ∧
      (monthDaysOf f t' ((givenOf f t p hours minutes).settle f t)).filter (· < 0) =
        (monthDaysOf f t p).filter (· < 0) := by
  have hmonthDays := settle_monthDays (f := f) (t := t) (p := givenOf f t p hours minutes)
  rw [takesDays_givenOf hkeeps (fun hf => (takes_of_mayTakeDays hf).1)] at hmonthDays
  have hnot : (takesDays ((givenOf f t p hours minutes).settle f t) && f.numbersWeekdays) = false := by
    cases hf : f.numbersWeekdays with
    | false => exact Bool.and_false _
    | true =>
      have hfreq : f = .yearly ∨ f = .monthly ∨ f = .weekly := by
        cases f <;> simp [Frequency.numbersWeekdays] at hf ⊢
      rw [takesDays_settle hfreq, Bool.false_and]
  by_cases htakes : (takesDays p && f.numbersWeekdays) = true
  · have hsame : monthDaysOf f t' ((givenOf f t p hours minutes).settle f t) = monthDaysOf f t p := by
      unfold monthDaysOf
      rw [hnot, if_neg Bool.false_ne_true, hmonthDays, if_pos htakes, if_pos htakes]
      rfl
    rw [hsame]
    exact ⟨rfl, rfl⟩
  · have hgiven : (givenOf f t p hours minutes).monthDays = if takesDays p && f.numbersWeekdays then none
      else p.monthDays.map fun _ =>
        (monthDaysOf f t p).filter (0 < ·) ++ (monthDaysOf f t p).filter (· < 0) := rfl
    have hdays : monthDaysOf f t p = sortedInts (p.monthDays.getD []) := by
      unfold monthDaysOf
      rw [if_neg htakes]
    have hagain : monthDaysOf f t' ((givenOf f t p hours minutes).settle f t) =
        sortedInts ((givenOf f t p hours minutes).monthDays.getD []) := by
      unfold monthDaysOf
      rw [hnot, if_neg Bool.false_ne_true, hmonthDays, if_neg htakes]
    rw [hagain, hgiven, if_neg htakes]
    exact monthDays_split p.monthDays _ hdays

theorem weekdayPartsOf_settle (hkeeps : KeepsDays f p) (hours minutes : List Int) :
    plainWeekdays f (weekdayPartsOf f t' ((givenOf f t p hours minutes).settle f t)) =
        plainWeekdays f (weekdayPartsOf f t p) ∧
      numberedWeekdaysOf f (weekdayPartsOf f t' ((givenOf f t p hours minutes).settle f t)) =
        numberedWeekdaysOf f (weekdayPartsOf f t p) := by
  have hweekdays := settle_weekdays (f := f) (t := t) (p := givenOf f t p hours minutes)
  rw [takesDays_givenOf hkeeps (fun hf => (takes_of_mayTakeDays hf).2.2)] at hweekdays
  have hnot : (takesDays ((givenOf f t p hours minutes).settle f t) && f == .weekly) = false := by
    cases hf : f == .weekly with
    | false => exact Bool.and_false _
    | true => rw [takesDays_settle (.inr (.inr (eq_of_beq hf))), Bool.false_and]
  by_cases htakes : (takesDays p && f == .weekly) = true
  · have hsame : weekdayPartsOf f t' ((givenOf f t p hours minutes).settle f t) =
        weekdayPartsOf f t p := by
      unfold weekdayPartsOf
      rw [hnot, if_neg Bool.false_ne_true, hweekdays, if_pos htakes, if_pos htakes]
      rfl
    rw [hsame]
    exact ⟨rfl, rfl⟩
  · have hagain : weekdayPartsOf f t' ((givenOf f t p hours minutes).settle f t) =
        weekdayPartsOf f t (givenOf f t p hours minutes) := by
      unfold weekdayPartsOf
      rw [hnot, if_neg Bool.false_ne_true, hweekdays, if_neg htakes,
        takesDays_givenOf hkeeps (fun hf => (takes_of_mayTakeDays hf).2.2), if_neg htakes]
    rw [hagain]
    exact weekdayPartsOf_givenOf hkeeps

theorem completed_settle (hkeeps : KeepsDays f p) {anchor' : Moment}
    (hwhole : anchor'.wall.wholeSecond = anchor'.wall) (hours minutes : List Int)
    (dayTimes : List TimeOfDay) :
    (completed f anchor interval weekStart count bound p hours minutes dayTimes).movedTo anchor'
        (completed f anchor' interval weekStart count bound
          ((givenOf f anchor.wall.wholeSecond p hours minutes).settle f anchor.wall.wholeSecond)
          hours minutes dayTimes).given =
      completed f anchor' interval weekStart count bound
        ((givenOf f anchor.wall.wholeSecond p hours minutes).settle f anchor.wall.wholeSecond)
        hours minutes dayTimes := by
  obtain ⟨hpos, hneg⟩ :=
    @monthDaysOf_settle f p anchor.wall.wholeSecond anchor'.wall hkeeps hours minutes
  obtain ⟨hplain, hnumbered⟩ :=
    @weekdayPartsOf_settle f p anchor.wall.wholeSecond anchor'.wall hkeeps hours minutes
  have hints : ∀ xs : Option (List Int),
      sortedInts ((xs.map sortedInts).getD []) = sortedInts (xs.getD []) := by
    intro xs
    cases xs with
    | none => rfl
    | some xs => exact sortedInts_sortedInts xs
  unfold movedTo completed
  dsimp only
  rw [Rule.mk.injEq]
  refine ⟨rfl, ?_, rfl, rfl, rfl, rfl, ?_, ?_, ?_, ?_, ?_, ?_, ?_, ?_, ?_, rfl, rfl, ?_, rfl, rfl⟩
  · rw [hwhole]
  · rw [settle_positions]
    rfl
  · rw [hwhole]
    exact (monthsOf_settle hkeeps hours minutes).symm
  · rw [hwhole]
    exact hpos.symm
  · rw [hwhole]
    exact hneg.symm
  · rw [settle_yearDays]
    exact (hints _).symm
  · rw [settle_easters]
    rfl
  · rw [settle_weekNumbers]
    exact (hints _).symm
  · rw [hwhole]
    exact hplain.symm
  · rw [hwhole]
    exact hnumbered.symm
  · rw [settle_seconds]
    exact (secondsOf_settled _ _ _).symm

/-- Completing a rule from another anchor, with the parts given that it took from the first
one, only moves it. Hours or minutes of the interval have to be a whole number of steps
away if some are given. -/
theorem ofParts_settle (h : ofParts f anchor interval weekStart count bound p = .ok r)
    (hkeeps : KeepsDays f p) {anchor' : Moment} (hwhole : anchor'.wall.wholeSecond = anchor'.wall)
    (hhour : f = .hourly → p.hours.isSome →
      ((anchor'.wall.hour : Int) - r.anchor.wall.hour) % (Nat.gcd interval 24 : Int) = 0)
    (hminute : f = .minutely → p.minutes.isSome →
      ((anchor'.wall.minute : Int) - r.anchor.wall.minute) % (Nat.gcd interval 60 : Int) = 0) :
    ∃ given, ofParts f anchor' interval weekStart count bound (r.given.settle f r.anchor.wall) =
      .ok (r.movedTo anchor' given) := by
  obtain ⟨hall, hhours, hminutes, htimes, hr⟩ := ofParts_eq_ok_iff.mp h
  have hgiven := given_eq_givenOf h
  have hanchor : r.anchor.wall = anchor.wall.wholeSecond := congrArg (fun r => r.anchor.wall) hr
  rw [hanchor] at hhour hminute
  rw [hgiven, hanchor]
  refine ⟨_, ofParts_eq_ok_iff.mpr ⟨?_, ?_, ?_, ?_,
    (congrArg (Rule.movedTo · anchor' _) hr).trans (completed_settle hkeeps hwhole _ _ _)⟩⟩
  · rw [settle_positions]
    exact hall
  · have hagain := hoursOf_given hhours hhour
    rw [hwhole, settle_hours]
    split
    · next hsub => exact hagain.1 (.inl hsub)
    · next hlong => exact hagain.2 (Bool.eq_false_iff.mpr hlong)
  · have hagain := minutesOf_given hminutes hminute
    rw [hwhole, settle_minutes]
    split
    · next hf => exact hagain.1 (.inl (eq_of_beq hf))
    · next hf => exact hagain.2 fun heq => hf (beq_iff_eq.mpr heq)
  · rw [settle_seconds]
    show dayTimesOf f r.hours r.minutes
      (secondsOf _ (some ((p.seconds.map sortedInts).getD [(anchor.wall.wholeSecond.second : Int)]))) = _
    rw [secondsOf_settled]
    exact htimes

end Settle

end Again

end Rule

end ScanPolicy
