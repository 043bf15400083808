import Mathlib.Data.Nat.ModEq
import ScanPolicy.Proofs.Calendar.Easter
import ScanPolicy.Proofs.Recurrence.RuleFaults
import ScanPolicy.Proofs.Recurrence.Settled
import ScanPolicy.Proofs.Recurrence.TameRules

/-!
# Resolvable rules

Numbered weekdays and days around Easter are looked up among the days of a year and a few
days more, and listed hours and minutes are looked for on a dial. A rule is resolvable if
the numbers in it are so small that all of them can be found in every year.

- `Rule.IsResolvable`: the numbers of such a rule.
- `YearFrame.numberedDays_failsOnly`, `YearFrame.daysAroundEaster_failsOnly`: the layouts of
  its years.
- `Rule.turn_isSome`: values on a dial that are reached.
- `Rule.IsResolvable.isTame`: a search through such a rule breaks off only at its end.
- `Rule.IsResolvable.of_takesFrom`: such a rule with another anchor.
-/

namespace ScanPolicy

theorem Fault.IsOfRule.endsSearch {e : Fault} (h : e.IsOfRule) : e.endsSearch := by
  obtain ⟨why, rfl⟩ := h
  rfl

namespace Rule

/-- A rule of which the numbered weekdays, the days around Easter, the hours and the minutes can be
found in every year. The weekdays of a month have smaller numbers than those of a year. -/
structure IsResolvable (r : Rule) : Prop where
  interval_pos : 0 < r.interval
  numbered : ∀ w ∈ r.numberedWeekdays, -59 ≤ w.2 ∧ w.2 ≤ 7 ∨
    r.freq = .yearly ∧ r.months = [] ∧ -107 ≤ w.2 ∧ w.2 ≤ 55
  easters : ∀ n ∈ r.easters, -452 ≤ n ∧ n ≤ 257
  hours : r.freq = .hourly → ∀ n ∈ r.hours, 0 ≤ n ∧ n < 24
  minutes : r.freq = .minutely → ∀ n ∈ r.minutes, 0 ≤ n ∧ n < 60

end Rule

/-! ## The layouts of years -/

namespace YearFrame

theorem chosenWeeks_failsOnly (year length weekStart : Nat) (numbers : List Int) :
    FailsOnly Fault.IsOfRule (chosenWeeks year length weekStart numbers) := by
  unfold chosenWeeks
  dsimp only
  split_ifs
  all_goals first
    | exact failsOnly_ok _
    | exact failsOnly_error ⟨_, rfl⟩

/-- A month ends after the thirty-first day, and the last one starts at most thirty-one days before
the end of a year. -/
theorem monthBounds_spec (year : Nat) (month : Int) :
    FailsOnly Fault.IsOfRule (monthBounds year month) ∧
      ∀ b, monthBounds year month = .ok b → b.1 ≤ 335 ∧ 31 ≤ b.2 := by
  have hstarts : (monthStarts year).Pairwise fun a b => a ≤ 335 ∧ 31 ≤ b := by
    unfold monthStarts Calendar.daysBeforeMonth
    cases Calendar.isLeap year <;> decide
  unfold monthBounds
  dsimp only
  split
  · next a b hab =>
    refine ⟨failsOnly_ok _, ?_⟩
    rintro _ ⟨⟩
    have hpair : [a, b].Pairwise fun a b => a ≤ 335 ∧ 31 ≤ b := by
      rw [← hab]
      exact (hstarts.sublist (List.take_sublist _ _)).sublist (List.drop_sublist _ _)
    exact (List.pairwise_cons.mp hpair).1 b List.mem_cons_self
  · refine ⟨failsOnly_error ⟨_, rfl⟩, ?_⟩
    rintro _ ⟨⟩

/-- A weekday is found if counting its number of weeks does not lead out of the days of which the
weekdays are known. -/
theorem numberedDay_failsOnly {P : Fault → Prop} {first low high weekday : Nat} {number : Int}
    (hback : -379 ≤ (high : Int) - 1 + (number + 1) * 7)
    (hahead : (low : Int) + (number - 1) * 7 < 379) :
    FailsOnly P (numberedDay first low high weekday number) := by
  have hknown : 379 ≤ knownDays first := by
    unfold knownDays Date.weekday
    omega
  unfold numberedDay
  dsimp only
  split
  · split
    · omega
    · split
      · exact failsOnly_ok _
      · exact failsOnly_ok _
  · split
    · omega
    · exact failsOnly_ok _

variable {r : Rule}

/-- Among the days of a month only small numbers are looked up, among those of a year all of them. -/
theorem numberingBounds_spec (h : r.IsResolvable) (year month : Nat) :
    FailsOnly Fault.IsOfRule (numberingBounds r year month) ∧
      ∀ bounds, numberingBounds r year month = .ok bounds → ∀ b ∈ bounds, ∀ w ∈ r.numberedWeekdays,
        FailsOnly Fault.IsOfRule (numberedDay (Calendar.daysBeforeYear year) b.1 b.2 w.1 w.2) := by
  have hlength : 365 ≤ Calendar.yearLength year := by
    rw [Calendar.yearLength_eq]
    omega
  have hmonth : ∀ {bounds : List (Nat × Nat)}, (∀ b ∈ bounds, b.1 ≤ 335 ∧ 31 ≤ b.2) →
      (r.freq = .yearly → r.months ≠ []) → ∀ b ∈ bounds, ∀ w ∈ r.numberedWeekdays,
        FailsOnly Fault.IsOfRule (numberedDay (Calendar.daysBeforeYear year) b.1 b.2 w.1 w.2) := by
    intro bounds hbounds hmonths b hb w hw
    obtain ⟨hlow, hhigh⟩ := hbounds b hb
    rcases h.numbered w hw with hnumber | ⟨hyearly, hnone, -⟩
    · exact numberedDay_failsOnly (by omega) (by omega)
    · exact absurd hnone (hmonths hyearly)
  unfold numberingBounds
  split
  · split
    · refine ⟨failsOnly_ok _, ?_⟩
      rintro _ ⟨⟩ b hb w hw
      rw [List.mem_singleton.mp hb]
      rcases h.numbered w hw with hnumber | ⟨-, -, hnumber⟩
      · exact numberedDay_failsOnly (by omega) (by omega)
      · exact numberedDay_failsOnly (by omega) (by omega)
    · next hmonths =>
      refine ⟨FailsOnly.mapM fun m _ => (monthBounds_spec year m).1, fun bounds hok => ?_⟩
      exact hmonth (forall_of_mapM_ok hok fun m _ b hb => (monthBounds_spec year m).2 b hb)
        fun _ hnil => hmonths (List.isEmpty_iff.mpr hnil)
  · next hfreq =>
    refine ⟨(monthBounds_spec year month).1.bind fun _ _ => failsOnly_ok _, fun bounds hok => ?_⟩
    obtain ⟨b, hb, hpure⟩ := bind_eq_ok_iff.mp hok
    cases hpure
    refine hmonth (fun b' hb' => ?_) fun hyearly => absurd hyearly hfreq
    rw [List.mem_singleton.mp hb']
    exact (monthBounds_spec year month).2 b hb

theorem numberedDays_failsOnly (h : r.IsResolvable) (year month : Nat) :
    FailsOnly Fault.IsOfRule (numberedDays r year month) := by
  obtain ⟨hbounds, hnumbered⟩ := numberingBounds_spec h year month
  unfold numberedDays
  split
  · exact failsOnly_ok _
  · refine hbounds.bind fun bounds hok => FailsOnly.bind ?_ fun _ _ => failsOnly_ok _
    exact FailsOnly.mapM fun b hb => FailsOnly.mapM fun w hw => hnumbered bounds hok b hb w hw

/-- Days at a small distance from Easter are in the year or in the week after it, or are counted from the
end of these. -/
theorem daysAroundEaster_failsOnly {P : Fault → Prop} {offsets : List Int}
    (h : ∀ n ∈ offsets, -452 ≤ n ∧ n ≤ 257) (year : Nat) :
    FailsOnly P (daysAroundEaster year offsets) := by
  have heaster := Calendar.easter_dayOfYear year
  have hlength : 365 ≤ Calendar.yearLength year := by
    rw [Calendar.yearLength_eq]
    omega
  unfold daysAroundEaster
  generalize Calendar.easter year = sunday at heaster
  refine FailsOnly.mapM fun n hn => ?_
  have hrange := h n hn
  dsimp only
  split
  · next hout =>
    rw [Bool.or_eq_true, decide_eq_true_iff, decide_eq_true_iff] at hout
    omega
  · exact failsOnly_ok _

end YearFrame

/-! ## Values on a dial -/

namespace Rule

/-- Whether all values are on a dial of `base` and are reached from `start`. -/
def OnDial (values : List Int) (interval base start : Nat) : Prop :=
  ∀ n ∈ values, 0 ≤ n ∧ n < base ∧ isReached interval base start n

theorem isReached_iff {interval base start : Nat} {n : Int} : isReached interval base start n ↔
    ((Nat.gcd interval base : Nat) : Int) ∣ n - start := by
  unfold isReached
  rw [Bool.or_eq_true, beq_iff_eq, beq_iff_eq]
  constructor
  · rintro (hone | hmod)
    · rw [hone]
      exact one_dvd _
    · exact Int.dvd_of_emod_eq_zero hmod
  · exact fun hdvd => .inr (Int.emod_eq_zero_of_dvd hdvd)

/-- What is reached from a value is reached from every value whole steps or whole turns away. -/
theorem OnDial.congr {values : List Int} {interval base start start' : Nat}
    (h : OnDial values interval base start) (hsame : start ≡ start' [MOD Nat.gcd interval base]) :
    OnDial values interval base start' := by
  intro n hn
  obtain ⟨hzero, hlt, hreached⟩ := h n hn
  refine ⟨hzero, hlt, isReached_iff.mpr ?_⟩
  rw [show n - (start' : Int) = n - start - ((start' : Int) - start) by omega]
  exact Int.dvd_sub (isReached_iff.mp hreached) (Nat.modEq_iff_dvd.mp hsame)

/-- Two numbers that are whole steps apart show values on a dial from which the same is reached. -/
theorem modEq_of_steps {interval base m n v w : Nat} (hsteps : m % interval = n % interval)
    (hm : m % base = v % base) (hn : n % base = w % base) : v ≡ w [MOD Nat.gcd interval base] :=
  calc v ≡ m [MOD Nat.gcd interval base] := Nat.ModEq.of_dvd (Nat.gcd_dvd_right _ _) hm.symm
    _ ≡ n [MOD Nat.gcd interval base] := Nat.ModEq.of_dvd (Nat.gcd_dvd_left _ _) hsteps
    _ ≡ w [MOD Nat.gcd interval base] := Nat.ModEq.of_dvd (Nat.gcd_dvd_right _ _) hn

/-- From every value one of the values that are reached comes next: by the Chinese remainder theorem
some value that is whole steps away shows it on the dial. -/
theorem turn_isSome {values : List Int} {interval base value : Nat} (hinterval : 0 < interval)
    (hbase : 0 < base) (h : OnDial values interval base value) :
    (turn values interval base value).isSome := by
  rcases turn_spec values hinterval hbase value with ⟨m, hm, -⟩ | ⟨hnone, hnever⟩
  · rw [hm]
    rfl
  · cases values with
    | nil => cases hnone
    | cons n rest =>
      obtain ⟨hzero, hlt, hreached⟩ := h n List.mem_cons_self
      obtain ⟨v, rfl⟩ := Int.eq_ofNat_of_zero_le hzero
      have hv : v < base := by omega
      have hsame : value ≡ v [MOD Nat.gcd interval base] :=
        Nat.modEq_iff_dvd.mpr (isReached_iff.mp hreached)
      obtain ⟨x, hstep, hshown⟩ := Nat.chineseRemainder' hsame
      refine absurd ?_ (hnever (x + (value + 1) * (interval * base)) ?_ ?_)
      · unfold AllowedOn allows
        rw [Nat.mul_comm interval, ← Nat.mul_assoc, Nat.mul_right_comm, Nat.add_mul_mod_self_right,
          hshown, Nat.mod_eq_of_lt hv]
        simp
      · have := Nat.le_mul_of_pos_right (value + 1) (Nat.mul_pos hinterval hbase)
        omega
      · rw [← Nat.mul_assoc, Nat.mul_right_comm, Nat.add_mul_mod_self_right]
        exact hstep

variable {r : Rule}

/-- With minutes on the dial the search for a minute fails only if no hour of it is allowed. -/
theorem nextMinute_failsOnly (hinterval : 0 < r.interval) (fuel days hour : Nat) {minute : Nat}
    (h : OnDial r.minutes r.interval 60 minute) :
    FailsOnly Fault.IsOfRule (r.nextMinute fuel days hour minute) := by
  induction fuel generalizing days hour minute with
  | zero => exact failsOnly_error ⟨_, rfl⟩
  | succ fuel ih =>
    unfold nextMinute
    rcases turn_spec r.minutes hinterval (show 0 < 60 by decide) minute with
      ⟨m, hm, hnext⟩ | ⟨hnone, -⟩
    · rw [hm]
      dsimp only
      split
      · exact failsOnly_ok _
      · exact ih _ _ (h.congr (modEq_of_steps hnext.mod_eq.symm rfl (Nat.mod_mod m 60).symm))
    · have hsome := turn_isSome hinterval (by decide) h
      rw [hnone] at hsome
      cases hsome

/-- Whether the listed hours or minutes of a rule are reached from its anchor. -/
structure ReachesListed (r : Rule) : Prop where
  hours : r.freq = .hourly → ∀ n ∈ r.hours, isReached r.interval 24 r.anchor.wall.hour n
  minutes : r.freq = .minutely → ∀ n ∈ r.minutes, isReached r.interval 60 r.anchor.wall.minute n

theorem reachesListed_of_ofParts {f : Frequency} {anchor : Moment} {interval weekStart : Nat}
    {count : Option Nat} {bound : Option Moment} {p : Parts}
    (h : ofParts f anchor interval weekStart count bound p = .ok r) : r.ReachesListed := by
  obtain ⟨-, hhours, hminutes, -, hr⟩ := ofParts_eq_ok_iff.mp h
  have hfreq : r.freq = f := congrArg Rule.freq hr
  have hinterval : r.interval = interval := congrArg Rule.interval hr
  have hanchor : r.anchor.wall = anchor.wall.wholeSecond := congrArg (fun r => r.anchor.wall) hr
  have hreached : ∀ {interval base start : Nat} {values reached : List Int},
      reachable interval base start values = .ok reached →
        ∀ n ∈ reached, isReached interval base start n := by
    intro interval base start values reached h n hn
    obtain ⟨-, rfl⟩ := reachable_eq_ok_iff.mp h
    exact (List.mem_filter.mp (mem_sortedInts.mp hn)).2
  rw [← hanchor, ← hfreq, ← hinterval] at hhours hminutes
  constructor
  · intro hhourly n hn
    rw [hhourly] at hhours
    cases hgiven : p.hours with
    | none =>
      rw [hgiven] at hhours
      rw [← Except.ok.inj hhours] at hn
      cases hn
    | some hs =>
      rw [hgiven] at hhours
      exact hreached hhours n hn
  · intro hminutely n hn
    rw [hminutely] at hminutes
    cases hgiven : p.minutes with
    | none =>
      rw [hgiven] at hminutes
      rw [← Except.ok.inj hminutes] at hn
      cases hn
    | some ms =>
      rw [hgiven] at hminutes
      exact hreached hminutes n hn

namespace IsResolvable

/-- The years of such a rule have a layout. -/
theorem frame_failsOnly (h : r.IsResolvable) (year month : Nat) :
    FailsOnly (·.endsSearch = true) (r.frame year month) := by
  refine FailsOnly.bind (fun e he => (YearFrame.chosenWeeks_failsOnly _ _ _ _ e he).endsSearch)
    fun weeks _ => FailsOnly.bind ?_ fun numbered _ => ?_
  · exact fun e he => (YearFrame.numberedDays_failsOnly h _ _ e he).endsSearch
  · exact (YearFrame.daysAroundEaster_failsOnly h.easters _).bind fun _ _ => failsOnly_ok _

/-- The hours are reached from the hours of all periods. -/
theorem hours_onDial (h : r.IsResolvable) (hreach : r.ReachesListed) (hf : r.freq = .hourly)
    {d hour : Nat} (hsteps : (24 * d + hour) % r.interval =
      (24 * r.anchor.wall.dayNumber + r.anchor.wall.hour) % r.interval) :
    OnDial r.hours r.interval 24 hour :=
  OnDial.congr (fun n hn => ⟨(h.hours hf n hn).1, (h.hours hf n hn).2, hreach.hours hf n hn⟩)
    (modEq_of_steps hsteps.symm (Nat.mul_add_mod _ _ _) (Nat.mul_add_mod _ _ _))

/-- The minutes are reached from the minutes of all periods. -/
theorem minutes_onDial (h : r.IsResolvable) (hreach : r.ReachesListed) (hf : r.freq = .minutely)
    {d hour minute : Nat} (hsteps : (1440 * d + 60 * hour + minute) % r.interval =
      (1440 * r.anchor.wall.dayNumber + 60 * r.anchor.wall.hour + r.anchor.wall.minute) % r.interval) :
    OnDial r.minutes r.interval 60 minute :=
  OnDial.congr (fun n hn => ⟨(h.minutes hf n hn).1, (h.minutes hf n hn).2, hreach.minutes hf n hn⟩)
    (modEq_of_steps hsteps.symm (by omega) (by omega))

/-- Rules of which the numbers can be found break off only where there is no further date. -/
theorem isTame (h : r.IsResolvable) (hreach : r.ReachesListed) : r.IsTame where
  frame p _ := h.frame_failsOnly _ _
  turns p hp hmod skips e hfailed := by
    have honDay : ∀ {d : Nat} {make : Nat → Period}, Period.onDay d make ≠ .failed e := by
      intro d make
      unfold Period.onDay
      split
      · exact nofun
      · exact nofun
    rw [r.firstPeriod_eq] at hmod
    unfold nextPeriod at hfailed
    generalize hf : r.freq = f at hp hmod
    cases hp with
    | year hpos hle =>
      dsimp only at hfailed
      split at hfailed <;> cases hfailed
    | month hpos hle hm hm' =>
      dsimp only at hfailed
      split at hfailed <;> cases hfailed
    | week hd => exact absurd hfailed honDay
    | day hd => exact absurd hfailed honDay
    | @hour d hour hd hh =>
      have hturn : (turn r.hours r.interval 24
          (if skips then lastBefore 24 r.interval hour else hour)).isSome := by
        refine turn_isSome h.interval_pos (by decide) ((h.hours_onDial hreach hf hmod).congr ?_)
        split
        · exact modEq_of_steps (lastBefore_spec h.interval_pos hh).2.2.2.symm rfl rfl
        · rfl
      dsimp only at hfailed
      split at hfailed
      · next hnone =>
        rw [hnone] at hturn
        cases hturn
      · exact absurd hfailed honDay
    | @minute d hour minute hd hh hm =>
      have hdial := h.minutes_onDial hreach hf hmod
      dsimp only at hfailed
      split at hfailed
      · next e' he' =>
        cases hfailed
        refine (nextMinute_failsOnly h.interval_pos _ _ _ (hdial.congr ?_) _ he').endsSearch
        split
        · obtain ⟨hle, -, -, hsteps⟩ := lastBefore_spec h.interval_pos
            (show 60 * hour + minute < 1440 by omega)
          exact modEq_of_steps hsteps.symm (Nat.mul_add_mod _ _ _) (by omega)
        · rfl
      · exact absurd hfailed honDay

end IsResolvable

end Rule

/-! ## Rules that are completed again -/

/-- Whether parts have no numbers beyond those of a rule, a single hour or minute apart. -/
structure Parts.TakesFrom (r : Rule) (p : Parts) : Prop where
  weekdays : ∀ ws ∈ p.weekdays, ∀ w ∈ ws, ∀ n ∈ w.number, r.freq.numbersWeekdays →
    (w.weekday, n) ∈ r.numberedWeekdays
  months : r.numberedWeekdays ≠ [] → r.months = [] → p.months.getD [] = []
  easters : p.easters.getD [] = r.easters
  hours : ∀ ns ∈ p.hours, ns = r.hours ∨ ∃ h < 24, ns = [(h : Nat)]
  minutes : ∀ ns ∈ p.minutes, ns = r.minutes ∨ ∃ m < 60, ns = [(m : Nat)]

namespace Rule

section

variable {f : Frequency} {anchor : Moment} {interval weekStart : Nat} {count : Option Nat}
  {bound : Option Moment} {p : Parts} {r : Rule}

theorem mem_numberedWeekdaysOf {ws : List WeekdayPart} {x : Nat × Int} :
    x ∈ numberedWeekdaysOf f ws ↔
      ∃ w ∈ ws, f.numbersWeekdays ∧ w.number = some x.2 ∧ w.weekday = x.1 := by
  unfold numberedWeekdaysOf
  rw [mem_increasing, List.mem_filterMap]
  refine exists_congr fun w => and_congr_right fun _ => ?_
  unfold isPlain
  cases f.numbersWeekdays with
  | false => simp
  | true => cases w.number <;> simp [Prod.ext_iff, and_comm]

/-- Whatever makes it impossible to complete a rule means in a search that there is no date. -/
theorem ofParts_endsSearch :
    FailsOnly (·.endsSearch = true) (ofParts f anchor interval weekStart count bound p) := by
  refine ofParts_failsOnly_of (fun _ => rfl) fun hours minutes _ _ e he => ?_
  obtain ⟨h, -, m, -, s, -, he⟩ := timesOf_error he
  exact check_endsSearch he

/-- The parts that a rule keeps have its own numbers. -/
theorem takesFrom_given (h : ofParts f anchor interval weekStart count bound p = .ok r) :
    r.given.TakesFrom r := by
  obtain ⟨-, -, -, -, hr⟩ := ofParts_eq_ok_iff.mp h
  have hgiven := given_eq_givenOf h
  constructor
  · intro ws hws w hw n hn hnumbers
    have hkept : r.given.weekdays = if takesDays p && f == .weekly then none
        else p.weekdays.map fun _ => keptWeekdays r.weekdays r.numberedWeekdays := by
      rw [hr]
      rfl
    rw [hkept] at hws
    split at hws
    · cases hws
    · obtain ⟨-, -, rfl⟩ := Option.map_eq_some_iff.mp hws
      rcases List.mem_append.mp hw with hw | hw
      · obtain ⟨day, -, rfl⟩ := List.mem_map.mp hw
        cases hn
      · obtain ⟨x, hx, rfl⟩ := List.mem_map.mp hw
        cases hn
        exact hx
  · intro hnumbered hnone
    rw [hgiven]
    show (p.months.map sortedInts).getD [] = []
    cases hp : p.months with
    | none => rfl
    | some ms =>
      have hms : r.months = sortedInts ms := by
        rw [show r.months = monthsOf f anchor.wall.wholeSecond p from congrArg Rule.months hr]
        unfold monthsOf
        rw [hp]
      show sortedInts ms = []
      rw [← hms, hnone]
  · rw [hgiven]
    exact (congrArg Rule.easters hr).symm
  · intro ns hns
    rw [hgiven] at hns
    obtain ⟨-, -, rfl⟩ := Option.map_eq_some_iff.mp hns
    exact .inl rfl
  · intro ns hns
    rw [hgiven] at hns
    obtain ⟨-, -, rfl⟩ := Option.map_eq_some_iff.mp hns
    exact .inl rfl

/-- Numbered weekdays come from weekdays that are given, and these are those of the rule before. -/
theorem mem_numberedWeekdays_of_takesFrom {r' : Rule} (hp : p.TakesFrom r)
    (hr' : ofParts r.freq anchor interval weekStart count bound p = .ok r') {x : Nat × Int}
    (hx : x ∈ r'.numberedWeekdays) : x ∈ r.numberedWeekdays ∧ p.weekdays.isSome := by
  obtain ⟨-, -, -, -, hr⟩ := ofParts_eq_ok_iff.mp hr'
  rw [show r'.numberedWeekdays = _ from congrArg Rule.numberedWeekdays hr] at hx
  obtain ⟨w, hw, hnumbers, hnumber, hweekday⟩ := mem_numberedWeekdaysOf.mp hx
  unfold weekdayPartsOf at hw
  split at hw
  · rw [List.mem_singleton.mp hw] at hnumber
    cases hnumber
  · cases hgiven : p.weekdays with
    | none =>
      rw [hgiven] at hw
      cases hw
    | some ws =>
      rw [hgiven] at hw
      have hmem := hp.weekdays ws hgiven w hw x.2 hnumber hnumbers
      rw [hweekday] at hmem
      exact ⟨hmem, rfl⟩

/-- What stands on a dial stays there if it is given again, or is a single value of a clock. -/
theorem onDial_of_given {base k : Nat} {given : Option (List Int)} {own : List Int} {n : Int}
    (hk : k < base) (hown : ∀ n ∈ own, 0 ≤ n ∧ n < base)
    (hgiven : ∀ ns ∈ given, ns = own ∨ ∃ h < base, ns = [(h : Int)])
    (h : given = none ∧ n = k ∨ ∃ ns ∈ given, n ∈ ns) : 0 ≤ n ∧ n < base := by
  rcases h with ⟨-, rfl⟩ | ⟨ns, hns, hn⟩
  · omega
  · rcases hgiven ns hns with rfl | ⟨h, hh, rfl⟩
    · exact hown n hn
    · rw [List.mem_singleton.mp hn]
      omega

/-- A rule that is completed from the numbers of a resolvable one is resolvable. -/
theorem IsResolvable.of_takesFrom {r' : Rule} (h : r.IsResolvable) (hp : p.TakesFrom r)
    (hr' : ofParts r.freq anchor r.interval weekStart count bound p = .ok r') :
    r'.IsResolvable := by
  obtain ⟨-, hhours, hminutes, -, hr⟩ := ofParts_eq_ok_iff.mp hr'
  have hfreq : r'.freq = r.freq := by
    rw [hr]
    rfl
  obtain ⟨hhour, hminute, -⟩ := anchor.wall.wholeSecond.hour_minute_spec
  constructor
  · rw [hr]
    exact h.interval_pos
  · intro x hx
    obtain ⟨hmem, hsome⟩ := mem_numberedWeekdays_of_takesFrom hp hr' hx
    rcases h.numbered x hmem with hnarrow | ⟨hyearly, hnone, hwide⟩
    · exact .inl hnarrow
    -- weekdays are given, so that no months are taken from the anchor
    refine .inr ⟨hfreq.trans hyearly, ?_, hwide⟩
    have htakes : takesDays p = false := by
      unfold takesDays Parts.choosesDays
      rw [hsome]
      simp
    have hmonths := hp.months (List.ne_nil_of_mem hmem) hnone
    rw [show r'.months = monthsOf r.freq anchor.wall.wholeSecond p from congrArg Rule.months hr]
    unfold monthsOf
    rw [htakes]
    cases hgiven : p.months with
    | none => rfl
    | some ms =>
      rw [hgiven] at hmonths
      rw [show ms = [] from hmonths]
      rfl
  · rw [show r'.easters = p.easters.getD [] from congrArg Rule.easters hr, hp.easters]
    exact h.easters
  · intro hhourly n hn
    exact onDial_of_given hhour (h.hours (hfreq ▸ hhourly)) hp.hours (mem_hoursOf hhours hn)
  · intro hminutely n hn
    exact onDial_of_given hminute (h.minutes (hfreq ▸ hminutely)) hp.minutes (mem_minutesOf hminutes hn)

end

end Rule

end ScanPolicy
