import ScanPolicy.Proofs.Recurrence.Meeting
import ScanPolicy.Proofs.Recurrence.Settled
import ScanPolicy.Schedule.Next

/-!
# Rules that are started elsewhere

A rule that is started at another anchor runs through the same periods from there on.
What a search finds is the same if the two runs have the same dates after the later
anchor, and none of the dates before is after the moment. There is one exception: the
run from the later anchor may stumble over a period that cannot be laid out, where the
run from the start has ended before.

- `Rule.Stumbles`: a fault comes before any date after a moment.
- `Rule.Splits`, `Rule.Joins`, `Rule.Rejoins`: how the runs of a rule and of the moved one go together.
- `Rule.rejoins_of_over`: they do if the anchor's period is over.
- `Rule.search_movedTo_iff`: a search through the moved rule.
-/

namespace ScanPolicy

namespace Rule

variable {r : Rule} {anchor : Moment} {given : Parts}

theorem nextMinute_movedTo (fuel days hour minute : Nat) :
    (r.movedTo anchor given).nextMinute fuel days hour minute = r.nextMinute fuel days hour minute := by
  induction fuel generalizing days hour minute with
  | zero => rfl
  | succ fuel ih =>
    unfold nextMinute
    simp only [ih]
    rfl

theorem nextPeriod_movedTo (skips : Bool) (p : Period) :
    (r.movedTo anchor given).nextPeriod skips p = r.nextPeriod skips p := by
  cases p with
  | minute d h m =>
    simp only [nextPeriod, nextMinute_movedTo]
    rfl
  | year y => rfl
  | month y m => rfl
  | week d => rfl
  | day d => rfl
  | hour d h => rfl

/-- The anchor matters only for the first period. -/
theorem run_movedTo {cost : Nat} {p : Period} {isFirst : Bool} {ts : List WallTime}
    {fault : Option Fault} (h : r.Run cost p isFirst ts fault) :
    (r.movedTo anchor given).Run cost p isFirst ts fault := by
  induction h with
  | noDates h => exact .noDates h
  | broken h => exact .broken h
  | ended h hnext => exact .ended h (by rw [nextPeriod_movedTo, hnext])
  | stuck h hnext => exact .stuck h (by rw [nextPeriod_movedTo, hnext])
  | more h hnext _ ih => exact .more h (by rw [nextPeriod_movedTo, hnext]) ih

/-- Before any date that is after a moment or after the last moment of a rule, a fault comes
that does not only mean that the rule has no further date. -/
def Stumbles (r : Rule) (now : Moment) : Prop :=
  ∃ cost ts e, r.Run cost r.firstPeriod true ts (some e) ∧ ¬ e.endsSearch ∧
    ∀ t ∈ ts, ¬ r.isPast t ∧ ¬ now.before (r.moment t)

/-! ## What a search finds -/

/-- What a search through a run finds. -/
def found (r : Rule) (excluded : List Moment) (now : Moment) (k : Nat) (ts : List WallTime)
    (fault : Option Fault) : Except Fault (Option Moment) :=
  (Sought.after k).outcome now (sweep (Moment.sort excluded) (r.kept ts)) (r.ending ts fault)

/-- What comes after a date that is over and after the last moment is after the last moment too, if
it is not over. -/
theorem isPast_of_lt {now a t : WallTime} (hat : a.ticks < t.ticks)
    (ha : ¬ (Moment.universal now).before (r.moment a)) (hpast : r.isPast a)
    (ht : (Moment.universal now).before (r.moment t)) : r.isPast t := by
  have hsep : (Moment.universal now).Separates (r.moment a) (r.moment t) :=
    Moment.separates_universal now rfl hat
  unfold isPast Walk.isPast at hpast ⊢
  split at hpast
  · exact hsep ha ht _ hpast
  · cases hpast

section Found

variable {excluded : List Moment} {k : Nat} {ts early late : List WallTime} {fault : Option Fault}

/-- If all dates after the moment are after the last one, nothing is found but a fault. -/
theorem found_of_past {now : Moment} (h : ∀ t ∈ ts, now.before (r.moment t) → r.isPast t) :
    r.found excluded now k ts fault = (r.ending ts fault).elim (.ok none) .error := by
  have hnone : (sweep (Moment.sort excluded) (r.kept ts)).filter now.before =
      ([] : List Moment).filter now.before := by
    refine List.filter_eq_nil_iff.mpr fun m hm hnow => ?_
    obtain ⟨t, ht, rfl, hpast, -⟩ := mem_of_mem_kept ((sweep_sublist _ _).subset hm)
    exact hpast (h t ht hnow)
  unfold found
  rw [Sought.outcome_congr hnone]
  cases r.ending ts fault with
  | none => exact Sought.outcome_nil_none _
  | some e => exact Sought.outcome_nil_some _ e

theorem found_nil {now : Moment} : r.found excluded now k [] fault = fault.elim (.ok none) .error :=
  found_of_past fun _ ht => (nomatch ht)

/-- Dates that are not after the moment, nor after the last one, do not matter for the later ones. -/
theorem found_append {now : WallTime} (hsorted : (early ++ late).Pairwise fun a b => a.ticks < b.ticks)
    (hearly : ∀ t ∈ early, ¬ (Moment.universal now).before (r.moment t))
    (hpast : ¬ early.any r.isPast) :
    r.found excluded (Moment.universal now) k (early ++ late) fault =
      r.found excluded (Moment.universal now) k late fault := by
  have hending : r.ending (early ++ late) fault = r.ending late fault := by
    unfold ending
    rw [List.any_append, Bool.eq_false_iff.mpr hpast, Bool.false_or]
  have hsep : (r.kept (early ++ late)).Pairwise (Moment.universal now).Separates :=
    kept_pairwise hsorted fun a b hab => Moment.separates_universal now rfl hab
  unfold found
  rw [kept_append hpast] at hsep ⊢
  rw [hending]
  refine Sought.outcome_congr (filter_sweep_append hsep fun m hm => ?_) _ _
  obtain ⟨t, ht, rfl, -⟩ := mem_of_mem_kept hm
  exact hearly t ht

/-- A search through a run that stumbles breaks off. -/
theorem found_of_stumbles {now : Moment} {e : Fault}
    (h : ∀ t ∈ ts, ¬ r.isPast t ∧ ¬ now.before (r.moment t)) :
    r.found excluded now k ts (some e) = .error e := by
  have hending : r.ending ts (some e) = some e := by
    refine if_neg fun hany => ?_
    obtain ⟨t, ht, hpast⟩ := List.any_eq_true.mp hany
    exact (h t ht).1 hpast
  rw [found_of_past fun t ht hnow => absurd hnow (h t ht).2, hending]
  rfl

/-- If all dates after the moment are after the last one, nothing is found, unless the run
stumbles. -/
theorem orNone_found_of_past {now : Moment} (h : ∀ t ∈ ts, now.before (r.moment t) → r.isPast t)
    (hnot : ∀ e, fault = some e → ¬ e.endsSearch →
      ¬ ∀ t ∈ ts, ¬ r.isPast t ∧ ¬ now.before (r.moment t)) :
    Source.orNone (r.found excluded now k ts fault) = .ok none := by
  rw [found_of_past h]
  unfold ending
  by_cases hpast : ts.any r.isPast
  · rw [if_pos hpast]
    rfl
  rw [if_neg hpast]
  cases fault with
  | none => rfl
  | some e =>
    by_cases he : e.endsSearch
    · exact if_pos he
    · have hnone : ∀ t ∈ ts, ¬ r.isPast t := fun t ht htpast =>
        hpast (List.any_eq_true.mpr ⟨t, ht, htpast⟩)
      exact absurd (fun t ht => ⟨hnone t ht, fun hnow => hnone t ht (h t ht hnow)⟩) (hnot e rfl he)

end Found

/-! ## The moved rule -/

/-- The dates of two runs after a later anchor, and what they have before it. -/
structure Splits (r : Rule) (anchor now : Moment) (early late early' late' : List WallTime)
    (fault fault' : Option Fault) : Prop where
  isOver : ∀ t ∈ early, ¬ now.before (r.moment t)
  isOver' : ∀ t ∈ early', ¬ now.before (r.moment t)
  lt : ∀ a ∈ early, ∀ b ∈ late', a.ticks < b.ticks
  lt' : ∀ a ∈ early', ∀ b ∈ late, a.ticks < b.ticks
  reached : ∀ t ∈ late, r.anchor.wall.ticks ≤ t.ticks ∧ anchor.wall.ticks ≤ t.ticks
  meets : Meets late late' fault fault'

/-- Whether the dates of two runs can be split so. -/
def Joins (r : Rule) (anchor now : Moment) (ts ts' : List WallTime) (fault fault' : Option Fault) :
    Prop :=
  ∃ early late early' late', ts = early ++ late ∧ ts' = early' ++ late' ∧
    r.Splits anchor now early late early' late' fault fault'

/-- Whether the run of a rule and the one from an anchor have the same dates after the anchor, and
before it no date after a moment. -/
def Rejoins (r : Rule) (anchor now : Moment) : Prop :=
  ∃ cost cost' ts ts' fault fault', r.Run cost r.firstPeriod true ts fault ∧
    r.Run cost' (Period.ofTime r.freq anchor.wall) true ts' fault' ∧
    r.Joins anchor now ts ts' fault fault'

theorem moment_movedTo (hclock : anchor.clock = r.anchor.clock) :
    (r.movedTo anchor given).moment = r.moment := by
  funext t
  show (⟨t, anchor.clock, false⟩ : Moment) = ⟨t, r.anchor.clock, false⟩
  rw [hclock]

theorem isPast_movedTo (hclock : anchor.clock = r.anchor.clock) :
    (r.movedTo anchor given).isPast = r.isPast := by
  funext t
  show Walk.isPast _ ((r.movedTo anchor given).moment t) = _
  rw [moment_movedTo hclock]
  rfl

/-- After both anchors the moved rule has the dates of the rule. -/
theorem found_movedTo (hclock : anchor.clock = r.anchor.clock) {late : List WallTime}
    (hlate : ∀ t ∈ late, r.anchor.wall.ticks ≤ t.ticks ∧ anchor.wall.ticks ≤ t.ticks)
    (excluded : List Moment) (now : Moment) (k : Nat) (fault : Option Fault) :
    (r.movedTo anchor given).found excluded now k late fault = r.found excluded now k late fault := by
  have hkept : (r.movedTo anchor given).kept late = r.kept late := by
    unfold kept
    rw [isPast_movedTo hclock, moment_movedTo hclock]
    congr 1
    refine List.filter_congr fun t ht => ?_
    obtain ⟨h, h'⟩ := hlate t ((List.takeWhile_sublist _).subset ht)
    rw [decide_eq_true h,
      decide_eq_true (show (r.movedTo anchor given).anchor.wall.ticks ≤ t.ticks from h')]
  have hending : (r.movedTo anchor given).ending late fault = r.ending late fault := by
    unfold ending
    rw [isPast_movedTo hclock]
  unfold found
  rw [hkept, hending]

section Splits

variable {now : WallTime} {early late early' late' : List WallTime} {fault fault' : Option Fault}

/-- If a date before the anchor is after the last moment, so are all later ones that are not over. -/
theorem Splits.isPast (h : r.Splits anchor (Moment.universal now) early late early' late' fault fault')
    (hsorted : (early ++ late).Pairwise fun a b => a.ticks < b.ticks)
    (hsorted' : (early' ++ late').Pairwise fun a b => a.ticks < b.ticks)
    (hpast : early.any r.isPast ∨ early'.any r.isPast) :
    (∀ t ∈ early ++ late, (Moment.universal now).before (r.moment t) → r.isPast t) ∧
      ∀ t ∈ early' ++ late', (Moment.universal now).before (r.moment t) → r.isPast t := by
  obtain ⟨a, ha, hapast, hlt, hlt'⟩ : ∃ a, ¬ (Moment.universal now).before (r.moment a) ∧ r.isPast a ∧
      (∀ t ∈ late, a.ticks < t.ticks) ∧ ∀ t ∈ late', a.ticks < t.ticks := by
    rcases hpast with hpast | hpast
    · obtain ⟨a, ha, hapast⟩ := List.any_eq_true.mp hpast
      exact ⟨a, h.isOver a ha, hapast, (List.pairwise_append.mp hsorted).2.2 a ha, h.lt a ha⟩
    · obtain ⟨a, ha, hapast⟩ := List.any_eq_true.mp hpast
      exact ⟨a, h.isOver' a ha, hapast, h.lt' a ha, (List.pairwise_append.mp hsorted').2.2 a ha⟩
  constructor
  · intro t ht hnow
    rcases List.mem_append.mp ht with ht | ht
    · exact absurd hnow (h.isOver t ht)
    · exact isPast_of_lt (hlt t ht) ha hapast hnow
  · intro t ht hnow
    rcases List.mem_append.mp ht with ht | ht
    · exact absurd hnow (h.isOver' t ht)
    · exact isPast_of_lt (hlt' t ht) ha hapast hnow

/-- What the search through the rule finds is what the search through the moved rule finds,
unless the moved rule stumbles. -/
theorem found_of_splits (hclock : anchor.clock = r.anchor.clock)
    (h : r.Splits anchor (Moment.universal now) early late early' late' fault fault')
    (hsorted : (early ++ late).Pairwise fun a b => a.ticks < b.ticks)
    (hsorted' : (early' ++ late').Pairwise fun a b => a.ticks < b.ticks)
    {excluded : List Moment} {k : Nat} {s : Option Moment}
    (hfound : r.found excluded (Moment.universal now) k (early ++ late) fault = .ok s)
    (hnot : ∀ e, fault' = some e → ¬ e.endsSearch → ¬ ∀ t ∈ early' ++ late',
      ¬ r.isPast t ∧ ¬ (Moment.universal now).before (r.moment t)) :
    Source.orNone ((r.movedTo anchor given).found excluded (Moment.universal now) k (early' ++ late')
      fault') = .ok s := by
  have hisPast : (r.movedTo anchor given).isPast = r.isPast := isPast_movedTo hclock
  have hmoment : (r.movedTo anchor given).moment = r.moment := moment_movedTo hclock
  by_cases hpast : early.any r.isPast ∨ early'.any r.isPast
  · -- Both rules end before the moment, so neither has a later date.
    obtain ⟨hts, hts'⟩ := h.isPast hsorted hsorted' hpast
    have hnone : s = none := by
      rw [found_of_past hts] at hfound
      cases hending : r.ending (early ++ late) fault with
      | none =>
        rw [hending] at hfound
        exact (Except.ok.inj hfound).symm
      | some e =>
        rw [hending] at hfound
        cases hfound
    rw [hnone]
    refine orNone_found_of_past ?_ ?_
    · rw [hisPast, hmoment]
      exact hts'
    · rw [hisPast, hmoment]
      exact hnot
  · obtain ⟨hpast, hpast'⟩ := not_or.mp hpast
    rw [found_append hsorted h.isOver hpast] at hfound
    rw [found_append hsorted' (by rw [hmoment]; exact h.isOver') (by rw [hisPast]; exact hpast')]
    cases h.meets with
    | same hlate' hfault =>
      rw [hlate', hfault, found_movedTo hclock h.reached, hfound]
      rfl
    | breaksOff hnil hfault =>
      rw [hnil, hfault, found_nil] at hfound
      cases hfound
    | @ends e hnil hnil' hfault he =>
      rw [hnil', hfault, found_nil]
      rw [hnil, found_nil] at hfound
      cases fault with
      | none => exact (if_pos he).trans hfound
      | some e' => cases hfound
    | @fails e hnil' hfault he =>
      refine absurd (fun t ht => ⟨fun htpast => ?_, ?_⟩) (hnot e hfault he)
      · rw [hnil', List.append_nil] at ht
        exact hpast' (List.any_eq_true.mpr ⟨t, ht, htpast⟩)
      · rw [hnil', List.append_nil] at ht
        exact h.isOver' t ht

end Splits

/-! ## Searching -/

theorem isComplete_movedTo (hr : r.IsComplete) : (r.movedTo anchor given).IsComplete :=
  ⟨hr.interval_pos, hr.weekStart_lt, hr.minutes_sorted, hr.seconds_sorted, hr.dayTimes_sorted,
    hr.dayTimes_valid, hr.numbered_eq_nil⟩

theorem firstPeriod_fits (r : Rule) : r.firstPeriod.Fits r.freq := by
  rw [firstPeriod_eq]
  exact Period.ofTime_fits _ _

/-- A search through a completed rule without a count finds what it finds in its run. -/
theorem search_eq_found (hr : r.IsComplete) (hcount : r.count = none) {cost : Nat}
    {ts : List WallTime} {fault : Option Fault} (hrun : r.Run cost r.firstPeriod true ts fault)
    (excluded : List Moment) (now : Moment) (k : Nat) :
    search RuleSet.step now stepLimit (.after k) (RuleSet.ofRules [r] [] excluded) =
      r.found excluded now k ts fault := by
  have houtcome := search_eq_outcome hrun (hrun.cost_le_stepLimit hr r.firstPeriod_fits)
    (hrun.dates_spec hr r.firstPeriod_fits).1 excluded now k
  unfold cut cutEnding at houtcome
  rwa [hcount] at houtcome

/-- A rule that stumbles gives no answer. -/
theorem search_of_stumbles (hr : r.IsComplete) (hcount : r.count = none) {now : Moment}
    (h : r.Stumbles now) (excluded : List Moment) (k : Nat) (s : Option Moment) : Source.orNone
      (search RuleSet.step now stepLimit (.after k) (RuleSet.ofRules [r] [] excluded)) ≠ .ok s := by
  obtain ⟨cost, ts, e, hrun, he, hts⟩ := h
  rw [search_eq_found hr hcount hrun, found_of_stumbles hts]
  intro hok
  rw [show Source.orNone (.error e) = .error e from if_neg he] at hok
  cases hok

/-- If the run from an anchor rejoins the run of a rule, a search through the rule that is moved to
the anchor finds what a search through the rule finds, unless the moved rule stumbles. -/
theorem search_movedTo_iff (hr : r.IsComplete) (hcount : r.count = none)
    (hclock : anchor.clock = r.anchor.clock) {now : WallTime}
    (h : r.Rejoins anchor (Moment.universal now)) {excluded : List Moment} {k : Nat}
    {s : Option Moment} (hwalk : search RuleSet.step (Moment.universal now) stepLimit (.after k)
      (RuleSet.ofRules [r] [] excluded) = .ok s) :
    Source.orNone (search RuleSet.step (Moment.universal now) stepLimit (.after k)
      (RuleSet.ofRules [r.movedTo anchor given] [] excluded)) = .ok s ↔
        ¬ (r.movedTo anchor given).Stumbles (Moment.universal now) := by
  have hr' : (r.movedTo anchor given).IsComplete := isComplete_movedTo hr
  refine ⟨fun h hstumbles => search_of_stumbles hr' hcount hstumbles excluded k s h, fun hnot => ?_⟩
  obtain ⟨cost, cost', _, _, fault, fault', hrun, hrun', early, late, early', late', rfl, rfl,
    hsplits⟩ := h
  have hmoved : (r.movedTo anchor given).Run cost' (r.movedTo anchor given).firstPeriod true
      (early' ++ late') fault' := by
    rw [firstPeriod_eq]
    exact run_movedTo hrun'
  rw [search_eq_found hr hcount hrun] at hwalk
  rw [search_eq_found hr' hcount hmoved]
  refine found_of_splits hclock hsplits (hrun.dates_spec hr r.firstPeriod_fits).1
    (hrun'.dates_spec hr (Period.ofTime_fits _ _)).1 hwalk fun e hfault he hnot' => ?_
  refine hnot ⟨cost', _, e, hfault ▸ hmoved, he, ?_⟩
  rw [isPast_movedTo hclock, moment_movedTo hclock]
  exact hnot'

/-- The run from an anchor that is a whole number of intervals away rejoins the run of a rule if the
anchor's period is over. -/
theorem rejoins_of_over (hr : r.IsComplete) {now : Moment} {n : Nat}
    (hn : n = (Period.ofTime r.freq anchor.wall).number r.weekStart)
    (hlt : r.number r.firstPeriod < n) (hmod : r.number r.firstPeriod % r.interval = n % r.interval)
    (hend : r.freq.startOf r.weekStart (n + 1) ≤ (Calendar.dayCount : Int) * Span.day)
    (hover : ∀ (t : WallTime) (m : Nat), m ≤ n → r.freq.Spans r.weekStart m t.ticks →
      ¬ now.before (r.moment t)) : r.Rejoins anchor now := by
  have hq := Period.ofTime_fits r.freq anchor.wall
  have hqn : r.number (Period.ofTime r.freq anchor.wall) = n := hn.symm
  obtain ⟨cost, ts, fault, hrun⟩ := exists_run hr r.firstPeriod_fits true
  obtain ⟨cost', ts', fault', hrun'⟩ := exists_run hr hq true
  obtain ⟨early, late, early', late', hcut, hcut', hmeets⟩ := runs_meet hr r.firstPeriod_fits hq
    (by rw [hqn]; exact hlt) (by rw [hqn]; exact hmod) (by rw [hqn]; exact hend) hrun hrun'
  rw [hqn] at hcut hcut'
  -- A date up to the later anchor's period comes before one after it.
  have horder : ∀ {as bs : List WallTime}, r.UpTo n as →
      (∀ t ∈ bs, ∃ m, n < m ∧ r.freq.Spans r.weekStart m t.ticks) →
      ∀ a ∈ as, ∀ b ∈ bs, a.ticks < b.ticks := by
    intro as bs has hbs a ha b hb
    obtain ⟨m, hm, hspans⟩ := has a ha
    obtain ⟨m', hm', hspans'⟩ := hbs b hb
    exact hspans.lt_of_lt hspans' (lt_of_le_of_lt hm hm')
  have hisOver : ∀ {as : List WallTime}, r.UpTo n as → ∀ t ∈ as, ¬ now.before (r.moment t) := by
    intro as has t ht
    obtain ⟨m, hm, hspans⟩ := has t ht
    exact hover t m hm hspans
  refine ⟨cost, cost', ts, ts', fault, fault', hrun, hrun', early, late, early', late',
    hcut.eq_append, hcut'.eq_append, hisOver hcut.early_le, hisOver hcut'.early_le,
    horder hcut.early_le hcut'.late_gt, horder hcut'.early_le hcut.late_gt, fun t ht => ?_, hmeets⟩
  obtain ⟨m, hm, hspans⟩ := hcut.late_gt t ht
  have hstart := Period.ofTime_spans r.freq hr.weekStart_lt r.anchor.wall
  have hanchor := Period.ofTime_spans r.freq hr.weekStart_lt anchor.wall
  rw [← firstPeriod_eq] at hstart
  rw [← hn] at hanchor
  exact ⟨(hstart.lt_of_lt hspans (hlt.trans hm)).le, (hanchor.lt_of_lt hspans hm).le⟩

end Rule

end ScanPolicy
