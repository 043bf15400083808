import Mathlib.Data.Nat.ModEq
import ScanPolicy.Proofs.Recurrence.Rejoining
import ScanPolicy.Proofs.Schedule.ClockNext
import ScanPolicy.Proofs.Schedule.ComponentRules
import ScanPolicy.Proofs.Schedule.FastForward
import ScanPolicy.Proofs.Zone.Calm
import ScanPolicy.Proofs.Zone.Offsets

/-!
# Fast-forwarding hours and minutes on any clock

The anchor of a rule of hours or minutes is counted in universal time, but its periods are counted on
the wall of its clock. Where the clock was set forward or back in between, the anchor may be out of
step with the start, and then the rule at its anchor has other hours or minutes than the rule itself.
As long as the anchor is in step and later than the start, and no date before it is after the
moment, the answers are those of the walk from the start.

- `Source.anchored_inPhase`: a rule at an anchor in step is only moved.
- `Source.inStep_of_offsets`: anchors in step, by the offsets of the clock.
- `Source.expandedNth_iff_of_inStep`: the answers of the rule at its anchor.
-/

namespace ScanPolicy

/-! ## Anchors -/

/-- Numbers that are whole steps away show values on a dial that are whole steps away. -/
theorem dial_of_number {base interval x y a b : Nat}
    (h : (base * x + a) % interval = (base * y + b) % interval) :
    ((b : Int) - a) % (Nat.gcd interval base : Int) = 0 := by
  have hbase : (Nat.gcd interval base : Int) ∣ base :=
    Int.natCast_dvd_natCast.mpr (Nat.gcd_dvd_right interval base)
  have hsteps : (Nat.gcd interval base : Int) ∣ ((base * y + b : Nat) : Int) - (base * x + a : Nat) :=
    (Int.natCast_dvd_natCast.mpr (Nat.gcd_dvd_left interval base)).trans (Nat.modEq_iff_dvd.mp h)
  have hdiff : (b : Int) - a =
      ((base * y + b : Nat) : Int) - (base * x + a : Nat) - base * ((y : Int) - x) := by
    push_cast
    ring
  rw [hdiff]
  exact Int.emod_eq_zero_of_dvd (Int.dvd_sub hsteps (hbase.mul_right _))

/-- The hours and the minutes of times in periods in step. -/
theorem Period.dial_of_number {f : Frequency} {s t : WallTime} {interval weekStart : Nat}
    (h : (Period.ofTime f s).number weekStart % interval =
      (Period.ofTime f t).number weekStart % interval) :
    (f = .hourly → ((t.hour : Int) - s.hour) % (Nat.gcd interval 24 : Int) = 0) ∧
      (f = .minutely → ((t.minute : Int) - s.minute) % (Nat.gcd interval 60 : Int) = 0) := by
  constructor
  · rintro rfl
    exact ScanPolicy.dial_of_number h
  · rintro rfl
    have hnumber : ∀ u : WallTime, (Period.ofTime .minutely u).number weekStart =
        60 * (24 * u.dayNumber + u.hour) + u.minute := by
      intro u
      show 1440 * u.dayNumber + 60 * u.hour + u.minute = _
      omega
    rw [hnumber, hnumber] at h
    exact ScanPolicy.dial_of_number h

/-- The numbered dates of a rule of hours or minutes are at whole seconds if its start is. -/
theorem Plain.wholeSecond_of_occurrence {start anchor : Moment} {c : Component} {f : Frequency}
    (hf : c.freq = some f) (hsub : f.isSubDaily = true) (hwhole : start.wall.ticks % Span.second = 0)
    {index : Nat} (h : occurrence start c index = .ok anchor) :
    anchor.wall.ticks % Span.second = 0 := by
  obtain ⟨unit, hunit, hseconds⟩ : ∃ unit, f.unit = .absolute unit ∧ unit % Span.second = 0 := by
    cases f with
    | hourly => exact ⟨Span.hour, rfl, by decide⟩
    | minutely => exact ⟨Span.minute, rfl, by decide⟩
    | _ => cases hsub
  obtain ⟨t, ht, hshown⟩ := exists_universal_of_occurrence hunit hf h
  refine Moment.on?_wholeSecond ?_ hshown
  show t.ticks % Span.second = 0
  have hinstant : Span.second ∣ start.instant :=
    Int.dvd_sub (Int.dvd_of_emod_eq_zero hwhole) (Int.dvd_mul_left _ _)
  rw [ht]
  exact Int.emod_eq_zero_of_dvd (Int.dvd_add hinstant ((Int.dvd_of_emod_eq_zero hseconds).mul_left _))

namespace Source

section Anchored

variable {c : Component} {start now : Moment} {f : Frequency} {weekStart : Nat} {r r' : Rule}

/-- A single rule stays a single one. -/
theorem exists_single_of_anchored {moved : Rules} (h : anchored start c (.single r) now = .ok moved) :
    ∃ r', moved = .single r' := by
  rcases anchored_cases h with rfl | ⟨_, r', _, _, -, rfl, -⟩
  · exact ⟨r, rfl⟩
  · exact ⟨r', rfl⟩

/-- A rule at an anchor has the periods of the rule, and no count. -/
theorem anchored_fields (h : Component.Completes c start f weekStart r)
    (hmoved : anchored start c (.single r) now = .ok (.single r')) :
    r'.IsComplete ∧ r'.count = none ∧ r'.freq = r.freq ∧ r'.interval = r.interval ∧
      r'.weekStart = r.weekStart := by
  obtain ⟨hcomplete, hcount, -⟩ := h.rule_spec
  rcases anchored_cases hmoved with hsame | ⟨_, _, _, _, hr, hr', -, hreanchor, -⟩
  · cases hsame
    exact ⟨hcomplete, hcount, rfl, rfl, rfl⟩
  · cases hr
    cases hr'
    have hfields := (Rule.ofParts_eq_ok_iff.mp hreanchor).2.2.2.2
    refine ⟨Rule.isComplete_of_ofParts hreanchor hcomplete.interval_pos hcomplete.weekStart_lt,
      ?_, ?_, ?_, ?_⟩
    · exact (congrArg Rule.count hfields).trans hcount
    · exact (congrArg Rule.freq hfields).trans rfl
    · exact (congrArg Rule.interval hfields).trans rfl
    · exact (congrArg Rule.weekStart hfields).trans rfl

/-- What a rule of hours or minutes has at its anchor, the numbered date before the last one that the
estimate passes over. -/
structure IsMoved (start now : Moment) (c : Component) (f : Frequency) (r r' : Rule) (index : Nat) :
    Prop where
  index_pos : 0 < index
  occurrence : Plain.occurrence start c index = .ok r'.anchor
  wholeSecond : r'.anchor.wall.ticks % Span.second = 0
  reanchor : r.reanchor r'.anchor (pin start c) = .ok r'
  elapsed : ∃ elapsed, Plain.elapsedPeriods start c f now = .ok elapsed ∧ (elapsed - 1).toNat = index

/-- A rule of hours or minutes stays at its start or is moved. -/
theorem isMoved_of_anchored (hf : c.freq = some f) (hsub : f.isSubDaily = true)
    (hwhole : start.wall.ticks % Span.second = 0)
    (hmoved : anchored start c (.single r) now = .ok (.single r')) :
    r' = r ∨ ∃ index, IsMoved start now c f r r' index := by
  rcases anchored_cases hmoved with hsame | ⟨_, _, index, anchor, hr, hr', hoccurrence, hreanchor, hindex,
    _, elapsed, hf', helapsed, hcount⟩
  · cases hsame
    exact .inl rfl
  · cases hr
    cases hr'
    obtain rfl := Option.some.inj (hf.symm.trans hf')
    have hwholeAnchor := Plain.wholeSecond_of_occurrence hf hsub hwhole hoccurrence
    obtain rfl : r'.anchor = anchor := by
      rw [show r'.anchor = { anchor with wall := anchor.wall.wholeSecond } from
        congrArg Rule.anchor (Rule.ofParts_eq_ok_iff.mp hreanchor).2.2.2.2,
        Rule.wholeSecond_eq hwholeAnchor]
    exact .inr ⟨index, Nat.pos_of_ne_zero hindex, hoccurrence, hwholeAnchor, hreanchor, elapsed,
      helapsed, hcount⟩

/-- A rule of hours or minutes at an anchor in step is only moved there. -/
theorem anchored_inPhase (h : Component.Completes c start f weekStart r)
    (hsub : f.isSubDaily = true) (hwhole : start.wall.ticks % Span.second = 0)
    (hmoved : anchored start c (.single r) now = .ok (.single r')) (hphase : r.InPhase r') :
    r' = r ∨ r'.anchor.clock = start.clock ∧ ∃ given, r' = r.movedTo r'.anchor given := by
  rcases isMoved_of_anchored h.freq_eq hsub hwhole hmoved with hsame | ⟨index, hindex⟩
  · exact .inl hsame
  obtain ⟨-, -, hfreq, hinterval, hweek, -, hranchor⟩ := h.rule_spec
  have hwall : r.anchor.wall = start.wall := by
    rw [hranchor]
    exact Rule.wholeSecond_eq hwhole
  have hdial : (Period.ofTime f start.wall).number weekStart % c.interval =
      (Period.ofTime f r'.anchor.wall).number weekStart % c.interval := by
    have hphase := hphase
    unfold Rule.InPhase Rule.number at hphase
    rwa [Rule.firstPeriod_eq, Rule.firstPeriod_eq, (anchored_fields h hmoved).2.2.1, hfreq, hwall,
      hweek, hinterval] at hphase
  obtain ⟨hhour, hminute⟩ := Period.dial_of_number hdial
  obtain ⟨given, hgiven⟩ := h.reanchor hwhole hindex.wholeSecond hhour hminute
  exact .inr ⟨Plain.clock_of_occurrence hindex.occurrence, given,
    Except.ok.inj (hindex.reanchor.symm.trans hgiven)⟩

/-! ## Offsets -/

section Offsets

variable {unit : Int} {now : WallTime} {index : Nat} (hunit : f.unit = .absolute unit)
  (hinterval : 0 < c.interval) (hindex : IsMoved start (Moment.universal now) c f r r' index)

include hunit hinterval hindex

/-- A period after the anchor is over at the moment. -/
theorem IsMoved.isOver : start.instant + (index * c.interval : Nat) * unit + c.interval * unit ≤
    now.ticks := by
  obtain ⟨elapsed, helapsed, hcount⟩ := hindex.elapsed
  have hpos := hindex.index_pos
  obtain rfl : elapsed = index + 1 := by omega
  cases hperiod : Span.times? c.interval unit with
  | none =>
    unfold Plain.elapsedPeriods at helapsed
    simp only [hunit, hperiod] at helapsed
    cases helapsed
  | some period =>
    rw [Plain.elapsedPeriods_absolute hunit hperiod] at helapsed
    obtain ⟨rfl, -⟩ := Span.times?_eq_some_iff.mp hperiod
    have hpassed := (Plain.le_fdiv_iff (Plain.period_pos (.inl hunit) hinterval)).mp
      (Except.ok.inj helapsed).ge
    rw [Moment.since_eq (.inl rfl), Moment.instant_universal, add_mul, one_mul, ← mul_assoc] at hpassed
    push_cast
    omega

/-- On the wall too the anchor is a number of periods after the start, if there the clock is whole
periods further ahead or behind, one period behind at most. -/
theorem IsMoved.exists_steps (hf : c.freq = some f) (hkeeps : start.clock.KeepsInstants)
    (hperiods : (c.interval * unit : Int) ∣ (r'.anchor.offset - start.offset) * Span.second)
    (hbehind : (start.offset - r'.anchor.offset) * Span.second ≤ c.interval * unit) :
    ∃ steps : Nat, r'.anchor.wall.ticks = start.wall.ticks + (steps * c.interval : Nat) * unit := by
  have hinstant := Plain.instant_of_occurrence hkeeps hunit hf hindex.occurrence
  have hpos := Plain.period_pos (.inl hunit) hinterval
  have hindexPos := hindex.index_pos
  obtain ⟨further, hfurther⟩ := hperiods
  have hle : -1 ≤ further := by
    refine le_of_mul_le_mul_left ?_ hpos
    linarith
  refine ⟨(index + further).toNat, ?_⟩
  unfold Moment.instant at hinstant
  push_cast at hinstant ⊢
  rw [Int.toNat_of_nonneg (by omega)]
  linarith

end Offsets

/-- An anchor is in step if there the clock is whole periods further ahead or behind than at the start,
one period behind at most. And no date before it is after the moment if at none of them the clock
is further behind by more than a period. -/
theorem inStep_of_offsets (h : Component.Completes c start f weekStart r) {unit : Int}
    (hunit : f.unit = .absolute unit) (hwhole : start.wall.ticks % Span.second = 0)
    (hkeeps : start.clock.KeepsInstants) {now : WallTime}
    (hmoved : anchored start c (.single r) (Moment.universal now) = .ok (.single r'))
    (hperiods : (c.interval * unit : Int) ∣ (r'.anchor.offset - start.offset) * Span.second)
    (hbehind : (start.offset - r'.anchor.offset) * Span.second ≤ c.interval * unit)
    (hdates : ∀ t, r.HasDate t → t.ticks < r'.anchor.wall.ticks →
      (r'.anchor.offset - (r.moment t).offset) * Span.second ≤ c.interval * unit) :
    r' = r ∨ r.InStep r' (Moment.universal now) := by
  rcases isMoved_of_anchored h.freq_eq (Plain.isSubDaily_of_absolute hunit) hwhole hmoved with
    hsame | ⟨index, hindex⟩
  · exact .inl hsame
  obtain ⟨-, -, hfreq, hinterval, hweek, -, hranchor⟩ := h.rule_spec
  have hwall : r.anchor.wall = start.wall := by
    rw [hranchor]
    exact Rule.wholeSecond_eq hwhole
  have hminute := Plain.minute_le_unit (.inl hunit)
  rw [Span.minute_eq] at hminute
  obtain ⟨steps, hsteps⟩ := hindex.exists_steps hunit h.interval_pos h.freq_eq hkeeps hperiods hbehind
  refine .inr ⟨?_, ?_, fun t ht hlt => ?_⟩
  · rw [hwall, hsteps]
    exact le_add_of_nonneg_right (mul_nonneg (Int.natCast_nonneg _) (by omega))
  · have hspans := (Period.ofTime_spans f h.weekStart_lt start.wall).add (.inl hunit) (steps * c.interval)
    rw [← hsteps] at hspans
    have hnumber := (Period.ofTime_spans f h.weekStart_lt r'.anchor.wall).unique hspans
    unfold Rule.InPhase Rule.number
    rw [Rule.firstPeriod_eq, Rule.firstPeriod_eq, (anchored_fields h hmoved).2.2.1, hfreq, hwall, hweek,
      hinterval, hnumber, Nat.add_mul_mod_self_right]
  · have hinstant := Plain.instant_of_occurrence hkeeps hunit h.freq_eq hindex.occurrence
    have hover := hindex.isOver hunit h.interval_pos
    have hoffset := hdates t ht hlt
    rw [Moment.before_eq (.inl rfl), decide_eq_true_eq, Moment.instant_universal, not_lt]
    unfold Moment.instant at hinstant hover ⊢
    rw [sub_mul] at hoffset
    show t.ticks - _ ≤ _
    omega

end Anchored

/-- A single rule of hours or minutes in one word is completed from the parts. -/
theorem completes_of_single {value : Text} {start : Moment} {clock : Clock} {all : List (Text × Text)}
    (hall : Component.parts value = .ok all)
    (hword : Component.IsOneWord (Component.withoutUntil all)) {c : Component}
    (hc : Component.parse value start clock = .ok c) (hcount : c.count = none) {f : Frequency}
    (hf : c.freq = some f) (hsub : f.isSubDaily = true) {r : Rule}
    (hrules : c.rules = some (.single r)) : ∃ weekStart, Component.Completes c start f weekStart r := by
  obtain ⟨all', hall', hread⟩ := Component.isRead_of_parse hc
  obtain rfl : all = all' := Except.ok.inj (hall.symm.trans hall')
  obtain ⟨f', weekStart, r', h, hsingle, -⟩ :=
    Component.completes_of_isOneWord hall hread hword hcount fun hlong => by
      rw [hf] at hlong
      exact absurd (hsub.symm.trans hlong) Bool.noConfusion
  obtain rfl : f = f' := Option.some.inj (hf.symm.trans h.freq_eq)
  obtain rfl : r = r' := by
    cases hrules.symm.trans hsingle
    rfl
  exact ⟨weekStart, h⟩

/-- Fast-forwarding a rule of hours or minutes on any clock. Let walking the rule from the start of the
schedule give an answer. If the rule stays at its start, or if its anchor is later, in step with the
start and after no date that is after the moment, then the rule at its anchor gives the same answer,
exactly if it does not break off before any date after the moment or after the last moment. And it
gives the same date only if the anchor is in step with the start and not after the date. -/
theorem expandedNth_iff_of_inStep {text : Text} {zoneName : Option Text} {d : Descriptor}
    (hparse : (Descriptor.parse text zoneName).run.value = .ok d)
    {value : Text} {all : List (Text × Text)} (hall : Component.parts value = .ok all)
    (hword : Component.IsOneWord (Component.withoutUntil all)) {c : Component}
    (hc : Component.parse value d.start (Descriptor.clockOf d.zone) = .ok c)
    (hcount : c.count = none) {f : Frequency} (hf : c.freq = some f) (hsub : f.isSubDaily = true)
    {r : Rule} (hrules : c.rules = some (.single r)) (now : WallTime) (k : Nat) {s : Option Moment}
    (hwalk : walkNth d (.single r) (Moment.universal now) k = .ok s) {r' : Rule}
    (hmoved : anchored d.start c (.single r) (Moment.universal now) = .ok (.single r')) :
    (r' = r ∨ r.InStep r' (Moment.universal now) →
      (orNone (expandedNth d c (.single r) (Moment.universal now) k) = .ok s ↔
        ¬ r'.Stumbles (Moment.universal now))) ∧
    ∀ m, s = some m → orNone (expandedNth d c (.single r) (Moment.universal now) k) = .ok s →
      r.InPhase r' ∧ r'.anchor.wall.ticks ≤ m.wall.ticks := by
  have hwhole := Descriptor.start_wholeSecond hparse
  obtain ⟨weekStart, h⟩ := completes_of_single hall hword hc hcount hf hsub hrules
  obtain ⟨hcomplete, hrcount, hfreq, -, -, -, hranchor⟩ := h.rule_spec
  obtain ⟨hcomplete', hcount', hfields⟩ := anchored_fields h hmoved
  rw [expandedNth_of_anchored hmoved]
  have hstay : r' = r → (orNone (walkNth d (.single r') (Moment.universal now) k) = .ok s ↔
      ¬ r'.Stumbles (Moment.universal now)) := by
    rintro rfl
    exact walkNth_iff hcomplete hrcount hwalk
  constructor
  · rintro (hsame | hstep)
    · exact hstay hsame
    rcases anchored_inPhase h hsub hwhole hmoved hstep.phase with hsame | ⟨hclock, given, hgiven⟩
    · exact hstay hsame
    · have hmod := hstep.phase
      unfold Rule.InPhase at hmod
      rw [Rule.firstPeriod_eq r', hfields.1] at hmod
      rw [hgiven]
      refine Rule.search_movedTo_iff hcomplete hrcount (hclock.trans ?_) ?_ hwalk
      · rw [hranchor]
      · exact Rule.rejoins_of_isSubDaily hcomplete (by rw [hfreq]; exact hsub) hstep.later hmod
          hstep.isOver
  · rintro m rfl hfound
    exact Rule.inPhase_of_search hcomplete hrcount hcomplete' hcount' hfields.1 hfields.2.1
      hfields.2.2 hwalk (orNone_eq_some hfound)

set_option maxRecDepth 4000 in
/-- Every half hour from the evening before the clock is set back on, at noon of the next day. -/
theorem expandedNth_iff_of_inStep_after_summer_time : ∃ d c r r' now m,
    (Descriptor.parse ("DTSTART;TZID=Europe/Berlin:20241026T220000\n" ++
      "RRULE:FREQ=HOURLY;BYMINUTE=0,30").toList none).run.value = .ok d ∧ d.components = [c] ∧
    c.rules = some (.single r) ∧ WallTime.ofFields? ⟨2024, 10, 27⟩ 12 0 0 0 = some now ∧
    walkNth d (.single r) (Moment.universal now) 0 = .ok (some m) ∧
    anchored d.start c (.single r) (Moment.universal now) = .ok (.single r') ∧
    r.InStep r' (Moment.universal now) ∧
    (orNone (expandedNth d c (.single r) (Moment.universal now) 0) = .ok (some m) ↔
      ¬ r'.Stumbles (Moment.universal now)) := by
  obtain ⟨d, c, r, now, z, hd, hcomponents, hc, hrules, hcount, hfreq, hinterval, hnow, hcalm, hclock,
      hwhole, hstart, hoffsets, hwalk, hmoved⟩ : ∃ d c r now, ∃ z : Zone,
      (Descriptor.parse ("DTSTART;TZID=Europe/Berlin:20241026T220000\n" ++
        "RRULE:FREQ=HOURLY;BYMINUTE=0,30").toList none).run.value = .ok d ∧ d.components = [c] ∧
      Component.parse "FREQ=HOURLY;BYMINUTE=0,30".toList d.start (Descriptor.clockOf d.zone) = .ok c ∧
      c.rules = some (.single r) ∧ c.count = none ∧ c.freq = some .hourly ∧ c.interval = 1 ∧
      WallTime.ofFields? ⟨2024, 10, 27⟩ 12 0 0 0 = some now ∧ z.IsCalm 0 ∧
      d.start.clock = .zoned z ∧ d.start.wall.ticks % Span.second = 0 ∧ d.start.offset = 7200 ∧
      (z.offsets.all fun offset => decide (0 ≤ offset)) = true ∧
      ((walkNth d (.single r) (Moment.universal now) 0).toOption.any Option.isSome) = true ∧
      ((anchored d.start c (.single r) (Moment.universal now)).toOption.any fun moved =>
        moved.list.any fun r' =>
          decide (r'.anchor.offset = 3600 ∧ r'.anchor.wall ≠ r.anchor.wall)) = true :=
    ⟨_, _, _, _, _, rfl, rfl, rfl, rfl, rfl, rfl, rfl, rfl, Zone.isCalm_europeBerlin, rfl,
      by decide +kernel, by decide +kernel, by decide +kernel, by decide +kernel, by decide +kernel⟩
  obtain ⟨s, hs, hsome⟩ := (Option.any_eq_true _ _).mp hwalk
  obtain ⟨m, rfl⟩ := Option.isSome_iff_exists.mp hsome
  obtain ⟨moved, hmoved, hanchor⟩ := (Option.any_eq_true _ _).mp hmoved
  have hmoved := ok_of_toOption hmoved
  obtain ⟨r', rfl⟩ := exists_single_of_anchored hmoved
  obtain ⟨r₀, hr₀, hchecked⟩ := List.any_eq_true.mp hanchor
  obtain rfl : r₀ = r' := List.mem_singleton.mp hr₀
  obtain ⟨hoffset, hne⟩ := of_decide_eq_true hchecked
  have hword : Component.IsOneWord (Component.withoutUntil
      [("FREQ".toList, "HOURLY".toList), ("BYMINUTE".toList, "0,30".toList)]) := by
    decide
  obtain ⟨weekStart, h⟩ := completes_of_single rfl hword hc hcount hfreq rfl hrules
  have hkeeps : d.start.clock.KeepsInstants := by
    rw [hclock]
    exact hcalm.keepsInstants
  have hranchor : r.anchor.clock = .zoned z := by
    rw [h.rule_spec.2.2.2.2.2.2]
    exact hclock
  have hdates : ∀ t, (r₀.anchor.offset - (r.moment t).offset) * Span.second ≤
      c.interval * Span.hour := by
    intro t
    have hmem : (r.moment t).offset ∈ z.offsets := by
      unfold Rule.moment Moment.offset Moment.offsetWith
      rw [hranchor]
      exact z.offsetAt_mem t false
    have hle := of_decide_eq_true (List.all_eq_true.mp hoffsets _ hmem)
    rw [hoffset, hinterval, Span.second_eq, Span.hour_eq]
    omega
  rcases inStep_of_offsets h rfl hwhole hkeeps hmoved (by rw [hoffset, hstart, hinterval]; decide)
    (by rw [hoffset, hstart, hinterval]; decide) fun t _ _ => hdates t with rfl | hstep
  · exact absurd rfl hne
  · exact ⟨d, c, r, r₀, now, m, hd, hcomponents, hrules, hnow, ok_of_toOption hs, hmoved, hstep,
      (expandedNth_iff_of_inStep hd rfl hword hc hcount hfreq rfl hrules now 0 (ok_of_toOption hs)
        hmoved).1 (.inr hstep)⟩

set_option maxRecDepth 4000 in
/-- Every second hour from the evening before the clock is set forward on: the anchor is out of step, and
the rule at its anchor has the odd hours of the wall where the rule has the even ones. -/
theorem expandedNth_ne_walkNth_of_summer_time : ∃ d c r now m n,
    (Descriptor.parse ("DTSTART;TZID=Europe/Berlin:20240330T220000\n" ++
      "RRULE:FREQ=HOURLY;INTERVAL=2;BYMINUTE=0").toList none).run.value = .ok d ∧
    d.components = [c] ∧ c.freq = some .hourly ∧ c.count = none ∧ c.rules = some (.single r) ∧
    WallTime.ofFields? ⟨2024, 3, 31⟩ 4 0 0 0 = some now ∧
    walkNth d (.single r) (Moment.universal now) 0 = .ok (some m) ∧
    orNone (expandedNth d c (.single r) (Moment.universal now) 0) = .ok (some n) ∧
    m.wall.hour = 8 ∧ n.wall.hour = 7 := by
  obtain ⟨d, c, r, now, hd, hcomponents, hfreq, hcount, hrules, hnow, hwalk, hexpanded⟩ :
      ∃ d c r now, (Descriptor.parse ("DTSTART;TZID=Europe/Berlin:20240330T220000\n" ++
        "RRULE:FREQ=HOURLY;INTERVAL=2;BYMINUTE=0").toList none).run.value = .ok d ∧
      d.components = [c] ∧ c.freq = some .hourly ∧ c.count = none ∧ c.rules = some (.single r) ∧
      WallTime.ofFields? ⟨2024, 3, 31⟩ 4 0 0 0 = some now ∧
      ((walkNth d (.single r) (Moment.universal now) 0).toOption.join.any fun m =>
        m.wall.hour == 8) = true ∧
      ((orNone (expandedNth d c (.single r) (Moment.universal now) 0)).toOption.join.any fun n =>
        n.wall.hour == 7) = true :=
    ⟨_, _, _, _, rfl, rfl, rfl, rfl, rfl, rfl, by decide +kernel, by decide +kernel⟩
  obtain ⟨m, hm, hhour⟩ := (Option.any_eq_true _ _).mp hwalk
  obtain ⟨n, hn, hhour'⟩ := (Option.any_eq_true _ _).mp hexpanded
  exact ⟨d, c, r, now, m, n, hd, hcomponents, hfreq, hcount, hrules, hnow,
    ok_of_toOption (Option.join_eq_some_iff.mp hm), ok_of_toOption (Option.join_eq_some_iff.mp hn),
    beq_iff_eq.mp hhour, beq_iff_eq.mp hhour'⟩

end Source

end ScanPolicy
