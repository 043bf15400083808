import ScanPolicy.Proofs.Recurrence.Moved
import ScanPolicy.Proofs.Schedule.Anchors
import ScanPolicy.Proofs.Schedule.Completed

/-!
# Fast-forwarding in universal time

A rule with expanding parts is not walked from the start of its schedule but from an
anchor shortly before the moment. In universal time this gives what the walk from the
start gives, with one exception: if the walk from the start has ended before the moment,
the rule at its anchor may still break off over a period that it cannot lay out.

- `Source.anchored_spec`: where a rule is moved.
- `Source.expandedNth_eq_walkNth_iff`: the answers of the moved rule.
-/

namespace ScanPolicy

/-! ## The start of a schedule -/

namespace Moment

theorem ofUniversal?_wholeSecond {clock : Clock} {t : WallTime} {m : Moment}
    (ht : t.ticks % Span.second = 0) (h : ofUniversal? clock t = some m) :
    m.wall.ticks % Span.second = 0 := by
  unfold ofUniversal? at h
  split at h
  · cases h
    exact ht
  · obtain ⟨w, hw, rfl⟩ := Option.map_eq_some_iff.mp h
    have hticks := WallTime.ticks_of_ofTicks? hw
    show w.ticks % Span.second = 0
    rw [hticks, Int.add_mul_emod_self_right]
    exact ht

/-- Another clock shows whole seconds at whole seconds. -/
theorem on?_wholeSecond {m m' : Moment} {clock : Clock} (hm : m.wall.ticks % Span.second = 0)
    (h : m.on? clock = some m') : m'.wall.ticks % Span.second = 0 := by
  unfold on? at h
  split at h
  · cases h
    exact hm
  · obtain ⟨t, ht, h⟩ := Option.bind_eq_some_iff.mp h
    refine ofUniversal?_wholeSecond ?_ h
    rw [WallTime.ticks_of_ofTicks? ht]
    unfold instant
    rw [Int.sub_mul_emod_self_right]
    exact hm

end Moment

namespace Descriptor

/-- A schedule starts at a whole second. -/
theorem start_wholeSecond {text : Text} {zoneName : Option Text} {d : Descriptor}
    (h : (parse text zoneName).run.value = .ok d) : d.start.wall.ticks % Span.second = 0 := by
  obtain ⟨properties, -, hread⟩ := isRead_of_parse h
  obtain ⟨p, -, -, hstart⟩ := hread.start_eq
  unfold startOf at hstart
  obtain ⟨m, hm, hstart⟩ := bind_eq_ok_iff.mp hstart
  have hwhole := (Instant.isRead_of_parse hm).wholeSecond
  split at hstart
  · cases hstart
    exact hwhole
  · split at hstart
    · next m' hm' =>
      cases hstart
      exact Moment.on?_wholeSecond hwhole hm'
    · cases hstart

end Descriptor

namespace Component

/-- A rule reads its dates on the clock of its start. -/
theorem Completes.isUtc_moment {c : Component} {start : Moment} {f : Frequency} {weekStart : Nat}
    {r : Rule} (h : Completes c start f weekStart r) (hutc : start.clock.IsUtc) (t : WallTime) :
    (r.moment t).clock.IsUtc := by
  show r.anchor.clock.IsUtc
  rw [h.rule_spec.2.2.2.2.2.2]
  exact hutc

end Component

/-! ## Moved rules -/

namespace Source

variable {c : Component} {start : Moment} {f : Frequency} {weekStart : Nat} {r : Rule}

/-- In universal time a rule is either left where it is or moved to an anchor. -/
theorem anchored_spec (h : Component.Completes c start f weekStart r) (hutc : start.clock.IsUtc)
    (hwhole : start.wall.ticks % Span.second = 0) (hspan : Plain.HasSpan f c.interval)
    (now : WallTime) :
    anchored start c (.single r) (Moment.universal now) = .ok (.single r) ∨
      ∃ anchor given, anchor.clock = start.clock ∧
        Plain.IsAnchor start.wall f c.interval weekStart now anchor.wall ∧
        anchored start c (.single r) (Moment.universal now) =
          .ok (.single (r.movedTo anchor given)) := by
  obtain ⟨elapsed, helapsed, -⟩ := Plain.elapsedPeriods_spec start.wall h.interval_pos hspan now
  have helapsed' : Plain.elapsedPeriods start c f (Moment.universal now) = .ok elapsed := by
    rw [Plain.elapsedPeriods_onClock hutc]
    exact helapsed
  unfold anchored
  rw [h.count_eq, h.freq_eq]
  dsimp only
  rw [helapsed']
  by_cases hindex : (elapsed - 1).toNat = 0
  · left
    show (if (elapsed - 1).toNat = 0 then _ else _) = _
    rw [if_pos hindex]
    rfl
  · right
    obtain ⟨anchor, hoccurrence, hanchor⟩ := Plain.anchor_spec h.weekStart_lt h.freq_eq
      h.interval_pos hwhole helapsed hindex
    have hoccurrence' : Plain.occurrence start c (elapsed - 1).toNat =
        .ok ⟨anchor, start.clock, false⟩ := by
      rw [Plain.occurrence_onClock hutc h.freq_eq, hoccurrence]
      rfl
    obtain ⟨given, hmoved⟩ := h.reanchor hwhole
      (show (⟨anchor, start.clock, false⟩ : Moment).wall.ticks % Span.second = 0 from
        hanchor.wholeSecond)
      hanchor.hour hanchor.minute
    refine ⟨⟨anchor, start.clock, false⟩, given, rfl, hanchor, ?_⟩
    show (if (elapsed - 1).toNat = 0 then _ else _) = _
    rw [if_neg hindex, hoccurrence']
    show Rules.single <$> r.reanchor ⟨anchor, start.clock, false⟩ (pin start c) = _
    rw [hmoved]
    rfl

/-- What the walk from the start finds is what the walk from the anchor finds, unless the rule at
the anchor stumbles. -/
theorem search_anchor_iff (h : Component.Completes c start f weekStart r) (hutc : start.clock.IsUtc)
    (hwhole : start.wall.ticks % Span.second = 0) {now : WallTime} {anchor : Moment}
    {given : Parts} (hclock : anchor.clock = start.clock)
    (hanchor : Plain.IsAnchor start.wall f c.interval weekStart now anchor.wall)
    {excluded : List Moment} {k : Nat} {s : Option Moment}
    (hwalk : search RuleSet.step (Moment.universal now) stepLimit (.after k)
      (RuleSet.ofRules [r] [] excluded) = .ok s) :
    orNone (search RuleSet.step (Moment.universal now) stepLimit (.after k)
      (RuleSet.ofRules [r.movedTo anchor given] [] excluded)) = .ok s ↔
        ¬ (r.movedTo anchor given).Stumbles (Moment.universal now) := by
  obtain ⟨hcomplete, hcount, hfreq, hinterval, hweek, -, hranchor⟩ := h.rule_spec
  have hwall : r.anchor.wall = start.wall := by
    rw [hranchor]
    exact Rule.wholeSecond_eq hwhole
  have hrclock : r.anchor.clock = start.clock := by rw [hranchor]
  have hnow := Period.ofTime_spans f h.weekStart_lt now
  have hfirst : r.number r.firstPeriod = (Period.ofTime f start.wall).number weekStart := by
    unfold Rule.number
    rw [Rule.firstPeriod_eq, hfreq, hwall, hweek]
  obtain ⟨index, hindex, hnumber⟩ := hanchor.number_eq
  -- the anchor's period is over at the moment
  have hover := hanchor.isOver
  have hend : f.startOf weekStart ((Period.ofTime f anchor.wall).number weekStart + 1) ≤ now.ticks :=
    (f.startOf_mono weekStart ((Period.ofTime_fits f anchor.wall).firstNumber_le.trans
      (Nat.le_succ _)) hover).trans hnow.start_le
  refine Rule.search_movedTo_iff hcomplete hcount (hclock.trans hrclock.symm) ?_ hwalk
  refine Rule.rejoins_of_over hcomplete (n := (Period.ofTime f anchor.wall).number weekStart)
    ?_ ?_ ?_ ?_ ?_
  · rw [hfreq, hweek]
  · rw [hfirst, hnumber]
    exact Nat.lt_add_of_pos_right (Nat.mul_pos hindex h.interval_pos)
  · rw [hfirst, hnumber, hinterval, Nat.add_mul_mod_self_right]
  · rw [hfreq, hweek]
    exact hend.trans now.inCalendar.le
  · intro t m hm hspans hbefore
    rw [hfreq, hweek] at hspans
    have hlt : t.ticks < now.ticks := hspans.lt_of_lt hnow (lt_of_le_of_lt hm hover)
    rw [Moment.before_utc (a := Moment.universal now) trivial (h.isUtc_moment hutc t),
      decide_eq_true_eq] at hbefore
    exact absurd hlt (not_lt.mpr hbefore.le)

/-- The `k`-th further date after a moment that a walk from the start of the schedule finds. -/
def walkNth (d : Descriptor) (rules : Rules) (now : Moment) (k : Nat) :
    Except Fault (Option Moment) :=
  search RuleSet.step now stepLimit (.after k) (walk rules d.excluded)

/-- The further dates of a rule are those that a walk through the moved rule finds. -/
theorem expandedNth_of_anchored {d : Descriptor} {rules moved : Rules} {now : Moment}
    (h : anchored d.start c rules now = .ok moved) (k : Nat) :
    expandedNth d c rules now k = walkNth d moved now k := by
  unfold expandedNth
  rw [h]
  rfl

/-- A rule of which a walk finds the dates does not stumble. -/
theorem walkNth_iff (hr : r.IsComplete) (hcount : r.count = none) {d : Descriptor} {now : Moment}
    {k : Nat} {s : Option Moment} (hwalk : walkNth d (.single r) now k = .ok s) :
    orNone (walkNth d (.single r) now k) = .ok s ↔ ¬ r.Stumbles now := by
  have hanswer : orNone (walkNth d (.single r) now k) = .ok s := congrArg orNone hwalk
  exact iff_of_true hanswer fun hstumbles =>
    Rule.search_of_stumbles hr hcount hstumbles d.excluded k s hanswer

/-- Fast-forwarding a rule in universal time. If walking the rule from the start of the schedule
gives an answer, then the rule as it is moved near the moment gives the same answer, exactly if
the moved rule does not break off before any date after the moment or after the last moment. -/
theorem expandedNth_eq_walkNth_iff {text : Text} {zoneName : Option Text} {d : Descriptor}
    (hparse : (Descriptor.parse text zoneName).run.value = .ok d) (hutc : d.start.clock.IsUtc)
    {value : Text} {all : List (Text × Text)} (hall : Component.parts value = .ok all)
    (hspec : Component.IsSpecified all)
    (hc : Component.parse value d.start (Descriptor.clockOf d.zone) = .ok c)
    (hspan : ∀ f, c.freq = some f → Plain.HasSpan f c.interval)
    {rules : Rules} (hrules : c.rules = some rules) (now : WallTime) (k : Nat) {s : Option Moment}
    (hwalk : walkNth d rules (Moment.universal now) k = .ok s) :
    orNone (expandedNth d c rules (Moment.universal now) k) = .ok s ↔
      ¬ ∃ r', anchored d.start c rules (Moment.universal now) = .ok (.single r') ∧
        r'.Stumbles (Moment.universal now) := by
  have hwhole := Descriptor.start_wholeSecond hparse
  obtain ⟨f, weekStart, r, hcompletes, hsingle, -⟩ :=
    Component.completes_of_isSpecified hall hspec hc
  obtain rfl : rules = .single r := Option.some.inj (hrules.symm.trans hsingle)
  have hspan := hspan f hcompletes.freq_eq
  obtain ⟨hcomplete, hcount, -⟩ := hcompletes.rule_spec
  -- the moved rule is the only one that may stumble
  have hsuffices : ∀ moved, anchored d.start c (.single r) (Moment.universal now) = .ok (.single moved) →
      (orNone (walkNth d (.single moved) (Moment.universal now) k) = .ok s ↔
        ¬ moved.Stumbles (Moment.universal now)) →
      (orNone (expandedNth d c (.single r) (Moment.universal now) k) = .ok s ↔
        ¬ ∃ r', anchored d.start c (.single r) (Moment.universal now) = .ok (.single r') ∧
          r'.Stumbles (Moment.universal now)) := by
    intro moved hmoved hiff
    rw [expandedNth_of_anchored hmoved, hiff, hmoved]
    constructor
    · rintro hnot ⟨r', hr', hstumbles⟩
      cases hr'
      exact hnot hstumbles
    · intro hnot hstumbles
      exact hnot ⟨_, rfl, hstumbles⟩
  rcases anchored_spec hcompletes hutc hwhole hspan now with
    hsame | ⟨anchor, given, hclock, hanchor, hmoved⟩
  · exact hsuffices r hsame (walkNth_iff hcomplete hcount hwalk)
  · exact hsuffices _ hmoved (search_anchor_iff hcompletes hutc hwhole hclock hanchor hwalk)

/-- A daily rule from the first of January 2024 on, four days later. -/
theorem expandedNth_eq_walkNth_of_daily_rule : ∃ d c rules now s,
    (Descriptor.parse "DTSTART:20240101T000000Z\nRRULE:FREQ=DAILY;BYHOUR=9".toList none).run.value =
      .ok d ∧ d.components = [c] ∧ c.rules = some rules ∧
    WallTime.ofFields? ⟨2024, 1, 5⟩ 0 0 0 0 = some now ∧
    walkNth d rules (Moment.universal now) 0 = .ok s ∧
    (orNone (expandedNth d c rules (Moment.universal now) 0) = .ok s ↔
      ¬ ∃ r', anchored d.start c rules (Moment.universal now) = .ok (.single r') ∧
        r'.Stumbles (Moment.universal now)) := by
  obtain ⟨d, c, rules, now, hd, hclock, hcomponents, hc, hfreq, hinterval, hrules, hnow, hwalk⟩ :
      ∃ d c rules now,
        (Descriptor.parse "DTSTART:20240101T000000Z\nRRULE:FREQ=DAILY;BYHOUR=9".toList
          none).run.value = .ok d ∧ d.start.clock = .universal ∧ d.components = [c] ∧
        Component.parse "FREQ=DAILY;BYHOUR=9".toList d.start (Descriptor.clockOf d.zone) = .ok c ∧
        c.freq = some .daily ∧ c.interval = 1 ∧ c.rules = some rules ∧
        WallTime.ofFields? ⟨2024, 1, 5⟩ 0 0 0 0 = some now ∧
        (walkNth d rules (Moment.universal now) 0).toOption.isSome = true :=
    ⟨_, _, _, _, rfl, rfl, rfl, rfl, rfl, rfl, rfl, rfl, by decide +kernel⟩
  obtain ⟨s, hs⟩ := Option.isSome_iff_exists.mp hwalk
  have hwalk := ok_of_toOption hs
  have hvalues : ([("FREQ".toList, "DAILY".toList), ("BYHOUR".toList, ['9'])] : List (Text × Text)).all
      (fun p => p.2.all fun c => !Text.isBlank c && c != ':') = true := by decide
  refine ⟨d, c, rules, now, s, hd, hcomponents, hrules, hnow, hwalk,
    expandedNth_eq_walkNth_iff hd (by rw [hclock]; trivial)
      (show Component.parts "FREQ=DAILY;BYHOUR=9".toList =
        .ok [("FREQ".toList, "DAILY".toList), ("BYHOUR".toList, ['9'])] from rfl)
      ⟨by decide, fun p hp c hc => by
        simpa using List.all_eq_true.mp (List.all_eq_true.mp hvalues p hp) c hc, fun v ds hv => ?_⟩
      hc (fun f hf => ?_) hrules now 0 hwalk⟩
  · cases hv
  · rw [hfreq] at hf
    cases hf
    rw [hinterval]
    exact rfl

/-- A monthly rule that has ended does not answer at its anchor: the fiftieth Monday of May is
beyond the days that are laid out for its year, and no date comes before. -/
theorem expandedNth_ne_walkNth_of_ended_rule : ∃ d c rules now,
    (Descriptor.parse
      "DTSTART:20180101T000000Z\nRRULE:FREQ=MONTHLY;BYDAY=1MO,50MO;UNTIL=20180110T000000Z".toList
      none).run.value = .ok d ∧ d.start.clock = .universal ∧ d.components = [c] ∧
    c.rules = some rules ∧ WallTime.ofFields? ⟨2018, 6, 15⟩ 0 0 0 0 = some now ∧
    walkNth d rules (Moment.universal now) 0 = .ok none ∧
    orNone (expandedNth d c rules (Moment.universal now) 0) ≠ .ok none := by
  obtain ⟨d, c, rules, now, hd, hclock, hcomponents, hrules, hnow, hwalk, hexpanded⟩ :
      ∃ d c rules now,
        (Descriptor.parse
          "DTSTART:20180101T000000Z\nRRULE:FREQ=MONTHLY;BYDAY=1MO,50MO;UNTIL=20180110T000000Z".toList
          none).run.value = .ok d ∧ d.start.clock = .universal ∧ d.components = [c] ∧
        c.rules = some rules ∧ WallTime.ofFields? ⟨2018, 6, 15⟩ 0 0 0 0 = some now ∧
        (walkNth d rules (Moment.universal now) 0).toOption.any Option.isNone = true ∧
        (orNone (expandedNth d c rules (Moment.universal now) 0)).toOption.isNone = true :=
    ⟨_, _, _, _, rfl, rfl, rfl, rfl, rfl, by decide +kernel, by decide +kernel⟩
  refine ⟨d, c, rules, now, hd, hclock, hcomponents, hrules, hnow, ?_, fun hok => ?_⟩
  · exact ok_none_of_any hwalk
  · rw [hok] at hexpanded
    cases hexpanded

end Source

end ScanPolicy
