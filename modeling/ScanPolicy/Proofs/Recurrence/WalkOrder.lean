import ScanPolicy.Proofs.Moment.Clock
import ScanPolicy.Proofs.Recurrence.RunDates
import ScanPolicy.Proofs.Recurrence.Search

/-!
# The order of the dates of a walk

A walk through several rules yields dates of one clock in the order of its wall, no wall
time twice. What carries this is the set of wall times that a walk may still reach: a step
does not make it larger, and what is left of it after a date is later than the date.

- `Walk.MayReach`, `Walk.IsSound`; `Walk.IsSound.silent`, `Walk.IsSound.emit`: one rule.
- `Lane.advanceFirst_spec`, `Lane.earliest_spec`: the next date of several rules.
- `RuleSet.IsSound`; `RuleSet.IsSound.silent`, `RuleSet.IsSound.emit`: several rules.
- `RuleSet.yielded_spec`: the dates of a walk.
-/

namespace ScanPolicy

namespace Moment

theorem before_of_clock {a b : Moment} (h : a.clock = b.clock) :
    a.before b = decide (a.wall.ticks < b.wall.ticks) := by
  unfold before since
  rw [if_pos (h ▸ Clock.same_self _)]
  exact decide_eq_decide.mpr (by omega)

theorem same_of_clock {a b : Moment} (h : a.clock = b.clock) :
    a.same b = decide (a.wall.ticks = b.wall.ticks) := by
  unfold same
  rw [if_pos (h ▸ Clock.same_self _)]
  rfl

end Moment

/-! ## One rule -/

namespace Walk

/-- Whether a walk may still reach a wall time. -/
def MayReach (w : Walk) (t : WallTime) : Prop :=
  match w.place with
  | .before p _ => ∃ n, w.rule.number p ≤ n ∧ w.rule.freq.Spans w.rule.weekStart n t.ticks
  | .within p _ left _ =>
    t ∈ left ∨ ∃ n, w.rule.number p < n ∧ w.rule.freq.Spans w.rule.weekStart n t.ticks
  | .over => False

/-- Whether the dates of a period that are left are in order and belong to the period. -/
structure HasLeft (r : Rule) (p : Period) (left : List WallTime) : Prop where
  fits : p.Fits r.freq
  sorted : left.Pairwise fun a b => a.ticks < b.ticks
  spans : ∀ t ∈ left, r.freq.Spans r.weekStart (r.number p) t.ticks

theorem HasLeft.tail {r : Rule} {p : Period} {t : WallTime} {rest : List WallTime}
    (h : HasLeft r p (t :: rest)) : HasLeft r p rest :=
  ⟨h.fits, h.sorted.of_cons, fun u hu => h.spans u (List.mem_cons_of_mem _ hu)⟩

/-- What is left after a date, and every later period, is later. -/
theorem HasLeft.lt {r : Rule} {p : Period} {t u : WallTime} {rest : List WallTime}
    (h : HasLeft r p (t :: rest))
    (hu : u ∈ rest ∨ ∃ n, r.number p < n ∧ r.freq.Spans r.weekStart n u.ticks) : t.ticks < u.ticks := by
  rcases hu with hu | ⟨n, hn, hspans⟩
  · exact (List.pairwise_cons.mp h.sorted).1 u hu
  · exact (h.spans t List.mem_cons_self).lt_of_lt hspans hn

/-- Whether a walk stands in a period of its rule. -/
def IsPlaced (r : Rule) : Place → Prop
  | .before p _ => p.Fits r.freq
  | .within p _ left _ => HasLeft r p left
  | .over => True

/-- A walk through a completed rule on a clock. -/
structure IsSound (clock : Clock) (w : Walk) : Prop where
  complete : w.rule.IsComplete
  clock_eq : w.rule.anchor.clock = clock
  placed : IsPlaced w.rule w.place

variable {clock : Clock} {w v : Walk}

theorem isSound_ofRule {r : Rule} (hr : r.IsComplete) (hclock : r.anchor.clock = clock) :
    IsSound clock (ofRule r) := by
  refine ⟨hr, hclock, ?_⟩
  show r.firstPeriod.Fits r.freq
  rw [Rule.firstPeriod_eq]
  exact Period.ofTime_fits _ _

/-- The layout of a period gives its dates. -/
theorem dates_of_layout {r : Rule} {p : Period} {isFirst : Bool} {f : YearFrame}
    {times : List TimeOfDay} (h : layout r p isFirst = .ok (f, times)) :
    r.dates p isFirst = .ok (r.datesIn f p times) := by
  unfold Rule.dates
  rw [h]
  rfl

/-- A silent step comes nearer to wall times that may be reached. -/
theorem IsSound.silent (hw : w.IsSound clock) (h : w.step = .ok (.silent v)) :
    v.IsSound clock ∧ ∀ t, v.MayReach t → w.MayReach t := by
  obtain ⟨rule, place, count⟩ := w
  obtain ⟨hcomplete, hclock, hplaced⟩ := hw
  dsimp only at hcomplete hclock hplaced
  unfold step at h
  split at h
  · cases h
  · next p isFirst hplace =>
    -- a period is laid out
    dsimp only at hplace
    subst hplace
    split at h
    · cases h
    · next f times hlayout =>
      cases h
      have hdates := Rule.dates_spec hcomplete hplaced (dates_of_layout hlayout)
      refine ⟨⟨hcomplete, hclock, hplaced, hdates.sorted, hdates.spans⟩, fun t ht => ?_⟩
      rcases ht with ht | ⟨n, hn, hspans⟩
      · exact ⟨_, le_rfl, hdates.spans t ht⟩
      · exact ⟨n, le_of_lt hn, hspans⟩
  · next p skips hplace =>
    -- nothing is left of a period, and the next one is turned to
    dsimp only at hplace
    subst hplace
    split at h
    · next q hnext =>
      cases h
      obtain ⟨hfits, -, -⟩ := Rule.nextPeriod_more hcomplete hplaced.fits hnext
      refine ⟨⟨hcomplete, hclock, hfits⟩, fun t ht => ?_⟩
      obtain ⟨n, hn, hspans⟩ := ht
      have hlt := Rule.number_lt_of_more hcomplete hplaced.fits hnext
      exact .inr ⟨n, lt_of_lt_of_le hlt hn, hspans⟩
    · cases h
    · cases h
  · cases h
  · next p skips t rest fault hplace =>
    dsimp only at hplace h
    subst hplace
    split at h
    · cases h
    split at h
    · -- a date before the anchor is passed over
      cases h
      refine ⟨⟨hcomplete, hclock, hplaced.tail⟩, fun u hu => ?_⟩
      exact hu.imp_left (List.mem_cons_of_mem _)
    · split at h <;> cases h

/-- A date that is yielded may be reached, and what may be reached after it is later. -/
theorem IsSound.emit {m : Moment} (hw : w.IsSound clock) (h : w.step = .ok (.emit m v)) :
    v.IsSound clock ∧ m = clock.reading m.wall ∧ w.MayReach m.wall ∧
      ∀ t, v.MayReach t → w.MayReach t ∧ m.wall.ticks < t.ticks := by
  obtain ⟨rule, place, count⟩ := w
  obtain ⟨hcomplete, hclock, hplaced⟩ := hw
  dsimp only at hcomplete hclock hplaced
  unfold step at h
  split at h
  · cases h
  · split at h <;> cases h
  · split at h <;> cases h
  · cases h
  · next p skips t rest fault hplace =>
    dsimp only at hplace h
    subst hplace
    split at h
    · cases h
    split at h
    · cases h
    -- with a count or without one, the date is the first one that is left
    split at h
    · cases h
      exact ⟨⟨hcomplete, hclock, hplaced.tail⟩, by rw [← hclock]; rfl, .inl List.mem_cons_self,
        fun u hu => ⟨hu.imp_left (List.mem_cons_of_mem _), hplaced.lt hu⟩⟩
    · cases h
    · cases h
      exact ⟨⟨hcomplete, hclock, hplaced.tail⟩, by rw [← hclock]; rfl, .inl List.mem_cons_self,
        fun u hu => ⟨hu.imp_left (List.mem_cons_of_mem _), hplaced.lt hu⟩⟩

end Walk

/-! ## The next date of several rules -/

namespace Lane

variable {clock : Clock}

/-- Whether a lane may still reach a wall time. -/
def MayReach : Lane → WallTime → Prop
  | waiting w, t => w.MayReach t
  | ready m w, t => t = m.wall ∨ w.MayReach t

/-- A lane of a rule on a clock; what comes after the next date is later. -/
def IsSound (clock : Clock) : Lane → Prop
  | waiting w => w.IsSound clock
  | ready m w => w.IsSound clock ∧ m = clock.reading m.wall ∧
      ∀ t, w.MayReach t → m.wall.ticks < t.ticks

theorem advance_spec {w : Walk} (hw : w.IsSound clock) {lanes : List Lane}
    (h : advance w = .ok lanes) :
    ∀ lane ∈ lanes, lane.IsSound clock ∧ ∀ t, lane.MayReach t → w.MayReach t := by
  unfold advance at h
  obtain ⟨o, ho, h⟩ := bind_eq_ok_iff.mp h
  cases o with
  | done =>
    cases h
    exact fun lane hlane => absurd hlane List.not_mem_nil
  | silent v =>
    cases h
    intro lane hlane
    rw [List.mem_singleton.mp hlane]
    exact hw.silent ho
  | emit m v =>
    cases h
    intro lane hlane
    rw [List.mem_singleton.mp hlane]
    obtain ⟨hv, hm, hreach, hlater⟩ := hw.emit ho
    refine ⟨⟨hv, hm, fun t ht => (hlater t ht).2⟩, fun t ht => ?_⟩
    rcases ht with rfl | ht
    · exact hreach
    · exact (hlater t ht).1

/-- If no lane does a step, the next dates of all are known; otherwise the lanes reach no more than
before. -/
theorem advanceFirst_spec {lanes : List Lane} (hlanes : ∀ lane ∈ lanes, lane.IsSound clock)
    {o : Option (List Lane)} (h : advanceFirst lanes = .ok o) :
    (o = none ∧ ∀ lane ∈ lanes, ∃ m w, lane = ready m w) ∨
      ∃ moved, o = some moved ∧ ∀ lane ∈ moved, lane.IsSound clock ∧
        ∃ origin ∈ lanes, ∀ t, lane.MayReach t → origin.MayReach t := by
  induction lanes generalizing o with
  | nil =>
    cases h
    exact .inl ⟨rfl, fun lane hlane => absurd hlane List.not_mem_nil⟩
  | cons lane rest ih =>
    have hrest : ∀ lane ∈ rest, lane.IsSound clock := fun l hl => hlanes l (List.mem_cons_of_mem _ hl)
    cases lane with
    | waiting w =>
      obtain ⟨moved, hmoved, h⟩ := bind_eq_ok_iff.mp h
      cases h
      refine .inr ⟨_, rfl, fun lane hlane => ?_⟩
      rcases List.mem_append.mp hlane with hlane | hlane
      · obtain ⟨hsound, hreach⟩ := advance_spec (hlanes _ List.mem_cons_self) hmoved lane hlane
        exact ⟨hsound, waiting w, List.mem_cons_self, hreach⟩
      · exact ⟨hrest lane hlane, lane, List.mem_cons_of_mem _ hlane, fun t ht => ht⟩
    | ready m w =>
      obtain ⟨o', ho', h⟩ := bind_eq_ok_iff.mp h
      rcases ih hrest ho' with ⟨rfl, hready⟩ | ⟨moved, rfl, hmoved⟩
      · cases h
        refine .inl ⟨rfl, fun lane hlane => ?_⟩
        rcases List.mem_cons.mp hlane with rfl | hlane
        · exact ⟨m, w, rfl⟩
        · exact hready lane hlane
      · cases h
        refine .inr ⟨_, rfl, fun lane hlane => ?_⟩
        rcases List.mem_cons.mp hlane with rfl | hlane
        · exact ⟨hlanes _ List.mem_cons_self, ready m w, List.mem_cons_self, fun t ht => ht⟩
        · obtain ⟨hsound, origin, horigin, hreach⟩ := hmoved lane hlane
          exact ⟨hsound, origin, List.mem_cons_of_mem _ horigin, hreach⟩

/-- Among lanes whose next dates are known there is an earliest one. -/
theorem eq_nil_of_earliest {lanes : List Lane} (hready : ∀ lane ∈ lanes, ∃ m w, lane = ready m w)
    (h : earliest lanes = none) : lanes = [] := by
  cases lanes with
  | nil => rfl
  | cons lane rest =>
    obtain ⟨m, w, rfl⟩ := hready lane List.mem_cons_self
    unfold earliest at h
    split at h
    · cases h
    · split at h <;> cases h

/-- The earliest one of the next dates of all lanes. -/
theorem earliest_spec {lanes others : List Lane} (hlanes : ∀ lane ∈ lanes, lane.IsSound clock)
    (hready : ∀ lane ∈ lanes, ∃ m w, lane = ready m w) {m : Moment} {w : Walk}
    (h : earliest lanes = some (m, w, others)) :
    ready m w ∈ lanes ∧ (∀ lane ∈ others, lane ∈ lanes) ∧
      ∀ n v, ready n v ∈ lanes → m.wall.ticks ≤ n.wall.ticks := by
  induction lanes generalizing m w others with
  | nil => cases h
  | cons lane rest ih =>
    obtain ⟨n, v, rfl⟩ := hready lane List.mem_cons_self
    have hsound := hlanes _ List.mem_cons_self
    have hlanes' : ∀ lane ∈ rest, lane.IsSound clock := fun l hl => hlanes l (List.mem_cons_of_mem _ hl)
    have hready' : ∀ lane ∈ rest, ∃ m w, lane = ready m w := fun l hl =>
      hready l (List.mem_cons_of_mem _ hl)
    unfold earliest at h
    split at h
    · next hnone =>
      cases h
      refine ⟨List.mem_cons_self, fun l hl => List.mem_cons_of_mem _ hl, fun n' v' hmem => ?_⟩
      rcases List.mem_cons.mp hmem with heq | hmem
      · cases heq
        exact le_rfl
      · rw [eq_nil_of_earliest hready' hnone] at hmem
        cases hmem
    · next n' v' others' hsome =>
      obtain ⟨hmem, hothers, hle⟩ := ih hlanes' hready' hsome
      have hclock : n'.clock = n.clock := by
        rw [(hlanes' _ hmem).2.1, hsound.2.1]
        rfl
      rw [Moment.before_of_clock hclock] at h
      split at h
      · next hbefore =>
        cases h
        refine ⟨List.mem_cons_of_mem _ hmem, fun l hl => ?_, fun a b hab => ?_⟩
        · rcases List.mem_cons.mp hl with rfl | hl
          · exact List.mem_cons_self
          · exact List.mem_cons_of_mem _ (hothers l hl)
        · rcases List.mem_cons.mp hab with heq | hab
          · cases heq
            exact le_of_lt (decide_eq_true_iff.mp hbefore)
          · exact hle a b hab
      · next hbefore =>
        cases h
        rw [decide_eq_true_iff, not_lt] at hbefore
        refine ⟨List.mem_cons_self, fun l hl => List.mem_cons_of_mem _ hl, fun a b hab => ?_⟩
        rcases List.mem_cons.mp hab with heq | hab
        · cases heq
          exact le_rfl
        · exact hbefore.trans (hle a b hab)

end Lane

/-! ## Several rules -/

namespace RuleSet

/-- A walk through rules on a clock; no lane goes back before the last date that was looked at. -/
structure IsSound (clock : Clock) (s : RuleSet) : Prop where
  lanes : ∀ lane ∈ s.lanes, lane.IsSound clock
  last : ∀ m ∈ s.last, m.clock = clock ∧ ∀ lane ∈ s.lanes, ∀ t, lane.MayReach t →
    m.wall.ticks ≤ t.ticks

/-- What a step can do: a lane of either kind moves, the walk is over, or the earliest date is
passed over, removed or yielded. -/
theorem step_cases {s : RuleSet} {o : Step RuleSet} (h : s.step = .ok o) :
    (∃ lanes, Lane.advanceFirst s.lanes = .ok (some lanes) ∧ o = .silent { s with lanes }) ∨
    (∃ excludedLanes, o = .silent { s with excludedLanes }) ∨ o = .done ∨
    ∃ date walk others, Lane.advanceFirst s.lanes = .ok none ∧
      Lane.earliest s.lanes = some (date, walk, others) ∧
      (o = .silent { s with lanes := .waiting walk :: others } ∨
        ¬ repeats s.last date ∧ ∃ excluded,
          o = .silent { s with lanes := .waiting walk :: others, excluded, last := some date } ∨
          o = .emit date { s with lanes := .waiting walk :: others, excluded, last := some date }) := by
  unfold step at h
  obtain ⟨first, hfirst, h⟩ := bind_eq_ok_iff.mp h
  cases first with
  | some lanes =>
    cases h
    exact .inl ⟨lanes, hfirst, rfl⟩
  | none =>
    refine .inr ?_
    obtain ⟨second, -, h⟩ := bind_eq_ok_iff.mp h
    cases second with
    | some lanes =>
      cases h
      exact .inl ⟨lanes, rfl⟩
    | none =>
      dsimp only at h
      split at h
      · cases h
        exact .inr (.inl rfl)
      · next date walk others hearliest =>
        split at h
        · cases h
          exact .inr (.inr ⟨date, walk, others, hfirst, hearliest, .inl rfl⟩)
        · next hnew =>
          split at h
          · split at h
            · cases h
              exact .inl ⟨_, rfl⟩
            · refine .inr (.inr ⟨date, walk, others, hfirst, hearliest,
                .inr ⟨hnew, s.excluded.dropWhile (·.before date), ?_⟩⟩)
              split at h
              · cases h
                exact .inl rfl
              · cases h
                exact .inr rfl
          · refine .inr (.inr ⟨date, walk, others, hfirst, hearliest,
              .inr ⟨hnew, s.excluded.dropWhile (·.before date), ?_⟩⟩)
            split at h
            · cases h
              exact .inl rfl
            · cases h
              exact .inr rfl

section

variable {clock : Clock} {s t : RuleSet} {date : Moment} {walk : Walk} {others : List Lane}

/-- Lanes that reach no more than before do not go back, either. -/
theorem IsSound.of_reach (hs : s.IsSound clock) {lanes : List Lane}
    (hlanes : ∀ lane ∈ lanes, lane.IsSound clock)
    (hreach : ∀ lane ∈ lanes, ∃ origin ∈ s.lanes, ∀ t, lane.MayReach t → origin.MayReach t) :
    IsSound clock { s with lanes } := by
  refine ⟨hlanes, fun m hm => ⟨(hs.last m hm).1, fun lane hlane t ht => ?_⟩⟩
  obtain ⟨origin, horigin, hreach⟩ := hreach lane hlane
  exact (hs.last m hm).2 origin horigin t (hreach t ht)

/-- After the earliest date the lanes do not go back before it. -/
theorem IsSound.pass (hs : s.IsSound clock) (hfirst : Lane.advanceFirst s.lanes = .ok none)
    (hearliest : Lane.earliest s.lanes = some (date, walk, others)) :
    date = clock.reading date.wall ∧ (∀ m ∈ s.last, m.wall.ticks ≤ date.wall.ticks) ∧
      ∀ lane ∈ Lane.waiting walk :: others, lane.IsSound clock ∧
        (∃ origin ∈ s.lanes, ∀ t, lane.MayReach t → origin.MayReach t) ∧
        ∀ t, lane.MayReach t → date.wall.ticks ≤ t.ticks := by
  obtain ⟨-, hready⟩ | ⟨_, hsome, -⟩ := Lane.advanceFirst_spec hs.lanes hfirst
  · obtain ⟨hmem, hothers, hle⟩ := Lane.earliest_spec hs.lanes hready hearliest
    obtain ⟨hwalk, hdate, hlater⟩ := hs.lanes _ hmem
    refine ⟨hdate, fun m hm => (hs.last m hm).2 _ hmem _ (.inl rfl), fun lane hlane => ?_⟩
    rcases List.mem_cons.mp hlane with rfl | hlane
    · exact ⟨hwalk, ⟨_, hmem, fun t ht => .inr ht⟩, fun t ht => le_of_lt (hlater t ht)⟩
    · have hlane := hothers lane hlane
      refine ⟨hs.lanes lane hlane, ⟨lane, hlane, fun t ht => ht⟩, fun t ht => ?_⟩
      obtain ⟨n, v, rfl⟩ := hready lane hlane
      have hn := hle n v hlane
      rcases ht with rfl | ht
      · exact hn
      · exact hn.trans (le_of_lt ((hs.lanes _ hlane).2.2 t ht))
  · cases hsome

/-- A date that is not a repetition is later than the last one. -/
theorem lt_of_not_repeats {m : Moment} (hlast : m ∈ s.last) (hclock : date.clock = m.clock)
    (hle : m.wall.ticks ≤ date.wall.ticks) (hnew : ¬ repeats s.last date) :
    m.wall.ticks < date.wall.ticks := by
  refine lt_of_le_of_ne hle fun heq => hnew ?_
  unfold repeats
  rw [Option.mem_def.mp hlast, Option.any_some, Moment.same_of_clock hclock.symm]
  exact decide_eq_true heq

/-- The state after the earliest date. -/
theorem IsSound.next (hs : s.IsSound clock) (hfirst : Lane.advanceFirst s.lanes = .ok none)
    (hearliest : Lane.earliest s.lanes = some (date, walk, others)) (excluded : List Moment) :
    IsSound clock { s with lanes := .waiting walk :: others, excluded, last := some date } := by
  obtain ⟨hdate, -, hpassed⟩ := hs.pass hfirst hearliest
  refine ⟨fun lane hlane => (hpassed lane hlane).1, fun m hm => ?_⟩
  obtain rfl := Option.some.inj hm
  exact ⟨by rw [hdate]; rfl, fun lane hlane => (hpassed lane hlane).2.2⟩

/-- A silent step keeps the last date or looks at a later one. -/
theorem IsSound.silent (hs : s.IsSound clock) (h : s.step = .ok (.silent t)) :
    t.IsSound clock ∧ ∀ m ∈ s.last, ∃ n ∈ t.last, m.wall.ticks ≤ n.wall.ticks := by
  have hsame : ∀ m ∈ s.last, ∃ n ∈ s.last, m.wall.ticks ≤ n.wall.ticks := fun m hm => ⟨m, hm, le_rfl⟩
  rcases step_cases h with ⟨lanes, hlanes, heq⟩ | ⟨excludedLanes, heq⟩ | heq |
    ⟨date, walk, others, hfirst, hearliest, heq⟩
  · cases heq
    obtain ⟨hnone, -⟩ | ⟨moved, hmoved, hspec⟩ := Lane.advanceFirst_spec hs.lanes hlanes
    · cases hnone
    · cases hmoved
      exact ⟨hs.of_reach (fun lane hlane => (hspec lane hlane).1)
        fun lane hlane => (hspec lane hlane).2, hsame⟩
  · cases heq
    exact ⟨⟨hs.lanes, hs.last⟩, hsame⟩
  · cases heq
  · obtain ⟨hdate, hle, hpassed⟩ := hs.pass hfirst hearliest
    rcases heq with heq | ⟨-, excluded, heq | heq⟩
    · cases heq
      exact ⟨hs.of_reach (fun lane hlane => (hpassed lane hlane).1)
        fun lane hlane => (hpassed lane hlane).2.1, hsame⟩
    · cases heq
      exact ⟨hs.next hfirst hearliest excluded, fun m hm => ⟨date, rfl, hle m hm⟩⟩
    · cases heq

/-- A date that is yielded is later than the last one that was looked at. -/
theorem IsSound.emit (hs : s.IsSound clock) (h : s.step = .ok (.emit date t)) :
    t.IsSound clock ∧ date = clock.reading date.wall ∧ date ∈ t.last ∧
      ∀ m ∈ s.last, m.wall.ticks < date.wall.ticks := by
  rcases step_cases h with ⟨lanes, -, heq⟩ | ⟨excludedLanes, heq⟩ | heq |
    ⟨date', walk, others, hfirst, hearliest, heq | ⟨hnew, excluded, heq | heq⟩⟩
  · cases heq
  · cases heq
  · cases heq
  · cases heq
  · cases heq
  · cases heq
    obtain ⟨hdate, hle, -⟩ := hs.pass hfirst hearliest
    refine ⟨hs.next hfirst hearliest excluded, hdate, rfl, fun m hm => ?_⟩
    refine lt_of_not_repeats hm ?_ (hle m hm) hnew
    rw [(hs.last m hm).1, hdate]
    rfl

/-- The dates that a walk yields are on the clock, after the last date that was looked at, and in
order without repetitions. -/
theorem yielded_spec (hs : s.IsSound clock) (fuel : Nat) :
    ((yielded step fuel s).Pairwise fun a b => a.wall.ticks < b.wall.ticks) ∧
      ∀ date ∈ yielded step fuel s, date = clock.reading date.wall ∧
        ∀ m ∈ s.last, m.wall.ticks < date.wall.ticks := by
  induction fuel generalizing s with
  | zero => exact ⟨List.Pairwise.nil, fun date hdate => absurd hdate List.not_mem_nil⟩
  | succ fuel ih =>
    unfold yielded
    split
    · exact ⟨List.Pairwise.nil, fun date hdate => absurd hdate List.not_mem_nil⟩
    · exact ⟨List.Pairwise.nil, fun date hdate => absurd hdate List.not_mem_nil⟩
    · next t hstep =>
      obtain ⟨ht, hlast⟩ := hs.silent hstep
      obtain ⟨hsorted, hspec⟩ := ih ht
      refine ⟨hsorted, fun date hdate => ⟨(hspec date hdate).1, fun m hm => ?_⟩⟩
      obtain ⟨n, hn, hle⟩ := hlast m hm
      exact lt_of_le_of_lt hle ((hspec date hdate).2 n hn)
    · next first t hstep =>
      obtain ⟨ht, hfirst, hmem, hlt⟩ := hs.emit hstep
      obtain ⟨hsorted, hspec⟩ := ih ht
      refine ⟨List.pairwise_cons.mpr ⟨fun date hdate => (hspec date hdate).2 first hmem, hsorted⟩, ?_⟩
      intro date hdate
      rcases List.mem_cons.mp hdate with rfl | hdate
      · exact ⟨hfirst, hlt⟩
      · exact ⟨(hspec date hdate).1, fun m hm => (hlt m hm).trans ((hspec date hdate).2 first hmem)⟩

end

/-- A walk through completed rules of one clock starts soundly. -/
theorem isSound_ofRules {clock : Clock} {rules : List Rule} (excludedRules : List Rule)
    (excluded : List Moment) (h : ∀ r ∈ rules, r.IsComplete ∧ r.anchor.clock = clock) :
    (ofRules rules excludedRules excluded).IsSound clock := by
  refine ⟨fun lane hlane => ?_, fun m hm => by cases hm⟩
  obtain ⟨r, hr, rfl⟩ := List.mem_map.mp hlane
  exact Walk.isSound_ofRule (h r hr).1 (h r hr).2

end RuleSet

end ScanPolicy
