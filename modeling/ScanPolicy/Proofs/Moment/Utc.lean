import Mathlib.Order.Basic
import ScanPolicy.Schedule.Plain
import ScanPolicy.Proofs.Moment.Universal

/-!
# Clocks that show universal time

The zone of universal time has its own clock, which is not the universal clock but always
shows the same. Moments on both are ordered by their wall times, and the numbered dates of
a plain rule do not depend on which of them it starts on.

- `Clock.IsUtc`: clocks that show universal time.
- `Moment.before_later`: the order of moments on such a clock.
- `Plain.occurrence_onClock`, `Plain.elapsedPeriods_onClock`: plain rules.
-/

namespace ScanPolicy

/-- Whether a zone has universal time at all times. -/
def Zone.IsUtc (z : Zone) : Prop := z.initial = 0 ∧ z.transitions = [] ∧ z.footer = .steady 0

/-- Whether a clock shows universal time. -/
def Clock.IsUtc : Clock → Prop
  | .universal => True
  | .zoned z => z.IsUtc

namespace Zone

variable {z : Zone}

theorem IsUtc.offsetAt (h : z.IsUtc) (t : WallTime) (fold : Bool) : z.offsetAt t fold = 0 := by
  obtain ⟨-, htransitions, hfooter⟩ := h
  unfold Zone.offsetAt
  rw [htransitions, hfooter]
  rfl

theorem IsUtc.ofUniversal (h : z.IsUtc) (t : WallTime) : z.ofUniversal t = (0, false) := by
  obtain ⟨-, htransitions, hfooter⟩ := h
  unfold Zone.ofUniversal
  rw [htransitions, hfooter]
  rfl

end Zone

namespace Moment

/-- The moment with its wall time read on another clock. -/
def onClock (clock : Clock) (m : Moment) : Moment := ⟨m.wall, clock, false⟩

variable {clock : Clock}

theorem offsetWith_utc {m : Moment} (h : m.clock.IsUtc) (fold : Bool) : m.offsetWith fold = 0 := by
  unfold offsetWith
  split
  · rfl
  · next z hz =>
    rw [hz] at h
    exact h.offsetAt _ _

theorem instant_utc {m : Moment} (h : m.clock.IsUtc) : m.instant = m.wall.ticks := by
  unfold instant offset
  rw [offsetWith_utc h]
  omega

/-- Between clocks that show universal time the wall times tell the span. -/
theorem since_utc {a b : Moment} (ha : a.clock.IsUtc) (hb : b.clock.IsUtc) :
    a.since b = a.wall.ticks - b.wall.ticks := by
  unfold since
  split
  · rfl
  · rw [instant_utc ha, instant_utc hb]

theorem before_utc {a b : Moment} (ha : a.clock.IsUtc) (hb : b.clock.IsUtc) :
    a.before b = decide (a.wall.ticks < b.wall.ticks) := by
  unfold before
  rw [since_utc ha hb]
  exact decide_eq_decide.mpr (by omega)

/-- What is before a moment of universal time is before the later ones. -/
theorem before_later (h : clock.IsUtc) {e : Moment} {a b : WallTime} (hab : a.ticks < b.ticks)
    (hbefore : e.before ⟨a, clock, false⟩) : e.before ⟨b, clock, false⟩ := by
  have hinstant : ∀ t : WallTime, (⟨t, clock, false⟩ : Moment).instant = t.ticks :=
    fun t => instant_utc (m := ⟨t, clock, false⟩) h
  unfold before since at hbefore ⊢
  rw [hinstant] at hbefore ⊢
  by_cases hsame : e.clock.same clock = true
  · rw [if_pos hsame] at hbefore ⊢
    simp only [decide_eq_true_eq] at hbefore ⊢
    omega
  · rw [if_neg hsame] at hbefore ⊢
    simp only [decide_eq_true_eq] at hbefore ⊢
    omega

/-- A wall time of the universal clock is read on such a clock as it stands. -/
theorem on?_utc (h : clock.IsUtc) (t : WallTime) :
    (universal t).on? clock = some ⟨t, clock, false⟩ := by
  cases clock with
  | universal => rfl
  | zoned z =>
    have hinstant : (universal t).instant = t.ticks := instant_utc (m := universal t) trivial
    have hadd : t.add? (0 * Span.second) = some t := by
      unfold WallTime.add?
      rw [Int.zero_mul, Int.add_zero, WallTime.ofTicks?_ticks]
    have hread : ofUniversal? (.zoned z) t = some ⟨t, .zoned z, false⟩ := by
      unfold ofUniversal?
      dsimp only
      rw [Zone.IsUtc.ofUniversal h]
      dsimp only
      rw [hadd]
      rfl
    show (WallTime.ofTicks? (universal t).instant).bind (ofUniversal? (.zoned z)) = _
    rw [hinstant, WallTime.ofTicks?_ticks]
    exact hread

theorem universal?_utc {m : Moment} (h : m.clock.IsUtc) :
    ∃ fold, m.universal? = some ⟨m.wall, .universal, fold⟩ := by
  obtain ⟨t, clock, fold⟩ := m
  cases clock with
  | universal => exact ⟨fold, rfl⟩
  | zoned z =>
    refine ⟨false, ?_⟩
    show (WallTime.ofTicks? (⟨t, .zoned z, fold⟩ : Moment).instant).bind (ofUniversal? .universal) = _
    rw [instant_utc h, WallTime.ofTicks?_ticks]
    rfl

end Moment

namespace Plain

theorem within_onClock (clock : Clock) (o : Option WallTime) :
    within (o.map (⟨·, clock, false⟩)) =
      (within (o.map Moment.universal)).map (Moment.onClock clock) := by
  cases o <;> rfl

theorem addMonths_onClock (start : Moment) (count : Nat) :
    addMonths start count =
      (addMonths (Moment.universal start.wall) count).map (Moment.onClock start.clock) := by
  unfold addMonths
  dsimp only [Moment.wall_universal]
  by_cases hyear : Calendar.lastYear <
      (12 * start.wall.date.year + (start.wall.date.month - 1) + count) / 12
  · rw [if_pos hyear, if_pos hyear]
    split <;> rfl
  · rw [if_neg hyear, if_neg hyear]
    exact within_onClock start.clock _

variable {start : Moment}

/-- The way through universal time is the way on the wall. -/
theorem throughUniversal (h : start.clock.IsUtc) (span? : Option Int) : (do
    let from_ ← start.universal?
    let span ← span?
    let t ← from_.add? span
    t.on? start.clock) = (span?.bind start.wall.add?).map (⟨·, start.clock, false⟩) := by
  obtain ⟨fold, huniversal⟩ := Moment.universal?_utc h
  rw [huniversal]
  cases span? with
  | none => rfl
  | some span =>
    show ((start.wall.add? span).map Moment.universal).bind (·.on? start.clock) =
      (start.wall.add? span).map (⟨·, start.clock, false⟩)
    cases start.wall.add? span with
    | none => rfl
    | some t => exact Moment.on?_utc h t

/-- Days and longer periods are counted on the wall, whatever the clock. -/
theorem occurrence_onWall {c : Component} {f : Frequency} (hf : c.freq = some f)
    (hunit : ∀ unit, f.unit ≠ .absolute unit) (index : Nat) :
    occurrence start c index =
      (occurrence (Moment.universal start.wall) c index).map (Moment.onClock start.clock) := by
  unfold occurrence
  rw [hf]
  dsimp only
  cases h : f.unit with
  | absolute unit => exact absurd h (hunit unit)
  | wall unit =>
    dsimp only
    have hadd : ∀ m : Moment, (Span.times? (index * c.interval : Nat) unit).bind m.add? =
        ((Span.times? (index * c.interval : Nat) unit).bind m.wall.add?).map (⟨·, m.clock, false⟩) := by
      intro m
      cases Span.times? (index * c.interval : Nat) unit <;> rfl
    rw [hadd, hadd (Moment.universal start.wall)]
    exact within_onClock start.clock _
  | months unit => exact addMonths_onClock start _

/-- The occurrence with a number is the one of the rule that starts on the universal clock. -/
theorem occurrence_onClock (h : start.clock.IsUtc) {c : Component} {f : Frequency}
    (hf : c.freq = some f) (index : Nat) :
    occurrence start c index =
      (occurrence (Moment.universal start.wall) c index).map (Moment.onClock start.clock) := by
  by_cases hunit : ∃ unit, f.unit = .absolute unit
  · obtain ⟨unit, hunit⟩ := hunit
    unfold occurrence
    rw [hf]
    dsimp only
    rw [hunit]
    dsimp only
    rw [throughUniversal h, throughUniversal (show (Moment.universal start.wall).clock.IsUtc from trivial)]
    exact within_onClock start.clock _
  · exact occurrence_onWall hf (not_exists.mp hunit) index

/-- So is the estimate of the passed periods. -/
theorem elapsedPeriods_onClock (h : start.clock.IsUtc) (c : Component) (f : Frequency)
    (now : WallTime) :
    elapsedPeriods start c f (Moment.universal now) =
      elapsedPeriods (Moment.universal start.wall) c f (Moment.universal now) := by
  have hon := Moment.on?_utc h now
  have hsince : (Moment.universal now).since start = now.ticks - start.wall.ticks :=
    Moment.since_utc (a := Moment.universal now) trivial h
  unfold elapsedPeriods
  cases f.unit with
  | absolute unit =>
    dsimp only
    rw [hsince]
    rfl
  | wall unit =>
    dsimp only
    rw [hon]
    rfl
  | months unit =>
    dsimp only
    rw [hon]
    rfl

end Plain

end ScanPolicy
