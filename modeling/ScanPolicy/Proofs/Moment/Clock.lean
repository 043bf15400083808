import Mathlib.Tactic.Common
import ScanPolicy.Proofs.Moment.Universal

/-!
# Moments on any clock

Two moments of one clock are ordered by what the clock shows, which need not be the
order of their instants: a clock that is set back shows an hour twice, and one that
is set forward leaves an hour out. As soon as one of two moments is on the universal
clock, they are ordered by their instants.

- `Moment.before_eq`, `Moment.notAfter_eq`: the order against the universal clock.
- `Moment.universal?_spec`: the moment on the universal clock.
- `Clock.reading`: what a clock means by a wall time that it shows.
- `Clock.IsDayOrdered`, `Clock.SeparatesDays`: wall times a day apart are in the order
  of their instants.
- `Clock.ShowsInOrder`: the fold tells what is shown for the first time.
- `Clock.KeepsInstants`, `Clock.Shows`, `Clock.IsUnbroken`: conversions from universal time.
- `Moment.IsShownFirst`: a moment that its clock shows for the first time.
- `Moment.before_iff`, `Moment.instants_increasing`: the order of such moments is that of their
  instants.
-/

namespace ScanPolicy

namespace Clock

theorem same_self (clock : Clock) : clock.same clock = true := by
  cases clock <;> simp [same]

theorem same_comm (a b : Clock) : a.same b = b.same a := by
  cases a with
  | universal => cases b <;> rfl
  | zoned z =>
    cases b with
    | universal => rfl
    | zoned z' => exact Bool.beq_comm

theorem eq_universal_of_same {clock : Clock} (h : clock.same .universal = true) :
    clock = .universal := by
  cases clock with
  | universal => rfl
  | zoned z => cases h

end Clock

namespace Moment

theorem same_comm (a b : Moment) : a.same b = b.same a := by
  unfold same
  rw [Clock.same_comm, Bool.beq_comm (a := a.wall.ticks), Bool.beq_comm (a := a.instant), Bool.and_assoc,
    Bool.and_assoc, Bool.and_comm (!a.isProblematic)]

theorem isUniversal_of_same {m : Moment} (h : (m.clock.same .universal && !m.fold) = true) :
    m.IsUniversal := by
  rw [Bool.and_eq_true, Bool.not_eq_true'] at h
  exact isUniversal_iff.mpr ⟨Clock.eq_universal_of_same h.1, h.2⟩

/-! ## Order against the universal clock -/

theorem instant_of_universal {m : Moment} (h : m.clock = .universal) : m.instant = m.wall.ticks := by
  unfold instant offset offsetWith
  rw [h]
  dsimp only
  omega

theorem isProblematic_of_universal {m : Moment} (h : m.clock = .universal) :
    m.isProblematic = false := by
  unfold isProblematic offsetWith
  rw [h]
  rfl

@[simp] theorem instant_universal (t : WallTime) : (universal t).instant = t.ticks :=
  instant_of_universal rfl

/-- Between moments of which one is on the universal clock the instants tell the span. -/
theorem since_eq {a b : Moment} (h : a.clock = .universal ∨ b.clock = .universal) :
    a.since b = a.instant - b.instant := by
  unfold since
  split
  · next hsame =>
    have hboth : a.clock = .universal ∧ b.clock = .universal := by
      rcases h with h | h
      · rw [h] at hsame
        refine ⟨h, ?_⟩
        cases hb : b.clock with
        | universal => rfl
        | zoned z =>
          rw [hb] at hsame
          cases hsame
      · rw [h] at hsame
        exact ⟨Clock.eq_universal_of_same hsame, h⟩
    rw [instant_of_universal hboth.1, instant_of_universal hboth.2]
  · rfl

theorem before_eq {a b : Moment} (h : a.clock = .universal ∨ b.clock = .universal) :
    a.before b = decide (a.instant < b.instant) := by
  unfold before
  rw [since_eq h]
  exact decide_eq_decide.mpr (by omega)

theorem notAfter_eq {a b : Moment} (h : a.clock = .universal ∨ b.clock = .universal) :
    a.notAfter b = decide (a.instant ≤ b.instant) := by
  unfold notAfter
  rw [since_eq h]
  exact decide_eq_decide.mpr (by omega)

/-! ## Conversions -/

/-- The moment on the universal clock is there if the calendar has its instant. -/
theorem universal?_spec (m : Moment) :
    (∃ r, m.universal? = some r ∧ r.clock = .universal ∧ r.wall.ticks = m.instant) ∨
      m.universal? = none ∧ WallTime.ofTicks? m.instant = none := by
  unfold universal? on?
  split
  · next hsame =>
    have hclock := Clock.eq_universal_of_same hsame
    exact .inl ⟨m, rfl, hclock, (instant_of_universal hclock).symm⟩
  · cases ht : WallTime.ofTicks? m.instant with
    | none => exact .inr ⟨rfl, rfl⟩
    | some t => exact .inl ⟨universal t, rfl, rfl, WallTime.ticks_of_ofTicks? ht⟩

/-- The instant stays the same on the universal clock. -/
theorem instant_of_universal? {m r : Moment} (h : m.universal? = some r) :
    r.clock = .universal ∧ r.instant = m.instant := by
  rcases m.universal?_spec with ⟨r', hr', hclock, hticks⟩ | ⟨hnone, -⟩
  · rw [h] at hr'
    cases hr'
    exact ⟨hclock, (instant_of_universal hclock).trans hticks⟩
  · rw [h] at hnone
    cases hnone

/-- Whether a moment is on a clock; the universal clock shows nothing twice. -/
structure IsOn (clock : Clock) (m : Moment) : Prop where
  clock_eq : m.clock = clock
  fold_eq : clock = .universal → m.fold = false

/-- A moment on a clock is found on the universal clock at its instant. -/
theorem universal?_of_instant {clock : Clock} {m : Moment} (h : IsOn clock m) {t : WallTime}
    (ht : m.instant = t.ticks) : m.universal? = some (universal t) := by
  unfold universal? on?
  split
  · next hsame =>
    have hclock := Clock.eq_universal_of_same hsame
    have hfold := h.fold_eq (h.clock_eq.symm.trans hclock)
    have hwall : m.wall = t := WallTime.ext ((instant_of_universal hclock).symm.trans ht)
    obtain ⟨wall, clock, fold⟩ := m
    subst hclock hfold hwall
    rfl
  · rw [ht, WallTime.ofTicks?_ticks]
    rfl

theorem on?_universal (t : WallTime) (clock : Clock) :
    (universal t).on? clock = ofUniversal? clock t := by
  cases clock with
  | universal => rfl
  | zoned z =>
    show (WallTime.ofTicks? (universal t).instant).bind (ofUniversal? (.zoned z)) = _
    rw [instant_universal, WallTime.ofTicks?_ticks]
    rfl

/-- What a clock shows at a universal time is on that clock. -/
theorem isOn_of_on? {clock : Clock} {t : WallTime} {m : Moment}
    (h : (universal t).on? clock = some m) : IsOn clock m := by
  rw [on?_universal] at h
  unfold ofUniversal? at h
  cases clock with
  | universal =>
    cases h
    exact ⟨rfl, fun _ => rfl⟩
  | zoned z =>
    obtain ⟨w, -, rfl⟩ := Option.map_eq_some_iff.mp h
    exact ⟨rfl, fun h => by cases h⟩

end Moment

namespace Clock

/-! ## Readings -/

/-- What a clock means by a wall time that it shows: the first one of two times. -/
def reading (clock : Clock) (t : WallTime) : Moment := ⟨t, clock, false⟩

@[simp] theorem clock_reading (clock : Clock) (t : WallTime) : (clock.reading t).clock = clock := rfl

theorem isOn_reading (clock : Clock) (t : WallTime) : Moment.IsOn clock (clock.reading t) :=
  ⟨rfl, fun _ => rfl⟩

@[simp] theorem reading_universal (t : WallTime) : universal.reading t = Moment.universal t := rfl

/-- Wall times that are at least a day apart never stand for instants in reversed order. -/
def IsDayOrdered (clock : Clock) : Prop :=
  ∀ a b : WallTime, a.ticks + Span.day ≤ b.ticks → (clock.reading a).instant ≤ (clock.reading b).instant

/-- Wall times that are at least a day apart stand for instants in the same order. -/
def SeparatesDays (clock : Clock) : Prop :=
  ∀ a b : WallTime, a.ticks + Span.day ≤ b.ticks → (clock.reading a).instant < (clock.reading b).instant

theorem SeparatesDays.isDayOrdered {clock : Clock} (h : clock.SeparatesDays) : clock.IsDayOrdered :=
  fun a b hab => le_of_lt (h a b hab)

/-- What a clock shows at a universal time stands for that time. -/
def KeepsInstants (clock : Clock) : Prop :=
  ∀ t m, (Moment.universal t).on? clock = some m → m.instant = t.ticks

/-- What a clock shows for the first time is not before anything that it has shown. -/
def ShowsInOrder (clock : Clock) : Prop :=
  ∀ a b : WallTime, ∀ m n, (Moment.universal a).on? clock = some m →
    (Moment.universal b).on? clock = some n → a.ticks ≤ b.ticks → n.fold = false →
      m.wall.ticks ≤ n.wall.ticks

/-- Whether a clock shows a point of universal time within the calendar. -/
def Shows (clock : Clock) (t : Int) : Prop :=
  ∃ u : WallTime, u.ticks = t ∧ ((Moment.universal u).on? clock).isSome

/-- Between two times that a clock shows within the calendar it shows all. -/
def IsUnbroken (clock : Clock) : Prop :=
  ∀ a b c : Int, a ≤ b → b ≤ c → clock.Shows a → clock.Shows c → clock.Shows b

theorem separatesDays_universal : universal.SeparatesDays := by
  intro a b h
  rw [Span.day_eq] at h
  simp only [reading_universal, Moment.instant_universal]
  omega

theorem isDayOrdered_universal : universal.IsDayOrdered := separatesDays_universal.isDayOrdered

theorem keepsInstants_universal : universal.KeepsInstants := by
  intro t m h
  rw [Moment.on?_universal] at h
  cases h
  exact Moment.instant_universal t

/-- The universal clock shows the times of the calendar. -/
theorem shows_universal_iff {t : Int} : universal.Shows t ↔ ∃ u : WallTime, u.ticks = t := by
  constructor
  · rintro ⟨u, hu, -⟩
    exact ⟨u, hu⟩
  · rintro ⟨u, hu⟩
    exact ⟨u, hu, rfl⟩

theorem showsInOrder_universal : universal.ShowsInOrder := by
  intro a b m n hm hn hab _
  rw [Moment.on?_universal] at hm hn
  cases hm
  cases hn
  exact hab

theorem isUnbroken_universal : universal.IsUnbroken := by
  intro a b c hab hbc ha hc
  obtain ⟨a, rfl⟩ := shows_universal_iff.mp ha
  obtain ⟨c, rfl⟩ := shows_universal_iff.mp hc
  have hnonneg := a.nonneg
  have hend := c.inCalendar
  exact shows_universal_iff.mpr ⟨⟨b, by omega, by omega⟩, rfl⟩

end Clock

/-! ## Moments that are shown for the first time -/

namespace Moment

/-- Whether a clock shows a moment, and for the first time: it is not skipped, and if it is repeated
the first one is meant. -/
def IsShownFirst (m : Moment) : Prop :=
  m.fold = false ∧ ∃ t : WallTime, t.ticks = m.instant ∧ (universal t).on? m.clock = some m

theorem isShownFirst_universal (t : WallTime) : (universal t).IsShownFirst :=
  ⟨rfl, t, (instant_universal t).symm, rfl⟩

/-- What a clock shows for the first time it shows in the order of the instants. -/
theorem wall_lt_iff {m n : Moment} (hm : m.IsShownFirst) (hn : n.IsShownFirst)
    (hclock : n.clock = m.clock) (horder : m.clock.ShowsInOrder) :
    m.wall.ticks < n.wall.ticks ↔ m.instant < n.instant := by
  obtain ⟨hmfold, a, ha, hma⟩ := hm
  obtain ⟨hnfold, b, hb, hnb⟩ := hn
  rw [hclock] at hnb
  constructor
  · intro hlt
    by_contra hle
    exact absurd (horder b a n m hnb hma (by omega) hmfold) (not_le.mpr hlt)
  · intro hlt
    have hle := horder a b m n hma hnb (by omega) hnfold
    rcases Int.lt_or_eq_of_le hle with hwall | hwall
    · exact hwall
    · -- the same reading of the same clock would be the same moment
      have hsame : m = n := by
        obtain ⟨wall, clock, fold⟩ := m
        obtain ⟨wall', clock', fold'⟩ := n
        dsimp only at hclock hmfold hnfold hwall
        rw [hclock, hmfold, hnfold, WallTime.ext hwall]
      rw [hsame] at hlt
      exact absurd hlt (lt_irrefl _)

/-- Moments that their clocks show for the first time come one before the other as their instants
do. -/
theorem before_iff {m n : Moment} (hm : m.IsShownFirst) (hn : n.IsShownFirst)
    (hclock : m.clock.same n.clock → n.clock = m.clock) (horder : m.clock.ShowsInOrder) :
    m.before n = true ↔ m.instant < n.instant := by
  unfold before since
  rw [decide_eq_true_iff]
  split
  · next hsame =>
    rw [← wall_lt_iff hm hn (hclock hsame) horder]
    omega
  · omega

/-- Moments in the order of the wall of their clock are in the order of their instants if it shows them
for the first time. -/
theorem instants_increasing {clock : Clock} (horder : clock.ShowsInOrder) {ms : List Moment}
    (hsorted : ms.Pairwise fun a b => a.wall.ticks < b.wall.ticks)
    (hms : ∀ m ∈ ms, m.clock = clock ∧ m.IsShownFirst) :
    ms.Pairwise fun a b => a.instant < b.instant := by
  refine hsorted.imp_of_mem fun {a b} ha hb hlt => ?_
  obtain ⟨hclock, ha⟩ := hms a ha
  obtain ⟨hclock', hb⟩ := hms b hb
  exact (wall_lt_iff ha hb (hclock'.trans hclock.symm) (hclock.symm ▸ horder)).mp hlt

end Moment

end ScanPolicy
