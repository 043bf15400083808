import ScanPolicy.Proofs.Moment.Clock

/-!
# Moments that compare as their instants do

A moment on a clock of its own is compared by instants with everything else. On a common
clock the walls are compared, which is the same unless an offset change lies near.

- `Moment.ComparesOn`: a moment that compares with those of a clock as the instants do.
- `Moment.comparesOn_of_not_same`, `Moment.comparesOn_of_universal`,
  `Moment.comparesOn_of_steady`: moments of other clocks, of the universal clock and of clocks
  that are never changed.
- `Moment.Agrees`, `Moment.ComparesOn.agrees`: two moments that are also the same as their
  instants are.
-/

namespace ScanPolicy

namespace Moment

/-- Whether a moment comes before and after the moments of a clock as the instants do. -/
def ComparesOn (clock : Clock) (m : Moment) : Prop :=
  ∀ n : Moment, n.clock = clock →
    (m.before n = true ↔ m.instant < n.instant) ∧ (n.before m = true ↔ n.instant < m.instant)

theorem since_of_not_same {a b : Moment} (h : a.clock.same b.clock = false) :
    a.since b = a.instant - b.instant := by
  unfold since
  rw [if_neg (by rw [h]; exact Bool.false_ne_true)]

theorem since_swap (a b : Moment) : b.since a = -(a.since b) := by
  unfold since
  rw [Clock.same_comm b.clock a.clock]
  split <;> omega

/-- What is not after a moment is what it does not come before. -/
theorem notAfter_eq_not_before (a b : Moment) : a.notAfter b = !b.before a := by
  unfold notAfter before
  rw [since_swap a b, ← decide_not]
  exact decide_eq_decide.mpr (by omega)

variable {clock : Clock} {m n : Moment}

/-- Where the span between two moments is that of their instants, so is their order. -/
theorem comparesOn_of_since (h : ∀ n, n.clock = clock → m.since n = m.instant - n.instant) :
    m.ComparesOn clock := by
  intro n hn
  unfold before
  rw [since_swap m n, h n hn, decide_eq_true_iff, decide_eq_true_iff]
  omega

theorem comparesOn_of_not_same (h : m.clock.same clock = false) : m.ComparesOn clock :=
  comparesOn_of_since fun _ hn => since_of_not_same (hn ▸ h)

theorem comparesOn_of_universal (h : m.clock = .universal) : m.ComparesOn clock :=
  comparesOn_of_since fun _ _ => since_eq (.inl h)

/-- A clock that is never changed shows how its moments compare. -/
theorem comparesOn_of_steady {z : Zone} (offset : Int) (h : ∀ t fold, z.offsetAt t fold = offset)
    (hm : m.clock = .zoned z) : m.ComparesOn (.zoned z) := by
  refine comparesOn_of_since fun n hn => ?_
  unfold since instant Moment.offset offsetWith
  rw [hm, hn, if_pos (Clock.same_self _)]
  dsimp only
  rw [h, h]
  omega

theorem ComparesOn.notAfter_iff (h : m.ComparesOn clock) (hn : n.clock = clock) :
    n.notAfter m = true ↔ n.instant ≤ m.instant := by
  rw [notAfter_eq_not_before, Bool.not_eq_true', Bool.eq_false_iff, Ne, (h n hn).1]
  exact not_lt

/-- Of moments with one instant that compare with a clock by it, one comes before a moment of that
clock if the other one does. -/
theorem ComparesOn.before_congr {m' : Moment} (h : m.ComparesOn clock) (h' : m'.ComparesOn clock)
    (hinstant : m.instant = m'.instant) (hn : n.clock = clock) : m.before n = m'.before n := by
  rw [Bool.eq_iff_iff, (h n hn).1, (h' n hn).1, hinstant]

/-! ## Sameness -/

/-- Whether a moment is the same as another one, and comes before it, as their instants tell. -/
structure Agrees (a b : Moment) : Prop where
  before : a.before b = true ↔ a.instant < b.instant
  same : a.same b = true ↔ a.instant = b.instant

/-- Moments that are the same have one instant. -/
theorem instant_of_same (h : m.ComparesOn n.clock) (hsame : m.same n = true) :
    m.instant = n.instant := by
  unfold same at hsame
  split at hsame
  · next hclock =>
    -- on a common wall neither of them comes before the other one
    rw [beq_iff_eq] at hsame
    obtain ⟨hbefore, hafter⟩ := h n rfl
    have hneither : m.since n = 0 := by
      unfold since
      rw [if_pos hclock, hsame]
      omega
    unfold before at hbefore hafter
    rw [hneither, decide_eq_true_iff] at hbefore
    rw [since_swap m n, hneither, decide_eq_true_iff] at hafter
    omega
  · simp only [Bool.and_eq_true, beq_iff_eq] at hsame
    exact hsame.1.1

/-- Moments with one instant are the same if they are on one clock, or if no offset depends on the
fold. -/
theorem same_of_instant (h : m.ComparesOn n.clock) (hinstant : m.instant = n.instant)
    (hsettled : m.clock.same n.clock = true ∨ m.isProblematic = false ∧ n.isProblematic = false) :
    m.same n = true := by
  unfold same
  split
  · next hclock =>
    obtain ⟨hbefore, hafter⟩ := h n rfl
    unfold before at hbefore hafter
    rw [decide_eq_true_iff] at hbefore
    rw [since_swap m n, decide_eq_true_iff] at hafter
    have hzero : m.since n = 0 := by omega
    unfold since at hzero
    rw [if_pos hclock] at hzero
    rw [beq_iff_eq]
    omega
  · next hclock =>
    obtain ⟨hm, hn⟩ := hsettled.resolve_left hclock
    simp [hinstant, hn, hm]

/-- A moment that compares with a clock by its instant agrees with the moments of that clock that are
settled beside it. -/
theorem ComparesOn.agrees (h : m.ComparesOn n.clock)
    (hsettled : m.instant = n.instant →
      m.clock.same n.clock = true ∨ m.isProblematic = false ∧ n.isProblematic = false) :
    m.Agrees n where
  before := (h n rfl).1
  same := ⟨instant_of_same h, fun hinstant => same_of_instant h hinstant (hsettled hinstant)⟩

end Moment

end ScanPolicy
