import Mathlib.Tactic.Common
import ScanPolicy.Moment.Basic
import ScanPolicy.Proofs.Calendar.WallTime

/-!
# Moments on the universal clock

On the universal clock the three relations between moments are those of their
wall times: a moment is before another one, the same as it, or one member with
it, as the numbers of microseconds say.

- `Moment.universal`: the moment of a wall time on the universal clock.
- `Moment.isIn_universal`, `Moment.distinct_spec`: membership and repetition.
- `Moment.sort_spec`: the order of a sorted list.
-/

namespace ScanPolicy

namespace Moment

/-- The moment of a wall time on the universal clock. -/
def universal (t : WallTime) : Moment := ⟨t, .universal, false⟩

/-- Whether a moment is read on the universal clock without fold. -/
def IsUniversal (m : Moment) : Prop := m = universal m.wall

theorem isUniversal_universal (t : WallTime) : (universal t).IsUniversal := rfl

theorem isUniversal_iff {m : Moment} : m.IsUniversal ↔ m.clock = .universal ∧ m.fold = false := by
  obtain ⟨wall, clock, fold⟩ := m
  simp [IsUniversal, universal]

/-- Moments on the universal clock are the images of their wall times. -/
theorem map_universal {ms : List Moment} (h : ∀ m ∈ ms, m.IsUniversal) :
    ms = (ms.map wall).map universal := by
  rw [List.map_map]
  conv_lhs => rw [← List.map_id ms]
  exact List.map_congr_left fun m hm => h m hm

@[simp] theorem wall_universal (t : WallTime) : (universal t).wall = t := rfl

@[simp] theorem clock_universal (t : WallTime) : (universal t).clock = .universal := rfl

@[simp] theorem offset_universal (t : WallTime) : (universal t).offset = 0 := rfl

@[simp] theorem universal_inj {a b : WallTime} : universal a = universal b ↔ a = b := by
  simp [universal]

@[simp] theorem since_universal (a b : WallTime) :
    (universal a).since (universal b) = a.ticks - b.ticks := rfl

@[simp] theorem before_universal (a b : WallTime) :
    (universal a).before (universal b) = decide (a.ticks < b.ticks) := by
  simp [before]

@[simp] theorem notAfter_universal (a b : WallTime) :
    (universal a).notAfter (universal b) = decide (a.ticks ≤ b.ticks) := by
  simp [notAfter]

@[simp] theorem same_universal (a b : WallTime) :
    (universal a).same (universal b) = decide (a.ticks = b.ticks) := rfl

@[simp] theorem firstInstant_universal (t : WallTime) : (universal t).firstInstant = t.ticks := by
  show t.ticks - 0 * Span.second = t.ticks
  omega

@[simp] theorem coincides_universal (a b : WallTime) :
    (universal a).coincides (universal b) = decide (a = b) := by
  by_cases h : a = b
  · simp [coincides, h]
  · have hne : a.ticks ≠ b.ticks := fun hticks => h (WallTime.ext hticks)
    simp [coincides, h, hne]

@[simp] theorem isIn_universal (t : WallTime) (ts : List WallTime) :
    (universal t).isIn (ts.map universal) = decide (t ∈ ts) := by
  simp [isIn, List.any_eq]

@[simp] theorem universal?_universal (t : WallTime) :
    (universal t).universal? = some (universal t) := rfl

theorem add?_universal (t : WallTime) (span : Int) :
    (universal t).add? span = (t.add? span).map universal := rfl

/-! ## Repetitions and order -/

/-- The list without repetitions has the members of the list, none of which
coincides with another one. -/
theorem distinct_spec (ts : List WallTime) :
    ∃ us : List WallTime, distinct (ts.map universal) = us.map universal ∧ us.Nodup ∧
      ∀ t, t ∈ us ↔ t ∈ ts := by
  have hrun : ∀ (ts us : List WallTime), us.Nodup →
      ∃ vs : List WallTime, (ts.map universal).foldl
          (fun seen m => if m.isIn seen then seen else m :: seen) (us.map universal) =
        vs.map universal ∧ vs.Nodup ∧ ∀ t, t ∈ vs ↔ t ∈ us ∨ t ∈ ts := by
    intro ts
    induction ts with
    | nil => exact fun us hus => ⟨us, rfl, hus, by simp⟩
    | cons t ts ih =>
      intro us hus
      rw [List.map_cons, List.foldl_cons, isIn_universal]
      by_cases ht : t ∈ us
      · obtain ⟨vs, heq, hvs, hmem⟩ := ih us hus
        refine ⟨vs, by simpa [ht] using heq, hvs, fun x => ?_⟩
        rw [hmem x, List.mem_cons]
        constructor
        · rintro (hx | hx)
          · exact .inl hx
          · exact .inr (.inr hx)
        · rintro (hx | rfl | hx)
          · exact .inl hx
          · exact .inl ht
          · exact .inr hx
      · obtain ⟨vs, heq, hvs, hmem⟩ := ih (t :: us) (List.nodup_cons.mpr ⟨ht, hus⟩)
        refine ⟨vs, by simpa [ht] using heq, hvs, fun x => ?_⟩
        rw [hmem x, List.mem_cons, List.mem_cons]
        tauto
  obtain ⟨vs, heq, hvs, hmem⟩ := hrun ts [] List.nodup_nil
  exact ⟨vs, heq, hvs, fun t => by simpa using hmem t⟩

/-- A sorted list has the members of the list in order. -/
theorem sort_spec (ts : List WallTime) :
    ∃ us : List WallTime, sort (ts.map universal) = us.map universal ∧ us.Perm ts ∧
      us.Pairwise fun a b => a.ticks ≤ b.ticks := by
  refine ⟨ts.mergeSort fun a b => decide (a.ticks ≤ b.ticks), ?_, List.mergeSort_perm _ _, ?_⟩
  · unfold sort
    rw [List.map_mergeSort]
    intro a _ b _
    rw [before_universal, ← decide_not]
    exact decide_eq_decide.mpr (by omega)
  · have htrans : ∀ a b c : WallTime, decide (a.ticks ≤ b.ticks) → decide (b.ticks ≤ c.ticks) →
        decide (a.ticks ≤ c.ticks) := by
      intro a b c hab hbc
      simp only [decide_eq_true_eq] at *
      omega
    have htotal : ∀ a b : WallTime, decide (a.ticks ≤ b.ticks) || decide (b.ticks ≤ a.ticks) := by
      intro a b
      simp only [Bool.or_eq_true, decide_eq_true_eq]
      omega
    exact (List.pairwise_mergeSort htrans htotal ts).imp fun h => by simpa using h

/-- The further dates of a schedule are in strict order. -/
theorem sort_distinct_spec (ts : List WallTime) :
    ∃ us : List WallTime, sort (distinct (ts.map universal)) = us.map universal ∧
      (us.Pairwise fun a b => a.ticks < b.ticks) ∧ ∀ t, t ∈ us ↔ t ∈ ts := by
  obtain ⟨vs, hvs, hnodup, hmem⟩ := distinct_spec ts
  obtain ⟨us, hus, hperm, hsorted⟩ := sort_spec vs
  refine ⟨us, by rw [hvs, hus], ?_, fun t => (hperm.mem_iff).trans (hmem t)⟩
  have hne : us.Pairwise fun a b => a ≠ b := hperm.nodup_iff.mpr hnodup
  refine (hsorted.and hne).imp fun {a b} h => ?_
  obtain ⟨hle, hne⟩ := h
  exact lt_of_le_of_ne hle fun h => hne (WallTime.ext h)

end Moment

end ScanPolicy
