import Mathlib.Tactic.Common
import ScanPolicy.Zone.Named

/-!
# The offsets of a zone

A zone has finitely many offsets: the first one, those of its transitions and those of the rule for the
time after them. Its clock shows no other one, and in the database all of them are shorter than a day.

- `Zone.offsets`: the offsets of a zone.
- `Zone.offsetAt_mem`, `Zone.ofUniversal_mem`: the offset at any time is one of them.
- `Zone.offsets_bounds`: the offsets of the zones of the database.
-/

namespace ScanPolicy

namespace Footer

/-- The offsets after the last transition. -/
def offsets : Footer → List Int
  | steady offset => [offset]
  | yearly standard summer _ _ => [standard, summer]

end Footer

namespace Zone

/-- The offsets of a zone. -/
def offsets (z : Zone) : List Int :=
  z.initial :: z.transitions.map Transition.offset ++ z.footer.offsets

/-- Of two offsets one is chosen. -/
theorem chosen_mem (isSummer : Bool) (standard summer : Int) :
    (if isSummer then summer else standard) ∈ [standard, summer] := by
  cases isSummer with
  | false => exact List.mem_cons_self
  | true => exact List.mem_cons_of_mem _ List.mem_cons_self

/-! ## At wall times -/

theorem footerOffset_mem (footer : Footer) (fold : Bool) (wall : Int) (year : Nat) :
    footerOffset footer fold wall year ∈ footer.offsets := by
  cases footer with
  | steady offset => exact List.mem_singleton_self offset
  | yearly standard summer start finish => exact chosen_mem _ standard summer

/-- From a transition on, the offset is the one before it or a later one. -/
theorem offsetFrom_mem (footer : Footer) (fold : Bool) (wall : Int) (year : Nat) (before : Int)
    (ts : List Transition) : offsetFrom footer fold wall year before ts ∈
      before :: ts.map Transition.offset ++ footer.offsets := by
  have hfooter := footerOffset_mem footer fold wall year
  induction ts generalizing before with
  | nil => exact List.mem_cons_of_mem _ hfooter
  | cons t rest ih =>
    -- the last transition is a case of its own, as the rule takes over there
    cases rest with
    | nil =>
      unfold offsetFrom
      dsimp only
      split
      · exact List.mem_cons_self
      split
      · exact List.mem_cons_of_mem _ List.mem_cons_self
      · exact List.mem_cons_of_mem _ (List.mem_cons_of_mem _ hfooter)
    | cons u rest =>
      unfold offsetFrom
      split
      · exact List.mem_cons_self
      · exact List.mem_cons_of_mem _ (ih t.offset)

/-- The offset at a wall time is one of the zone. -/
theorem offsetAt_mem (z : Zone) (t : WallTime) (fold : Bool) : z.offsetAt t fold ∈ z.offsets :=
  offsetFrom_mem _ _ _ _ _ _

/-! ## At universal times -/

theorem footerOfUniversal_mem (footer : Footer) (instant : Int) (year : Nat) :
    (footerOfUniversal footer instant year).1 ∈ footer.offsets := by
  cases footer with
  | steady offset => exact List.mem_singleton_self offset
  | yearly standard summer start finish => exact chosen_mem _ standard summer

theorem universalFrom_mem (footer : Footer) (instant : Int) (year : Nat) (before : Int)
    (t : Transition) (ts : List Transition) :
    (universalFrom footer instant year before t ts).1 ∈
      (t :: ts).map Transition.offset ++ footer.offsets := by
  have hfooter := footerOfUniversal_mem footer instant year
  induction ts generalizing before t with
  | nil =>
    unfold universalFrom
    split
    · exact List.mem_cons_self
    · exact List.mem_cons_of_mem _ hfooter
  | cons u rest ih =>
    unfold universalFrom
    split
    · exact List.mem_cons_self
    · exact List.mem_cons_of_mem _ (ih t.offset u)

/-- The offset at a universal time is one of the zone. -/
theorem ofUniversal_mem (z : Zone) (t : WallTime) : (z.ofUniversal t).1 ∈ z.offsets := by
  unfold ofUniversal offsets
  dsimp only
  cases z.transitions with
  | nil => exact List.mem_cons_of_mem _ (footerOfUniversal_mem _ _ _)
  | cons u rest =>
    dsimp only
    split
    · exact List.mem_cons_self
    · exact List.mem_cons_of_mem _ (universalFrom_mem _ _ _ _ _ _)

/-! ## The zones of the database -/

/-- The offsets of the database are shorter than a day. -/
theorem offsets_bounds {z : Zone} (hz : z ∈ table) {offset : Int} (h : offset ∈ z.offsets) :
    -86400 < offset ∧ offset < 86400 := by
  have hall : (table.all fun z => z.offsets.all fun offset =>
      decide (-86400 < offset) && decide (offset < 86400)) = true := by
    decide +kernel
  have hoffset := List.all_eq_true.mp (List.all_eq_true.mp hall z hz) offset h
  simpa using hoffset

end Zone

end ScanPolicy
