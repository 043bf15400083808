import ScanPolicy.Proofs.Zone.Calm
import ScanPolicy.Proofs.Zone.Offsets

/-!
# Clocks that keep the order of days

A clock that is set forward or back by a day at most keeps wall times that are a day apart in order,
whichever of two equal readings is meant.

- `Clock.OrdersDays`: such clocks.
- `Zone.ordersDays_of_mem_table`: the zones of the database that no date line has passed.
- `Zone.ordersDays_kiritimati`: a zone that has left out a day.
-/

namespace ScanPolicy

/-- Wall times that are a day apart never stand for instants in reversed order, and those that are
more than a day apart stand for instants in the same order, whatever their folds. -/
structure Clock.OrdersDays (clock : Clock) : Prop where
  le : ∀ m n : Moment, m.clock = clock → n.clock = clock →
    m.wall.ticks + Span.day ≤ n.wall.ticks → m.instant ≤ n.instant
  lt : ∀ m n : Moment, m.clock = clock → n.clock = clock →
    m.wall.ticks + Span.day < n.wall.ticks → m.instant < n.instant

theorem Clock.OrdersDays.isDayOrdered {clock : Clock} (h : clock.OrdersDays) : clock.IsDayOrdered :=
  fun a b hab => h.le (clock.reading a) (clock.reading b) rfl rfl hab

theorem Clock.ordersDays_universal : Clock.universal.OrdersDays := by
  constructor
  · intro m n hm hn hmn
    rw [Moment.instant_of_universal hm, Moment.instant_of_universal hn]
    rw [Span.day_eq] at hmn
    omega
  · intro m n hm hn hmn
    rw [Moment.instant_of_universal hm, Moment.instant_of_universal hn]
    rw [Span.day_eq] at hmn
    omega

namespace Zone

theorem instant_zoned {z : Zone} {m : Moment} (hm : m.clock = .zoned z) :
    m.instant = m.wall.ticks - z.offsetAt m.wall m.fold * Span.second := by
  unfold Moment.instant Moment.offset Moment.offsetWith
  rw [hm]

/-- The days are in order if the clock is not set forward by more than a day, or has the time for
that. -/
theorem ordersDays_of_offsetAt {z : Zone}
    (h : ∀ (a b : WallTime) (fold fold' : Bool), a.ticks + Span.day ≤ b.ticks →
      z.offsetAt b fold' ≤ z.offsetAt a fold + 86400 ∨
        (z.offsetAt b fold' - z.offsetAt a fold) * Span.second < b.ticks - a.ticks) :
    (Clock.zoned z).OrdersDays := by
  constructor
  · intro m n hm hn hmn
    have hoffset := h m.wall n.wall m.fold n.fold hmn
    rw [Span.second_eq] at hoffset
    rw [instant_zoned hm, instant_zoned hn, Span.second_eq]
    rw [Span.day_eq] at hmn
    omega
  · intro m n hm hn hmn
    have hoffset := h m.wall n.wall m.fold n.fold (le_of_lt hmn)
    rw [Span.second_eq] at hoffset
    rw [instant_zoned hm, instant_zoned hn, Span.second_eq]
    rw [Span.day_eq] at hmn
    omega

/-- So it is in the zones that no date line has passed: their offsets lie within a day. -/
theorem ordersDays_of_mem_table {z : Zone} (hz : z ∈ table)
    (hname : z.name ∉ ["Pacific/Apia", "Pacific/Kiritimati"]) : (Clock.zoned z).OrdersDays := by
  have hall : (table.all fun z => ["Pacific/Apia", "Pacific/Kiritimati"].contains z.name ||
      z.offsets.all fun offset => decide (-43200 ≤ offset ∧ offset ≤ 43200)) = true := by
    decide +kernel
  have hbounds : ∀ offset ∈ z.offsets, -43200 ≤ offset ∧ offset ≤ 43200 := by
    have hz := List.all_eq_true.mp hall z hz
    rw [Bool.or_eq_true, List.contains_iff_mem, or_iff_right hname] at hz
    exact fun offset hoffset => of_decide_eq_true (List.all_eq_true.mp hz offset hoffset)
  refine ordersDays_of_offsetAt fun a b fold fold' _ => .inl ?_
  have ha := hbounds _ (z.offsetAt_mem a fold)
  have hb := hbounds _ (z.offsetAt_mem b fold')
  omega

/-! ## A zone that has left out a day -/

/-- The offsets of Kiritimati by the second that its wall shows. -/
theorem offsetAt_kiritimati (t : WallTime) (fold : Bool) :
    Table.pacificKiritimati.offsetAt t fold =
      if secondOf t < -2177415040 + (if fold then -38400 else -37760) then -37760
      else if secondOf t < 307622400 + (if fold then -38400 else -36000) then -38400
      else if secondOf t < 788868000 + (if fold then -36000 else 50400) then -36000
      else 50400 := by
  have hmove : Table.pacificKiritimati.offsetAt t fold =
      offsetFrom (.steady 50400) fold (secondOf t) t.year (-37760)
        [⟨-2177415040, -38400⟩, ⟨307622400, -36000⟩, ⟨788868000, 50400⟩] := rfl
  rw [hmove]
  unfold offsetFrom offsetFrom offsetFrom wallThreshold footerOffset
  cases fold <;> simp

/-- A day that is left out reverses nothing. The offset has grown by more than a day since 1979 only,
and so over more than fifteen years. -/
theorem ordersDays_kiritimati : (Clock.zoned Table.pacificKiritimati).OrdersDays := by
  refine ordersDays_of_offsetAt fun a b fold fold' hab => ?_
  have ha := secondOf_eq a
  have hb := secondOf_eq b
  rw [offsetAt_kiritimati, offsetAt_kiritimati, Span.second_eq]
  generalize secondOf a = x at *
  generalize secondOf b = y at *
  cases fold <;> cases fold' <;> simp only [Bool.false_eq_true, if_false, if_true] <;>
    split <;> omega

end Zone

end ScanPolicy
