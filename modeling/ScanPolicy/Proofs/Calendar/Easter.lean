import ScanPolicy.Calendar.Easter
import ScanPolicy.Proofs.Calendar.Date

/-!
# The days of Easter

The full moon of the tables is at most four weeks after the twenty-first of March, and
Easter Sunday is the Sunday after it.

- `Calendar.easter_bounds`: the first and the last date of Easter.
- `Calendar.easter_dayOfYear`: the same as days of the year.
-/

namespace ScanPolicy.Calendar

/-- The full moon of the tables: the two last days of the moon are brought back into four weeks. -/
theorem fullMoon_bounds {moon golden : Nat} (hmoon : moon < 30) {fullMoon : Int}
    (h : (moon : Int) - (moon / 28 : Nat) * (1 - ((moon / 28 : Nat) : Int) *
      (29 / (moon + 1) : Nat) * ((21 - golden) / 11 : Nat)) = fullMoon) :
    0 ≤ fullMoon ∧ fullMoon ≤ 28 := by
  have hcycle : (21 - golden) / 11 ≤ 1 := by omega
  rcases Nat.lt_or_ge moon 28 with hlt | hge
  · rw [Nat.div_eq_of_lt hlt] at h
    omega
  · obtain rfl | rfl : moon = 28 ∨ moon = 29 := by omega
    · norm_num at h
      omega
    · norm_num at h
      omega

/-- Easter Sunday is from the twenty-second of March to the twenty-fifth of April. -/
theorem easter_bounds (y : Nat) :
    (easter y).1 = 3 ∧ 22 ≤ (easter y).2 ∧ (easter y).2 ≤ 31 ∨
      (easter y).1 = 4 ∧ 1 ≤ (easter y).2 ∧ (easter y).2 ≤ 25 := by
  unfold easter
  dsimp only
  generalize hmoon :
    (y / 100 - y / 100 / 4 - (8 * (y / 100) + 13) / 25 + 19 * (y % 19) + 15) % 30 = moon
  generalize hfull : (moon : Int) - (moon / 28 : Nat) * (1 - ((moon / 28 : Nat) : Int) *
    (29 / (moon + 1) : Nat) * ((21 - y % 19) / 11 : Nat)) = fullMoon
  have hbounds := fullMoon_bounds (show moon < 30 by omega) hfull
  generalize hweekday : ((y + y / 4 + 2 : Nat) + fullMoon - ((y / 100 : Nat) : Int) +
    (y / 100 / 4 : Nat)).emod 7 = weekday
  have : 0 ≤ weekday ∧ weekday < 7 := by
    rw [← hweekday]
    exact ⟨Int.emod_nonneg _ (by decide), Int.emod_lt_of_pos _ (by decide)⟩
  generalize hsunday : fullMoon - weekday = sunday
  rw [Int.fdiv_eq_ediv_of_nonneg (sunday + 6) (by decide), Int.fdiv_eq_ediv_of_nonneg _ (by decide),
    show (sunday + 6) / 40 = 0 by omega, Int.add_zero,
    show (sunday + 27).emod 31 = (sunday + 27) % 31 from rfl]
  omega

/-- The same in days of the year, the first of January being zero. -/
theorem easter_dayOfYear (y : Nat) :
    80 ≤ daysBeforeMonth y (easter y).1 + (easter y).2 - 1 ∧
      daysBeforeMonth y (easter y).1 + (easter y).2 + 250 ≤ yearLength y := by
  have hlengths : daysBeforeMonth y 4 = daysBeforeMonth y 3 + 31 ∧
      daysBeforeMonth y 3 + 306 = yearLength y ∧ 365 ≤ yearLength y := by
    unfold daysBeforeMonth yearLength
    cases isLeap y <;> decide
  rcases easter_bounds y with ⟨hmonth, hday⟩ | ⟨hmonth, hday⟩
  all_goals
    rw [hmonth]
    omega

end ScanPolicy.Calendar
