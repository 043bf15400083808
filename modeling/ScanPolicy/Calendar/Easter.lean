import ScanPolicy.Calendar.Date

/-!
# Easter

The date of Easter Sunday in the Gregorian calendar: the Sunday after the first full moon on or
after the twenty-first of March, by the tables of the church.

- `Calendar.easter`: month and day of Easter Sunday.
-/

namespace ScanPolicy.Calendar

/-- Month and day of Easter Sunday. -/
def easter (y : Nat) : Nat × Nat :=
  let golden := y % 19
  let century := y / 100
  -- days from the twenty-first of March to the full moon, before the corrections of the tables
  let moon := (century - century / 4 - (8 * century + 13) / 25 + 19 * golden + 15) % 30
  let fullMoon : Int :=
    (moon : Int) - (moon / 28 : Nat) *
      (1 - ((moon / 28 : Nat) : Int) * (29 / (moon + 1) : Nat) * ((21 - golden) / 11 : Nat))
  let weekday :=
    ((y + y / 4 + 2 : Nat) + fullMoon - (century : Int) + (century / 4 : Nat)).emod 7
  let sunday := fullMoon - weekday
  let day := 1 + (sunday + 27 + ((sunday + 6).fdiv 40)).emod 31
  let month := 3 + (sunday + 26).fdiv 30
  (month.toNat, day.toNat)

end ScanPolicy.Calendar
