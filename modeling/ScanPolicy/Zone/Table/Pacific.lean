import ScanPolicy.Zone.Basic

/-!
# Zones of the Pacific

The transitions are those of the time zone database; instants are seconds of universal time from
the start of 1970, offsets are seconds ahead of universal time.
-/

namespace ScanPolicy.Zone.Table

/-- Transitions of `Pacific/Apia`. -/
def pacificApiaTransitions : List Transition := [
  ⟨-2445424384, -41216⟩, ⟨-1861878784, -41400⟩, ⟨-631110600, -39600⟩, ⟨1285498800, -36000⟩,
  ⟨1301752800, -39600⟩, ⟨1316872800, -36000⟩, ⟨1325239200, 50400⟩, ⟨1333202400, 46800⟩,
  ⟨1348927200, 50400⟩, ⟨1365256800, 46800⟩, ⟨1380376800, 50400⟩, ⟨1396706400, 46800⟩, ⟨1411826400,
  50400⟩, ⟨1428156000, 46800⟩, ⟨1443276000, 50400⟩, ⟨1459605600, 46800⟩, ⟨1474725600, 50400⟩,
  ⟨1491055200, 46800⟩, ⟨1506175200, 50400⟩, ⟨1522504800, 46800⟩, ⟨1538229600, 50400⟩, ⟨1554559200,
  46800⟩, ⟨1569679200, 50400⟩, ⟨1586008800, 46800⟩, ⟨1601128800, 50400⟩, ⟨1617458400, 46800⟩]

/-- The zone `Pacific/Apia`. -/
def pacificApia : Zone where
  name := "Pacific/Apia"
  initial := 45184
  transitions := pacificApiaTransitions
  footer := .steady 46800

/-- Transitions of `Pacific/Kiritimati`. -/
def pacificKiritimatiTransitions : List Transition := [
  ⟨-2177415040, -38400⟩, ⟨307622400, -36000⟩, ⟨788868000, 50400⟩]

/-- The zone `Pacific/Kiritimati`. -/
def pacificKiritimati : Zone where
  name := "Pacific/Kiritimati"
  initial := -37760
  transitions := pacificKiritimatiTransitions
  footer := .steady 50400

end ScanPolicy.Zone.Table
