import ScanPolicy.Zone.Basic

/-!
# Zones with one offset

The transitions are those of the time zone database; instants are seconds of universal time from
the start of 1970, offsets are seconds ahead of universal time.
-/

namespace ScanPolicy.Zone.Table

/-- The zone `UTC`. -/
def utcNamed : Zone where
  name := "UTC"
  initial := 0
  transitions := []
  footer := .steady 0

/-- The zone `Etc/GMT+5`. -/
def etcGMTPlus5 : Zone where
  name := "Etc/GMT+5"
  initial := -18000
  transitions := []
  footer := .steady (-18000)

end ScanPolicy.Zone.Table
