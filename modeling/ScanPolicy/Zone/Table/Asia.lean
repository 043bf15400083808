import ScanPolicy.Zone.Basic

/-!
# Zones of Asia

The transitions are those of the time zone database; instants are seconds of universal time from
the start of 1970, offsets are seconds ahead of universal time.
-/

namespace ScanPolicy.Zone.Table

/-- Transitions of `Asia/Tokyo`. -/
def asiaTokyoTransitions : List Transition := [
  ⟨-2587712400, 32400⟩, ⟨-683802000, 36000⟩, ⟨-672310800, 32400⟩, ⟨-654771600, 36000⟩,
  ⟨-640861200, 32400⟩, ⟨-620298000, 36000⟩, ⟨-609411600, 32400⟩, ⟨-588848400, 36000⟩, ⟨-577962000,
  32400⟩]

/-- The zone `Asia/Tokyo`. -/
def asiaTokyo : Zone where
  name := "Asia/Tokyo"
  initial := 33539
  transitions := asiaTokyoTransitions
  footer := .steady 32400

/-- Transitions of `Asia/Kolkata`. -/
def asiaKolkataTransitions : List Transition := [
  ⟨-3645237208, 21200⟩, ⟨-3155694800, 19270⟩, ⟨-2019705670, 19800⟩, ⟨-891581400, 23400⟩,
  ⟨-872058600, 19800⟩, ⟨-862637400, 23400⟩, ⟨-764145000, 19800⟩]

/-- The zone `Asia/Kolkata`. -/
def asiaKolkata : Zone where
  name := "Asia/Kolkata"
  initial := 21208
  transitions := asiaKolkataTransitions
  footer := .steady 19800

/-- Transitions of `Asia/Kathmandu`. -/
def asiaKathmanduTransitions : List Transition := [
  ⟨-1577943676, 19800⟩, ⟨504901800, 20700⟩]

/-- The zone `Asia/Kathmandu`. -/
def asiaKathmandu : Zone where
  name := "Asia/Kathmandu"
  initial := 20476
  transitions := asiaKathmanduTransitions
  footer := .steady 20700

end ScanPolicy.Zone.Table
