import ScanPolicy.Text.Blank
import ScanPolicy.Zone.Table.America
import ScanPolicy.Zone.Table.Asia
import ScanPolicy.Zone.Table.Australia
import ScanPolicy.Zone.Table.Europe
import ScanPolicy.Zone.Table.Fixed
import ScanPolicy.Zone.Table.Pacific

/-!
# Zones by name

- `Zone.table`: the zones of the database.
- `Zone.folders`: the names that the database uses for groups of zones.
- `Zone.find`: the zone with a name, compared exactly once the blanks around it are dropped.
-/

namespace ScanPolicy.Zone

open Table

/-- The zones of the database. -/
def table : List Zone := [
  utcNamed, etcGMTPlus5, europeBerlin, europeLondon, americaNewYork, americaStJohns,
  americaSaoPaulo, asiaTokyo, asiaKolkata, asiaKathmandu, australiaLordHowe, australiaSydney,
  pacificApia, pacificKiritimati]

/-- Names under which the database keeps groups of zones. -/
def folders : List String := [
  "Africa", "America", "America/Argentina", "America/Indiana", "America/Kentucky",
  "America/North_Dakota", "Antarctica", "Arctic", "Asia", "Atlantic", "Australia", "Brazil",
  "Canada", "Chile", "Etc", "Europe", "Indian", "Mexico", "Pacific", "US"]

/-- What a name stands for in the database. -/
inductive Lookup where
  | found (zone : Zone)
  | folder
  | unknown

/-- What a name stands for, the blanks around it dropped. -/
def find (name : Text) : Lookup :=
  let key := String.ofList (Text.trim name)
  match table.find? fun z => z.name == key with
  | some z => .found z
  | none => if folders.contains key then .folder else .unknown

end ScanPolicy.Zone
