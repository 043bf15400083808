import ScanPolicy.Zone.Basic

/-!
# Zones of Australia

The transitions are those of the time zone database; instants are seconds of universal time from
the start of 1970, offsets are seconds ahead of universal time.
-/

namespace ScanPolicy.Zone.Table

/-- Transitions of `Australia/Lord_Howe`. -/
def australiaLordHoweTransitions : List Transition := [
  ⟨-2364114980, 36000⟩, ⟨352216800, 37800⟩, ⟨372785400, 41400⟩, ⟨384273000, 37800⟩, ⟨404839800,
  41400⟩, ⟨415722600, 37800⟩, ⟨436289400, 41400⟩, ⟨447172200, 37800⟩, ⟨467739000, 41400⟩,
  ⟨478621800, 37800⟩, ⟨499188600, 39600⟩, ⟨511282800, 37800⟩, ⟨530033400, 39600⟩, ⟨542732400,
  37800⟩, ⟨562087800, 39600⟩, ⟨574786800, 37800⟩, ⟨594142200, 39600⟩, ⟨606236400, 37800⟩,
  ⟨625591800, 39600⟩, ⟨636476400, 37800⟩, ⟨657041400, 39600⟩, ⟨667926000, 37800⟩, ⟨688491000,
  39600⟩, ⟨699375600, 37800⟩, ⟨719940600, 39600⟩, ⟨731430000, 37800⟩, ⟨751995000, 39600⟩,
  ⟨762879600, 37800⟩, ⟨783444600, 39600⟩, ⟨794329200, 37800⟩, ⟨814894200, 39600⟩, ⟨828198000,
  37800⟩, ⟨846343800, 39600⟩, ⟨859647600, 37800⟩, ⟨877793400, 39600⟩, ⟨891097200, 37800⟩,
  ⟨909243000, 39600⟩, ⟨922546800, 37800⟩, ⟨941297400, 39600⟩, ⟨953996400, 37800⟩, ⟨967303800,
  39600⟩, ⟨985446000, 37800⟩, ⟨1004196600, 39600⟩, ⟨1017500400, 37800⟩, ⟨1035646200, 39600⟩,
  ⟨1048950000, 37800⟩, ⟨1067095800, 39600⟩, ⟨1080399600, 37800⟩, ⟨1099150200, 39600⟩, ⟨1111849200,
  37800⟩, ⟨1130599800, 39600⟩, ⟨1143903600, 37800⟩, ⟨1162049400, 39600⟩, ⟨1174748400, 37800⟩,
  ⟨1193499000, 39600⟩, ⟨1207407600, 37800⟩]

/-- The zone `Australia/Lord_Howe`. -/
def australiaLordHowe : Zone where
  name := "Australia/Lord_Howe"
  initial := 38180
  transitions := australiaLordHoweTransitions
  footer := .yearly 37800 39600 ⟨10, 1, 0, 7200⟩ ⟨4, 1, 0, 7200⟩

/-- Transitions of `Australia/Sydney`. -/
def australiaSydneyTransitions : List Transition := [
  ⟨-2364113092, 36000⟩, ⟨-1672560000, 39600⟩, ⟨-1665388800, 36000⟩, ⟨-883641600, 39600⟩,
  ⟨-876124800, 36000⟩, ⟨-860400000, 39600⟩, ⟨-844675200, 36000⟩, ⟨-828345600, 39600⟩, ⟨-813225600,
  36000⟩, ⟨57686400, 39600⟩, ⟨67968000, 36000⟩, ⟨89136000, 39600⟩, ⟨100022400, 36000⟩, ⟨120585600,
  39600⟩, ⟨131472000, 36000⟩, ⟨152035200, 39600⟩, ⟨162921600, 36000⟩, ⟨183484800, 39600⟩,
  ⟨194976000, 36000⟩, ⟨215539200, 39600⟩, ⟨226425600, 36000⟩, ⟨246988800, 39600⟩, ⟨257875200,
  36000⟩, ⟨278438400, 39600⟩, ⟨289324800, 36000⟩, ⟨309888000, 39600⟩, ⟨320774400, 36000⟩,
  ⟨341337600, 39600⟩, ⟨352224000, 36000⟩, ⟨372787200, 39600⟩, ⟨386697600, 36000⟩, ⟨404841600,
  39600⟩, ⟨415728000, 36000⟩, ⟨436291200, 39600⟩, ⟨447177600, 36000⟩, ⟨467740800, 39600⟩,
  ⟨478627200, 36000⟩, ⟨499190400, 39600⟩, ⟨511286400, 36000⟩, ⟨530035200, 39600⟩, ⟨542736000,
  36000⟩, ⟨562089600, 39600⟩, ⟨574790400, 36000⟩, ⟨594144000, 39600⟩, ⟨606240000, 36000⟩,
  ⟨625593600, 39600⟩, ⟨636480000, 36000⟩, ⟨657043200, 39600⟩, ⟨667929600, 36000⟩, ⟨688492800,
  39600⟩, ⟨699379200, 36000⟩, ⟨719942400, 39600⟩, ⟨731433600, 36000⟩, ⟨751996800, 39600⟩,
  ⟨762883200, 36000⟩, ⟨783446400, 39600⟩, ⟨794332800, 36000⟩, ⟨814896000, 39600⟩, ⟨828201600,
  36000⟩, ⟨846345600, 39600⟩, ⟨859651200, 36000⟩, ⟨877795200, 39600⟩, ⟨891100800, 36000⟩,
  ⟨909244800, 39600⟩, ⟨922550400, 36000⟩, ⟨941299200, 39600⟩, ⟨954000000, 36000⟩, ⟨967305600,
  39600⟩, ⟨985449600, 36000⟩, ⟨1004198400, 39600⟩, ⟨1017504000, 36000⟩, ⟨1035648000, 39600⟩,
  ⟨1048953600, 36000⟩, ⟨1067097600, 39600⟩, ⟨1080403200, 36000⟩, ⟨1099152000, 39600⟩, ⟨1111852800,
  36000⟩, ⟨1130601600, 39600⟩, ⟨1143907200, 36000⟩, ⟨1162051200, 39600⟩, ⟨1174752000, 36000⟩,
  ⟨1193500800, 39600⟩, ⟨1207411200, 36000⟩]

/-- The zone `Australia/Sydney`. -/
def australiaSydney : Zone where
  name := "Australia/Sydney"
  initial := 36292
  transitions := australiaSydneyTransitions
  footer := .yearly 36000 39600 ⟨10, 1, 0, 7200⟩ ⟨4, 1, 0, 10800⟩

end ScanPolicy.Zone.Table
