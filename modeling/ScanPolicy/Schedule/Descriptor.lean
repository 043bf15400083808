import ScanPolicy.Journal.Basic
import ScanPolicy.Schedule.Component
import ScanPolicy.Schedule.ContentLine

/-!
# Schedules

A schedule is what a calendar text says about the times of its first event: the start, the
recurrence rules, further dates and excluded dates.

- `Descriptor`: a schedule.
- `Descriptor.parse`: reads a calendar text; rules that cannot be read are dropped and noted in the
  journal, and a text whose rules are all dropped is no schedule.
-/

namespace ScanPolicy

/-- A schedule. -/
structure Descriptor where
  start : Moment
  /-- The zone of the schedule, if it has one. -/
  zone : Option Zone
  components : List Component
  /-- Further dates, in order. -/
  dates : List Moment
  excluded : List Moment

namespace Descriptor

/-- A computation that writes entries and may break off. -/
abbrev Reading (α : Type) := ExceptT Fault Traced α

/-- An entry about schedules. -/
def entry (level : Level) (message : String) (facts : List (String × Json)) : Entry :=
  ⟨"domain.recurrence", level, message, facts⟩

/-- A text as a fact. -/
def textFact (t : Text) : Json := .text (String.ofList t)

/-- A step that only writes an entry. -/
def note (e : Entry) : Reading Unit := ExceptT.mk (.noting (.ok ()) e)

/-- A step that writes no entry. -/
def lift {α : Type} (a : Except Fault α) : Reading α := ExceptT.mk (.quiet a)

/-- The clock of an optional zone. -/
def clockOf : Option Zone → Clock
  | some z => .zoned z
  | none => .universal

/-- The moments that a property lists; periods are not dates and are ignored. -/
def moments (p : Property) (clock : Clock) : Reading (List Moment) := do
  if Text.upper ((p.parameter? "VALUE").getD []) = "PERIOD".toList then
    note (entry Level.warning "recurrence.period_values.ignored" [("property", textFact p.name)])
    return []
  let clock ← match p.parameter? "TZID" with
    | some name => lift (Clock.zoned <$> Instant.loadZone name)
    | none => pure clock
  lift (((Text.pieces ',' p.value).filter fun v => !Text.allBlank v).mapM (Instant.parse · clock))

/-- The components that the rule properties give, those that cannot be read dropped. -/
def readComponents (start : Moment) (clock : Clock) : List Property → Reading (List Component)
  | [] => pure []
  | p :: rest =>
    match Component.parse p.value start clock with
    | .ok c => do pure (c :: (← readComponents start clock rest))
    | .error (.unreadable why) => do
      note (entry Level.warning "recurrence.rule.dropped"
        [("rule", textFact p.value), ("error", textFact why.message)])
      readComponents start clock rest
    | .error e => lift (.error e)

/-- The further and the excluded dates, in the order in which they are given. -/
def dateLists (clock : Clock) : List Property → Reading (List Moment × List Moment)
  | [] => pure ([], [])
  | p :: rest => do
    if p.isNamed "RDATE" then
      let ms ← moments p clock
      let (dates, excluded) ← dateLists clock rest
      pure (ms ++ dates, excluded)
    else if p.isNamed "EXDATE" then
      let ms ← moments p clock
      let (dates, excluded) ← dateLists clock rest
      pure (dates, ms ++ excluded)
    else dateLists clock rest

/-- The zone of a schedule: the one asked for, or else the one of the start. -/
def zoneOf (zoneName : Option Text) (start : Property) : Except Fault (Option Zone) :=
  match zoneName, start.parameter? "TZID" with
  | some (c :: name), _ => some <$> Instant.loadZone (c :: name)
  | _, some name => some <$> Instant.loadZone name
  | _, none => .ok none

/-- The start of a schedule on the clock of its zone. -/
def startOf (value : Text) (zone : Option Zone) : Except Fault Moment := do
  let start ← Instant.parse value (clockOf zone)
  match zone with
  | none => pure start
  | some z =>
    match start.on? (.zoned z) with
    | some m => pure m
    | none => throw .beyondCalendar

/-- Reads a calendar text. A zone name that is not empty takes the place of the zone that the start
names. -/
def parse (text : Text) (zoneName : Option Text) : Reading Descriptor := do
  let properties ← lift (Property.ofEvent text)
  let some startProperty := properties.find? (·.isNamed "DTSTART")
    | lift (.error (.unreadable .missingStart))
  let zone ← lift (zoneOf zoneName startProperty)
  let clock := clockOf zone
  let start ← lift (startOf startProperty.value zone)
  let rules := properties.filter (·.isNamed "RRULE")
  let kept ← readComponents start clock rules
  if !rules.isEmpty && kept.isEmpty then lift (.error (.unreadable (.noValidRule text)))
  let kept := if rules.isEmpty then [Component.once] else kept
  let (dates, excluded) ← dateLists clock properties
  let dates := Moment.distinct dates
  note (entry Level.debug "recurrence.parsed"
    [("start", textFact start.render), ("rules", .int kept.length), ("rdates", .int dates.length)])
  pure ⟨start, zone, kept, Moment.sort dates, Moment.distinct excluded⟩

end Descriptor

end ScanPolicy
