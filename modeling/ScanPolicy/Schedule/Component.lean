import ScanPolicy.Recurrence.RuleText
import ScanPolicy.Schedule.Instant

/-!
# Components of a schedule

A component is one recurrence rule of a schedule, or the single date of an event without rules. Its
frequency, interval, count and last moment are read here; the other parts only as a whole, together
with the rest of the rule.

- `Component`: a rule with the names of its expanding parts.
- `Component.parse`: reads the value of a rule property.
- `Component.once`: the component of an event without rules.
-/

namespace ScanPolicy

/-- One recurrence rule of a schedule. -/
structure Component where
  /-- None for a single date. -/
  freq : Option Frequency
  interval : Nat
  count : Option Nat
  bound : Option Moment
  /-- The names of the parts that expand or limit the dates, as given. -/
  expanders : List Text
  rules : Option Rules

namespace Component

/-- The single date of an event without rules. -/
def once : Component := ⟨none, 1, some 1, none, [], none⟩

/-- Write a part: a known one keeps its place, a new one comes last. -/
def setPart (key value : Text) : List (Text × Text) → List (Text × Text)
  | [] => [(key, value)]
  | (k, v) :: rest => if k = key then (k, value) :: rest else (k, v) :: setPart key value rest

/-- The parts of a rule, each name once with its last value. -/
def partsFrom (acc : List (Text × Text)) : List Text → Except Fault (List (Text × Text))
  | [] => .ok acc
  | raw :: rest =>
    if Text.allBlank raw then partsFrom acc rest
    else match Text.cut '=' raw with
      | (_, none) => .error (.unreadable (.malformedPart raw))
      | (key, some value) =>
        partsFrom (setPart (Text.upper (Text.trim key)) (Text.trim value) acc) rest

/-- The parts of a rule. -/
def parts (value : Text) : Except Fault (List (Text × Text)) :=
  partsFrom [] (Text.pieces ';' value)

/-- The value of a part. -/
def part? (parts : List (Text × Text)) (name : String) : Option Text := parts.lookup name.toList

/-- A number of at least one in ASCII digits. -/
def positive (name : String) (value : Text) : Except Fault Nat :=
  match Text.asciiNat? value with
  | none => .error (.unreadable (.notPositive name value))
  | some n =>
    if Text.numeralLimit < value.length then .error (.longNumeral value.length)
    else if n = 0 then .error (.unreadable (.notPositive name value))
    else .ok n

/-- The text of parts. -/
def joinParts (parts : List (Text × Text)) : Text :=
  List.intercalate [';'] (parts.map fun (k, v) => k ++ '=' :: v)

/-- The faults of a rule text make the rule unreadable, except those that break off its reading. -/
def refuse {α : Type} (value : Text) : Except Fault α → Except Fault α
  | .error (.rule why) => .error (.unreadable (.refusedRule why value))
  | other => other

/-- The rules with a last moment. -/
def Rules.withBound : Rules → Option Moment → Except Fault Rules
  | rules, none => .ok rules
  | .single r, some bound => (r.withUntil bound).map .single
  | .several .., some _ => .error .severalRules

/-- Reads the value of a rule property for an event that starts at `start`; a last moment without
offset is read on `clock`. -/
def parse (value : Text) (start : Moment) (clock : Clock) : Except Fault Component := do
  let all ← parts value
  let name := Text.upper ((part? all "FREQ").getD [])
  let some freq := Frequency.ofName? name | throw (.unreadable (.unsupportedFrequency name))
  let interval ← positive "INTERVAL" ((part? all "INTERVAL").getD ['1'])
  let count ← match part? all "COUNT" with
    | some v => some <$> positive "COUNT" v
    | none => pure none
  let bound ← match part? all "UNTIL" with
    | some v => some <$> Instant.parse v clock
    | none => pure none
  if count.isSome && bound.isSome then throw (.unreadable (.countAndUntil value))
  let rest := all.filter fun (k, _) => k != "UNTIL".toList
  let rules ← refuse value do
    Rules.withBound (← RuleText.read start (joinParts rest)) bound
  pure {
    freq := some freq
    interval, count, bound
    expanders := (rest.map Prod.fst).filter (Text.startsWith "BY".toList)
    rules := some rules }

end Component

end ScanPolicy
