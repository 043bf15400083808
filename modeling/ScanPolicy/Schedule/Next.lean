import ScanPolicy.Schedule.Plain

/-!
# The next occurrence

The dates of a schedule come from several sources: its rules in the order of the text, and then its
further dates. The source whose first date after a moment is the earliest one gives the answer; of
sources with the same date the first one does. Further occurrences are taken from that source alone.

- `Source.nthAfter`: the first, second, … date of a source after a moment.
- `Source.anchored`: a rule with expanding parts is started shortly before the moment and not at the
  start of the schedule; what it took from the start is kept.
- `Descriptor.next`: the next occurrence of a schedule.
- `Schedule.next`: reads a calendar text and gives the next occurrence.
-/

namespace ScanPolicy

/-- Where dates of a schedule come from. -/
inductive Source where
  | rule (component : Component)
  | dates

namespace Source

/-! ## Rules without expanding parts -/

/-- The `k`-th further occurrence of a plain rule after a moment. -/
def plainNth (d : Descriptor) (c : Component) (now : Moment) (k : Nat) :
    Except Fault (Option Moment) := do
  let first ← Plain.firstIndexAfter d.start c now
  let index := Plain.advance first k (Plain.excludedIndices d c)
  if c.count.any (· ≤ index) then return none
  let o ← Plain.occurrence d.start c index
  if c.bound.any (·.before o) then return none
  return some o

/-! ## Rules with expanding parts -/

/-- The parts that choose days of their own. -/
def dayChoosers : List Text :=
  ["BYWEEKNO", "BYYEARDAY", "BYMONTHDAY", "BYDAY", "BYEASTER"].map String.toList

/-- Whether a part is given. -/
def isGiven (c : Component) (name : String) : Bool := c.expanders.contains name.toList

/-- Gives the parts that a rule takes from the start of the schedule, so that it keeps them wherever
it is started. -/
def pin (start : Moment) (c : Component) (p : Parts) : Parts :=
  let t := start.wall
  let date := t.date
  let choosesDays := c.expanders.any fun e => dayChoosers.contains e
  let p := if choosesDays then p else match c.freq with
    | some .yearly =>
      let p := if isGiven c "BYMONTH" then p else { p with months := some [(date.month : Int)] }
      { p with monthDays := some [(date.day : Int)] }
    | some .monthly => { p with monthDays := some [(date.day : Int)] }
    | some .weekly => { p with weekdays := some [⟨t.weekday, none⟩] }
    | _ => p
  let p := if isGiven c "BYHOUR" || c.freq.any Frequency.isSubDaily then p
    else { p with hours := some [(t.hour : Int)] }
  let p := if isGiven c "BYMINUTE" || c.freq == some .minutely then p
    else { p with minutes := some [(t.minute : Int)] }
  if isGiven c "BYSECOND" then p else { p with seconds := some [(t.second : Int)] }

/-- The rules of a component, started one period before the last one that is over at a moment. A
counted rule is never moved, as its count starts with the schedule. -/
def anchored (start : Moment) (c : Component) (rules : Rules) (now : Moment) : Except Fault Rules :=
  match c.count, c.freq with
  | none, some f => do
    let elapsed ← Plain.elapsedPeriods start c f now
    let index := (elapsed - 1).toNat
    if index = 0 then return rules
    let anchor ← Plain.occurrence start c index
    match rules with
    | .single r => .single <$> r.reanchor anchor (pin start c)
    | .several .. => throw .severalRules
  | _, _ => .ok rules

/-- The walk through the dates of rules without the excluded ones. -/
def walk (rules : Rules) (excluded : List Moment) : RuleSet :=
  match rules with
  | .single r => RuleSet.ofRules [r] [] excluded
  | .several rs exs => RuleSet.ofRules rs exs excluded

/-- The `k`-th further date of a rule with expanding parts after a moment. -/
def expandedNth (d : Descriptor) (c : Component) (rules : Rules) (now : Moment) (k : Nat) :
    Except Fault (Option Moment) := do
  let rules ← anchored d.start c rules now
  search RuleSet.step now stepLimit (.after k) (walk rules d.excluded)

/-! ## Further dates -/

/-- The place after the last date that is not after `now`, by halving between `low` and `high`. -/
def placeAfter (now : Moment) (dates : Array Moment) (low high : Nat) : Nat :=
  if low < high then
    let middle := (low + high) / 2
    match dates[middle]? with
    | some m =>
      if now.before m then placeAfter now dates low middle
      else placeAfter now dates (middle + 1) high
    | none => low
  else low
termination_by high - low

/-- The `k`-th further date after a moment among the dates that are not excluded. -/
def datesNth (d : Descriptor) (now : Moment) (k : Nat) : Option Moment :=
  let dates := (d.dates.filter fun m => !m.isIn d.excluded).toArray
  dates[placeAfter now dates 0 dates.size + k]?

/-! ## All sources -/

/-- Faults that end a search mean that there is no date. -/
def orNone : Except Fault (Option Moment) → Except Fault (Option Moment)
  | .error e => if e.endsSearch then .ok none else .error e
  | other => other

/-- The `k`-th further date of a source after a moment. -/
def nthAfter (d : Descriptor) (s : Source) (now : Moment) (k : Nat) :
    Except Fault (Option Moment) :=
  match s with
  | .dates => .ok (datesNth d now k)
  | .rule c =>
    match c.expanders, c.rules with
    | _ :: _, some rules => orNone (expandedNth d c rules now k)
    | _, _ => orNone (plainNth d c now k)

end Source

namespace Descriptor

/-- The sources of a schedule in order. -/
def sources (d : Descriptor) : List Source :=
  d.components.map .rule ++ if d.dates.isEmpty then [] else [.dates]

/-- The first dates of the sources after a moment, with their sources. -/
def candidates (d : Descriptor) (now : Moment) :
    List Source → Except Fault (List (Moment × Source))
  | [] => .ok []
  | s :: rest => do
    let first ← s.nthAfter d now 0
    let more ← candidates d now rest
    pure (first.toList.map (·, s) ++ more)

/-- The earliest candidate, of equal ones the first. -/
def earliest : List (Moment × Source) → Option (Moment × Source)
  | [] => none
  | c :: rest => some (rest.foldl (fun best c => if c.1.before best.1 then c else best) c)

/-- The next occurrence after a moment on the universal clock, moved forward by `offset` further
occurrences of the source that gives it. -/
def next (d : Descriptor) (now : Moment) (offset : Int) : Except Fault (Option Moment) := do
  if offset < 0 then throw (.negativeOffset offset)
  match earliest (← candidates d now d.sources) with
  | none => return none
  | some (first, source) =>
    let chosen ← if offset = 0 then pure (some first) else source.nthAfter d now offset.toNat
    match chosen with
    | none => return none
    | some m => some <$> within m.universal?

end Descriptor

namespace Schedule

/-- The next occurrence of the schedule that a calendar text gives; a text that cannot be read gives
none. -/
def next (text : Text) (zoneName : Option Text) (offset : Int) (now : Moment) :
    Descriptor.Reading (Option Moment) :=
  if offset < 0 then Descriptor.lift (.error (.negativeOffset offset))
  else ExceptT.mk do
    match ← (Descriptor.parse text zoneName).run with
    | .ok d => pure (d.next now offset)
    | .error (.unreadable why) =>
      .noting (.ok none) (Descriptor.entry Level.debug "recurrence.invalid"
        [("error", Descriptor.textFact why.message)])
    | .error e => pure (.error e)

end Schedule

end ScanPolicy
