import ScanPolicy.Recurrence.Period

/-!
# Walking through the dates of rules

A walk yields the dates of a rule one after the other, and nothing is computed before it is asked
for: a fault of a later period does not touch the dates before it. A step of a walk may yield a
date or be silent, so that every step is short and a walk can be cut off anywhere.

- `Step`: the outcome of one step.
- `Walk.step`: one step through the dates of a rule.
- `RuleSet.step`: one step through the dates of several rules in order, each date once, without the
  excluded dates.
- `search`: the first, second, … yielded date after a moment; `take`: the first dates.
-/

namespace ScanPolicy

/-- The outcome of one step: the end, a silent step, or a date. -/
inductive Step (σ : Type) where
  | done
  | silent (next : σ)
  | emit (date : Moment) (next : σ)

/-! ## One rule -/

/-- Where a walk stands. -/
inductive Walk.Place where
  /-- Before a period; the anchor's own period is the first one. -/
  | before (period : Period) (isFirst : Bool)
  /-- Within a period, its dates that are left, and the fault after them. -/
  | within (period : Period) (skipsDay : Bool) (left : List WallTime) (fault : Option Fault)
  | over

/-- A walk through the dates of a rule; `left` is what is left of the count. -/
structure Walk where
  rule : Rule
  place : Walk.Place
  left : Option Nat

namespace Walk

/-- The walk from the anchor on. -/
def ofRule (r : Rule) : Walk := ⟨r, .before r.firstPeriod true, r.count⟩

/-- The layout of the year and the times of a period; of two faults, the layout's comes first for
the first period and last for the others. -/
def layout (r : Rule) (p : Period) (isFirst : Bool) : Except Fault (YearFrame × List TimeOfDay) :=
  let (year, month) := p.yearMonth
  if isFirst then do
    let f ← r.frame year month
    pure (f, ← r.timesIn p)
  else do
    let times ← r.timesIn p
    pure (← r.frame year month, times)

/-- Whether a date is after the last moment of a rule. -/
def isPast (r : Rule) (date : Moment) : Bool :=
  match r.bound with
  | some last => last.before date
  | none => false

/-- One step through the dates of a rule. -/
def step (w : Walk) : Except Fault (Step Walk) :=
  match w.place with
  | .over => .ok .done
  | .before p isFirst =>
    match layout w.rule p isFirst with
    | .error e => .error e
    | .ok (f, times) =>
      let (dates, skipsDay) := w.rule.datesIn f p times
      .ok (.silent { w with place := .within p skipsDay dates.times dates.fault })
  | .within p skipsDay [] none =>
    match w.rule.nextPeriod skipsDay p with
    | .more next => .ok (.silent { w with place := .before next false })
    | .done => .ok .done
    | .failed e => .error e
  | .within _ _ [] (some e) => .error e
  | .within p skipsDay (t :: rest) fault =>
    let date : Moment := ⟨t, w.rule.anchor.clock, false⟩
    let w := { w with place := .within p skipsDay rest fault }
    if isPast w.rule date then .ok .done
    else if t.ticks < w.rule.anchor.wall.ticks then .ok (.silent w)
    else match w.left with
      | none => .ok (.emit date w)
      | some 0 => .ok .done
      | some (n + 1) => .ok (.emit date { w with left := some n })

end Walk

/-! ## Several rules -/

/-- A sorted source of dates among others: the dates still to come, the next one known or not. -/
inductive Lane where
  | waiting (walk : Walk)
  | ready (date : Moment) (walk : Walk)

namespace Lane

/-- The next date, if it is known. -/
def date? : Lane → Option Moment
  | waiting _ => none
  | ready m _ => some m

/-- A lane whose next date is not known does one step; nothing is left of it at its end. -/
def advance (w : Walk) : Except Fault (List Lane) := do
  match ← w.step with
  | .done => pure []
  | .silent w => pure [waiting w]
  | .emit m w => pure [ready m w]

/-- The first lane whose next date is not known does one step; nothing if all are known. -/
def advanceFirst : List Lane → Except Fault (Option (List Lane))
  | [] => .ok none
  | waiting w :: rest => do pure (some ((← advance w) ++ rest))
  | ready m w :: rest => do
    match ← advanceFirst rest with
    | none => pure none
    | some lanes => pure (some (ready m w :: lanes))

/-- The earliest known date, its walk, and the other lanes; of equal dates the first one. -/
def earliest : List Lane → Option (Moment × Walk × List Lane)
  | [] => none
  | waiting w :: rest => (earliest rest).map fun (m, v, lanes) => (m, v, waiting w :: lanes)
  | ready m w :: rest =>
    match earliest rest with
    | none => some (m, w, rest)
    | some (n, v, lanes) =>
      if n.before m then some (n, v, ready m w :: lanes) else some (m, w, rest)

end Lane

/-- Several rules, rules that exclude dates, and excluded dates in order. -/
structure RuleSet where
  lanes : List Lane
  excludedLanes : List Lane
  excluded : List Moment
  /-- The last date that was looked at. -/
  last : Option Moment

namespace RuleSet

/-- The walk through some rules without the dates of others and without the given dates. -/
def ofRules (rules excludedRules : List Rule) (excluded : List Moment) : RuleSet where
  lanes := rules.map fun r => .waiting (Walk.ofRule r)
  excludedLanes := excludedRules.map fun r => .waiting (Walk.ofRule r)
  excluded := Moment.sort excluded
  last := none

/-- Whether a date is the same as the last one. -/
def repeats (last : Option Moment) (date : Moment) : Bool := last.any (·.same date)

/-- One step. The earliest date of all lanes is next. A repeated date is passed over; before a new
one is yielded, the excluded dates that come before it are dropped, and it is passed over if the
first one that is left is the same. -/
def step (s : RuleSet) : Except Fault (Step RuleSet) := do
  match ← Lane.advanceFirst s.lanes with
  | some lanes => pure (.silent { s with lanes })
  | none =>
    match ← Lane.advanceFirst s.excludedLanes with
    | some lanes => pure (.silent { s with excludedLanes := lanes })
    | none =>
      match Lane.earliest s.lanes with
      | none => pure .done
      | some (date, walk, others) =>
        let passed := { s with lanes := .waiting walk :: others }
        if repeats s.last date then pure (.silent passed)
        else
          let excluded := s.excluded.dropWhile (·.before date)
          match Lane.earliest s.excludedLanes with
          | some (first, exWalk, exOthers) =>
            if first.before date then
              pure (.silent { s with excludedLanes := .waiting exWalk :: exOthers })
            else
              let next := { passed with excluded, last := some date }
              if first.same date || (excluded.head?.any (·.same date)) then pure (.silent next)
              else pure (.emit date next)
          | none =>
            let next := { passed with excluded, last := some date }
            if excluded.head?.any (·.same date) then pure (.silent next)
            else pure (.emit date next)

end RuleSet

/-! ## Searching -/

/-- More steps than any walk through the calendar has: every period is at least a minute long, and
a minute has at most sixty dates. -/
def stepLimit : Nat := 2 * 61 * 1440 * Calendar.dayCount

/-- What a search is looking for. -/
inductive Sought where
  /-- The date after `count` further ones. -/
  | after (count : Nat)
  /-- The date is found; one more date is looked at before it is given. -/
  | found (date : Moment)

/-- What a search has when the walk ends. -/
def Sought.result : Sought → Option Moment
  | after _ => none
  | found date => some date

/-- Steps until the sought one of the dates after `now` is found and one more date is looked at, or
until the end. -/
def search {σ : Type} (step : σ → Except Fault (Step σ)) (now : Moment) :
    Nat → Sought → σ → Except Fault (Option Moment)
  | 0, sought, _ => .ok sought.result
  | fuel + 1, sought, s =>
    match step s with
    | .error e => .error e
    | .ok .done => .ok sought.result
    | .ok (.silent s) => search step now fuel sought s
    | .ok (.emit date s) =>
      if now.before date then
        match sought with
        | .found date => .ok (some date)
        | .after 0 => search step now fuel (.found date) s
        | .after (n + 1) => search step now fuel (.after n) s
      else search step now fuel sought s

/-- The first `wanted` dates of a walk. -/
def take {σ : Type} (step : σ → Except Fault (Step σ)) :
    Nat → Nat → σ → Except Fault (List Moment)
  | 0, _, _ => .ok []
  | _, 0, _ => .ok []
  | fuel + 1, wanted + 1, s =>
    match step s with
    | .error e => .error e
    | .ok .done => .ok []
    | .ok (.silent s) => take step fuel (wanted + 1) s
    | .ok (.emit date s) =>
      match take step fuel wanted s with
      | .ok dates => .ok (date :: dates)
      | .error e => .error e

end ScanPolicy
