import ScanPolicy.Zone.Basic
import ScanPolicy.Text.Basic

/-!
# Moments

A moment is a wall time read on the clock of a zone, or on the universal clock. Three relations
between moments have to be told apart:

- the *order* (`Moment.before`): two moments of one clock are ordered by what the clock shows, two
  moments of different clocks by their instants;
- the *instant* (`Moment.instant`): the point of universal time;
- *sameness* (`Moment.same`): moments of one clock are the same if it shows the same; moments of
  different clocks are the same if they have one instant and neither offset depends on the fold.

Adding a span moves the wall time and drops the fold. Converting to another clock keeps the
instant; converting to the clock that a moment already has changes nothing.
-/

namespace ScanPolicy

/-- The clock on which a wall time is read. -/
inductive Clock where
  | universal
  | zoned (zone : Zone)

namespace Clock

/-- Whether two clocks are the same; zones are known by their names. -/
def same : Clock → Clock → Bool
  | universal, universal => true
  | zoned a, zoned b => a.name == b.name
  | _, _ => false

/-- The name of a zone, none for the universal clock. -/
def name? : Clock → Option String
  | universal => none
  | zoned z => some z.name

end Clock

/-- A wall time read on a clock. -/
structure Moment where
  wall : WallTime
  clock : Clock
  /-- Whether the second one of two equal readings is meant. -/
  fold : Bool

namespace Moment

/-- The offset of the clock with a fold, in seconds. -/
def offsetWith (m : Moment) (fold : Bool) : Int :=
  match m.clock with
  | .universal => 0
  | .zoned z => z.offsetAt m.wall fold

/-- The offset of the clock, in seconds. -/
def offset (m : Moment) : Int := m.offsetWith m.fold

/-- The point of universal time, in microseconds since the first midnight. -/
def instant (m : Moment) : Int := m.wall.ticks - m.offset * Span.second

/-- The point of universal time of the first one of two equal readings. -/
def firstInstant (m : Moment) : Int := m.wall.ticks - m.offsetWith false * Span.second

/-- Whether the offset depends on the fold: the wall time is shown twice, or never. -/
def isProblematic (m : Moment) : Bool := m.offsetWith true != m.offsetWith false

/-! ## Relations -/

/-- How far `a` is after `b`: on the wall of a common clock, or else between the instants. -/
def since (a b : Moment) : Int :=
  if a.clock.same b.clock then a.wall.ticks - b.wall.ticks else a.instant - b.instant

/-- Whether `a` comes before `b`. -/
def before (a b : Moment) : Bool := a.since b < 0

/-- Whether `a` comes before `b` or at the same reading or instant. -/
def notAfter (a b : Moment) : Bool := a.since b ≤ 0

/-- Whether two moments are the same. -/
def same (a b : Moment) : Bool :=
  if a.clock.same b.clock then a.wall.ticks == b.wall.ticks
  else a.instant == b.instant && !a.isProblematic && !b.isProblematic

/-- Whether two moments count as one member of a set. -/
def coincides (a b : Moment) : Bool := a.firstInstant == b.firstInstant && a.same b

/-- Whether a moment counts as a member of a list. -/
def isIn (m : Moment) (ms : List Moment) : Bool := ms.any fun x => m.coincides x

/-- The moments of a list, each one once, those that occur later coming first. -/
def distinct (ms : List Moment) : List Moment :=
  ms.foldl (fun seen m => if m.isIn seen then seen else m :: seen) []

/-- The moments in order; those of which neither comes before the other stay as they are. -/
def sort (ms : List Moment) : List Moment := ms.mergeSort fun a b => !b.before a

/-! ## Movement -/

/-- A span later on the wall of the clock. -/
def add? (m : Moment) (span : Int) : Option Moment :=
  (m.wall.add? span).map fun t => ⟨t, m.clock, false⟩

/-- The reading of a clock at a wall time of the universal clock. -/
def ofUniversal? (clock : Clock) (t : WallTime) : Option Moment :=
  match clock with
  | .universal => some ⟨t, clock, false⟩
  | .zoned z =>
    let (offset, fold) := z.ofUniversal t
    (t.add? (offset * Span.second)).map fun w => ⟨w, clock, fold⟩

/-- The same instant on another clock, unless it leaves the calendar on the way. -/
def on? (m : Moment) (clock : Clock) : Option Moment :=
  if m.clock.same clock then some m
  else (WallTime.ofTicks? m.instant).bind (ofUniversal? clock)

/-- The same instant on the universal clock. -/
def universal? (m : Moment) : Option Moment := m.on? .universal

/-! ## Text -/

/-- The digits of a number, padded with zeros. -/
def padded (width n : Nat) : Text :=
  let digits := Text.ofNat n
  List.replicate (width - digits.length) '0' ++ digits

/-- An offset: sign, hours and minutes, and seconds if there are any. -/
def offsetText (offset : Int) : Text :=
  let n := offset.natAbs
  (if offset < 0 then '-' else '+') :: padded 2 (n / 3600) ++ ':' :: padded 2 (n / 60 % 60) ++
    (if n % 60 = 0 then [] else ':' :: padded 2 (n % 60))

/-- Date, time, part of a second if there is one, and offset. -/
def render (m : Moment) : Text :=
  let d := m.wall.date
  padded 4 d.year ++ '-' :: padded 2 d.month ++ '-' :: padded 2 d.day ++ 'T' ::
    padded 2 m.wall.hour ++ ':' :: padded 2 m.wall.minute ++ ':' :: padded 2 m.wall.second ++
    (if m.wall.microsecond = 0 then [] else '.' :: padded 6 m.wall.microsecond) ++
    offsetText m.offset

end Moment

end ScanPolicy
