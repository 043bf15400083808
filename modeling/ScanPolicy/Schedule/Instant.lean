import ScanPolicy.Recurrence.Fault
import ScanPolicy.Moment.Basic
import ScanPolicy.Text.DecimalDigit
import ScanPolicy.Zone.Named

/-!
# Instants of calendar texts

A date of eight digits, or a date, `T` and a time of six digits, and possibly `Z` for universal
time. Other forms are read on the clock of a zone, or on the universal clock if there is none.

- `Instant.field?`: a field of two digits within bounds. The first digit is ASCII; the second one
  may be of any script where the whole decade lies within the bounds.
- `Instant.wall?`: the wall time that the digits give.
- `Instant.parse`: a moment from its text.
- `Instant.loadZone`: the zone with a name.
-/

namespace ScanPolicy.Instant

/-- A field of two digits from `low` to `high`. -/
def field? (low high : Nat) (tens ones : Char) : Option Nat :=
  match Text.asciiDigit? tens with
  | none => none
  | some t =>
    let whole := low ≤ 10 * t && 10 * t + 9 ≤ high
    match (if whole then Text.digit? ones else Text.asciiDigit? ones) with
    | some o => if low ≤ 10 * t + o && 10 * t + o ≤ high then some (10 * t + o) else none
    | none => none

/-- A year of four digits of any script. -/
def year? (a b c d : Char) : Option Nat :=
  match Text.digit? a, Text.digit? b, Text.digit? c, Text.digit? d with
  | some a, some b, some c, some d => some (1000 * a + 100 * b + 10 * c + d)
  | _, _, _, _ => none

/-- The date that eight digits give, whether or not it is one of the calendar. -/
def date? : Text → Option Date
  | [y1, y2, y3, y4, m1, m2, d1, d2] =>
    match year? y1 y2 y3 y4, field? 1 12 m1 m2, field? 1 31 d1 d2 with
    | some y, some m, some d => some ⟨y, m, d⟩
    | _, _, _ => none
  | _ => none

/-- Hour, minute and second that six digits give. -/
def time? : Text → Option (Nat × Nat × Nat)
  | [h1, h2, m1, m2, s1, s2] =>
    match field? 0 23 h1 h2, field? 0 59 m1 m2, field? 0 59 s1 s2 with
    | some h, some m, some s => some (h, m, s)
    | _, _, _ => none
  | _ => none

/-- The wall time of a date and a time in digits. -/
def wall? (dateDigits timeDigits : Text) : Option WallTime :=
  match date? dateDigits, time? timeDigits with
  | some d, some (h, m, s) => WallTime.ofFields? d h m s 0
  | _, _ => none

/-- The time of day of a date without one. -/
def midnight : Text := List.replicate 6 '0'

/-- The wall time of a text, and whether it is marked as universal time. -/
def form? (t : Text) : Option (WallTime × Bool) :=
  match t.drop 8 with
  | [] => (wall? t midnight).map (·, false)
  | 'T' :: rest =>
    match rest.drop 6 with
    | [] => (wall? (t.take 8) rest).map (·, false)
    | ['Z'] => (wall? (t.take 8) (rest.take 6)).map (·, true)
    | _ => none
  | _ => none

/-- The moment that a text gives, read on `clock` unless it is marked as universal time. -/
def parse (value : Text) (clock : Clock) : Except Fault Moment :=
  match form? (Text.trim value) with
  | some (wall, true) => .ok ⟨wall, .universal, false⟩
  | some (wall, false) => .ok ⟨wall, clock, false⟩
  | none => .error (.unreadable (.malformedInstant value))

/-- The zone with a name. -/
def loadZone (name : Text) : Except Fault Zone :=
  match Zone.find name with
  | .found z => .ok z
  | .folder => .error .zoneFolder
  | .unknown => .error (.unreadable (.unknownZone name))

end ScanPolicy.Instant
