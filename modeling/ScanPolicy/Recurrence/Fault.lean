import ScanPolicy.Text.Quoted
import ScanPolicy.Text.Case

/-!
# Faults of schedules

What can be wrong with a schedule, as causes. A schedule that cannot be read is an
`Unreadable`; a computation on a schedule that breaks off is a `Fault`.

- `RuleFault`: what is wrong with a recurrence rule.
- `Unreadable`: what is wrong with a calendar text, and its message.
- `Fault`: why a computation breaks off; `Fault.endsSearch` singles out the faults that only mean
  that a rule has no further date.
-/

namespace ScanPolicy

/-- What is wrong with a recurrence rule. -/
inductive RuleFault where
  /-- The text holds no rule. -/
  | emptyText
  /-- A property that is no recurrence property. -/
  | unsupportedProperty (name : Text)
  /-- A property with a parameter that it cannot have. -/
  | unsupportedParameter (property parameter : Text)
  /-- A rule that starts with the name of another property. -/
  | notARule
  /-- A date in no known form. -/
  | unknownDateForm (value : Text)
  /-- Where two values are expected, there is only the given number, or there are more. -/
  | tooFewValues (got : Nat)
  | tooManyValues
  /-- A part of which the name is unknown. -/
  | unknownPart (name : Text)
  /-- A part with a value that it cannot have. -/
  | invalidPart (name value : Text)
  /-- A position in a set beyond the number of days of a year, or zero. -/
  | positionOutOfRange
  /-- No hour or minute of the rule is ever reached with its interval. -/
  | emptySet
  /-- No minute of the rule ever falls into one of its hours. -/
  | noCommonHour
  | hourOutOfRange
  | minuteOutOfRange
  | secondOutOfRange
  | yearOutOfRange (year : Int)
deriving DecidableEq, Repr

namespace RuleFault

/-- The words for a fault. -/
def message : RuleFault → Text
  | emptyText => "empty string".toList
  | unsupportedProperty name => "unsupported property: ".toList ++ name
  | unsupportedParameter property parameter =>
    "unsupported ".toList ++ property ++ " parm: ".toList ++ parameter
  | notARule => "unknown parameter name".toList
  | unknownDateForm value => "Unknown string format: ".toList ++ value
  | tooFewValues got =>
    "not enough values to unpack (expected 2, got ".toList ++ Text.ofNat got ++ ")".toList
  | tooManyValues => "too many values to unpack (expected 2)".toList
  | unknownPart name => "unknown parameter '".toList ++ name ++ "'".toList
  | invalidPart name value => "invalid '".toList ++ name ++ "': ".toList ++ value
  | positionOutOfRange =>
    "bysetpos must be between 1 and 366, or between -366 and -1".toList
  | emptySet => "Invalid rrule byxxx generates an empty set.".toList
  | noCommonHour =>
    "Invalid combination of interval and byhour resulting in empty rule.".toList
  | hourOutOfRange => "hour must be in 0..23".toList
  | minuteOutOfRange => "minute must be in 0..59".toList
  | secondOutOfRange => "second must be in 0..59".toList
  | yearOutOfRange year => "year ".toList ++ Text.ofInt year ++ " is out of range".toList

end RuleFault

/-- What is wrong with a calendar text. -/
inductive Unreadable where
  /-- A content line without a colon. -/
  | malformedLine (line : Text)
  /-- No property gives the start. -/
  | missingStart
  | unknownZone (name : Text)
  | malformedInstant (value : Text)
  /-- A part of a rule without an equals sign. -/
  | malformedPart (part : Text)
  | unsupportedFrequency (name : Text)
  /-- A part that has to be a positive number, and its value. -/
  | notPositive (part : String) (value : Text)
  | countAndUntil (rule : Text)
  | refusedRule (why : RuleFault) (rule : Text)
  /-- None of the rules of a text is valid. -/
  | noValidRule (text : Text)
deriving DecidableEq, Repr

namespace Unreadable

/-- The words for the cause. -/
def reason : Unreadable → Text
  | malformedLine _ => "malformed content line".toList
  | missingStart => "missing DTSTART".toList
  | unknownZone _ => "unknown timezone".toList
  | malformedInstant _ => "malformed date-time".toList
  | malformedPart _ => "malformed rule part".toList
  | unsupportedFrequency _ => "unsupported frequency".toList
  | notPositive part _ => part.toList ++ " must be a positive integer".toList
  | countAndUntil _ => "COUNT and UNTIL are mutually exclusive".toList
  | refusedRule why _ => why.message
  | noValidRule _ => "no valid recurrence rule".toList

/-- The text at fault, if a text is. -/
def token? : Unreadable → Option Text
  | malformedLine t | unknownZone t | malformedInstant t | malformedPart t => some t
  | unsupportedFrequency t | countAndUntil t | noValidRule t => some t
  | notPositive _ t => some t
  | refusedRule _ t => some t
  | missingStart => none

/-- The cause, and the text at fault if a text is. -/
def message (u : Unreadable) : Text :=
  match u.token? with
  | some t => u.reason ++ ':' :: ' ' :: Text.quoted t
  | none => u.reason

end Unreadable

/-- Why a computation on a schedule breaks off. -/
inductive Fault where
  /-- The text cannot be read. -/
  | unreadable (why : Unreadable)
  /-- A rule is at fault. -/
  | rule (why : RuleFault)
  /-- A number with more digits than can be read. -/
  | longNumeral (digits : Nat)
  /-- A number of further occurrences below zero. -/
  | negativeOffset (offset : Int)
  /-- A moment or a span beyond the calendar, or a number beyond the machine's. -/
  | beyondCalendar
  /-- A day counted from a weekday or from Easter beyond the days of its year. -/
  | beyondYear
  /-- An hour or a minute that is never reached. -/
  | neverReached
  /-- A rule among several that has no frequency. -/
  | missingFrequency
  /-- Several rules in one text cannot be changed as one rule. -/
  | severalRules
  /-- The name of a group of zones where a zone is expected. -/
  | zoneFolder
deriving DecidableEq, Repr

namespace Fault

/-- Whether the fault only means that a search for a date finds none. -/
def endsSearch : Fault → Bool
  | unreadable _ | rule _ | longNumeral _ | negativeOffset _ | beyondCalendar => true
  | beyondYear | neverReached | missingFrequency | severalRules | zoneFolder => false

end Fault

end ScanPolicy
