import ScanPolicy.Recurrence.Walk
import ScanPolicy.Text.Numeral

/-!
# Texts of recurrence rules

A rule text is read in upper case and cut at its blanks. One piece gives one rule; of several
pieces, and of pieces that begin with the name of a property, each gives a rule or a rule whose
dates are excluded.

- `RuleText.readParts`: the parts of one rule.
- `RuleText.read`: one rule, or several.
-/

namespace ScanPolicy

/-- The rules that one text gives: one rule, or several whose dates are taken together. -/
inductive Rules where
  | single (rule : Rule)
  | several (rules excluded : List Rule)

namespace RuleText

/-- The parts of a rule as far as they are read. -/
structure Draft where
  freq : Option Frequency := none
  interval : Int := 1
  count : Option Int := none
  weekStart : Nat := 0
  parts : Parts := {}

/-- The names of the weekdays, Monday first. -/
def weekdayNames : List Text := ["MO", "TU", "WE", "TH", "FR", "SA", "SU"].map String.toList

/-- The weekday with a name. -/
def weekday? (t : Text) : Option Nat := weekdayNames.idxOf? t

/-- A list of integers. -/
def ints? (t : Text) : Option (List Int) := (Text.pieces ',' t).mapM Text.toInt?

/-- Whether a character may belong to the number before a weekday. -/
def isNumberChar (c : Char) : Bool := c.isDigit || c = '+' || c = '-'

/-- The number and the name of a weekday with its number in front. The name has at least one
character. -/
def splitNumbered (t : Text) : Text × Text :=
  let number := t.takeWhile isNumberChar
  if number.length = t.length then (t.dropLast, t.drop (t.length - 1))
  else (number, t.drop number.length)

/-- The text after the first opening bracket up to the next one, its last character dropped. -/
def bracketed (t : Text) : Text := (Text.cut '(' t).1.dropLast

/-- A weekday with or without a number, which stands in front of it or in brackets after it and is
not zero. -/
def weekdayPart? (t : Text) : Option WeekdayPart :=
  let (name, number) := match Text.cut '(' t with
    | (name, some rest) => (name, some (bracketed rest))
    | (_, none) =>
      let (number, name) := splitNumbered t
      (name, if number.isEmpty then none else some number)
  match weekday? name, number with
  | some w, none => some ⟨w, none⟩
  | some w, some number =>
    match Text.toInt? number with
    | some n => if n = 0 then none else some ⟨w, some n⟩
    | none => none
  | none, _ => none

/-- The parts whose value is a list of integers, and how they are set. -/
def intLists : List (String × (List Int → Parts → Parts)) := [
  ("BYSETPOS", fun v p => { p with positions := some v }),
  ("BYMONTH", fun v p => { p with months := some v }),
  ("BYMONTHDAY", fun v p => { p with monthDays := some v }),
  ("BYYEARDAY", fun v p => { p with yearDays := some v }),
  ("BYEASTER", fun v p => { p with easters := some v }),
  ("BYWEEKNO", fun v p => { p with weekNumbers := some v }),
  ("BYHOUR", fun v p => { p with hours := some v }),
  ("BYMINUTE", fun v p => { p with minutes := some v }),
  ("BYSECOND", fun v p => { p with seconds := some v })]

/-- The draft with one more part, if its value is one that it can have. -/
def setPart? (name : String) (value : Text) (d : Draft) : Option (Option Draft) :=
  match name with
  | "FREQ" => some ((Frequency.ofName? value).map fun f => { d with freq := some f })
  | "INTERVAL" => some ((Text.toInt? value).map fun n => { d with interval := n })
  | "COUNT" => some ((Text.toInt? value).map fun n => { d with count := some n })
  | "UNTIL" => some none
  | "WKST" => some ((weekday? value).map fun w => { d with weekStart := w })
  | "BYDAY" | "BYWEEKDAY" =>
    some (((Text.pieces ',' value).mapM weekdayPart?).map fun ws =>
      { d with parts := { d.parts with weekdays := some ws } })
  | _ =>
    match intLists.lookup name with
    | some set => some ((ints? value).map fun v => { d with parts := set v d.parts })
    | none => none

/-- The draft with the part that a text of name and value gives. -/
def addPart (d : Draft) (pair : Text) : Except Fault Draft :=
  match Text.pieces '=' pair with
  | [name, value] =>
    match setPart? (String.ofList name) value d with
    | none => .error (.rule (.unknownPart name))
    | some none => .error (.rule (.invalidPart name value))
    | some (some d) => .ok d
  | other =>
    if other.length < 2 then .error (.rule (.tooFewValues other.length))
    else .error (.rule .tooManyValues)

/-- The parts of one rule. -/
def readParts (t : Text) : Except Fault Draft := (Text.pieces ';' t).foldlM addPart {}

/-- A rule from its draft. -/
def Draft.toRule (d : Draft) (anchor : Moment) : Except Fault Rule :=
  match d.freq with
  | none => .error .missingFrequency
  | some f => Rule.ofParts f anchor d.interval.toNat d.weekStart (d.count.map Int.toNat) none d.parts

/-- One rule; the name of the property may stand before it. -/
def readRule (anchor : Moment) (t : Text) : Except Fault Rule := do
  let body ← match Text.pieces ':' t with
    | [body] => pure body
    | [name, body] => if name = "RRULE".toList then pure body else throw (.rule .notARule)
    | _ => throw (.rule .tooManyValues)
  (← readParts body).toRule anchor

/-- What a piece of a rule text stands for. -/
inductive Piece where
  | rule (body : Text)
  | excludedRule (body : Text)
  | dates (body : Text)

/-- A piece; a piece without a name is a rule. -/
def readPiece (t : Text) : Except Fault Piece :=
  let (name, body) := match Text.cut ':' t with
    | (name, some body) => (name, body)
    | (_, none) => ("RRULE".toList, t)
  match Text.pieces ';' name with
  | [] => .error (.rule .emptyText)
  | property :: parameters =>
    match String.ofList property, parameters with
    | "RRULE", [] => .ok (.rule body)
    | "EXRULE", [] => .ok (.excludedRule body)
    | "RDATE", [] => .ok (.dates body)
    | "RRULE", p :: _ | "EXRULE", p :: _ | "RDATE", p :: _ =>
      .error (.rule (.unsupportedParameter property p))
    | "EXDATE", _ | "DTSTART", _ => .error (.rule (.unknownDateForm body))
    | _, _ => .error (.rule (.unsupportedProperty property))

/-- The rules of several pieces. Dates given beside rules are in no known form. -/
def readPieces (anchor : Moment) (pieces : List Text) : Except Fault Rules := do
  let pieces ← pieces.mapM readPiece
  let rules := pieces.filterMap fun | .rule body => some body | _ => none
  let excluded := pieces.filterMap fun | .excludedRule body => some body | _ => none
  let dates := pieces.filterMap fun | .dates body => some body | _ => none
  match rules, excluded, dates with
  | [body], [], [] => return .single (← readRule anchor body)
  | _, _, _ =>
    let rules ← rules.mapM (readRule anchor)
    match dates with
    | body :: _ => throw (.rule (.unknownDateForm body))
    | [] => return .several rules (← excluded.mapM (readRule anchor))

/-- The rules of a text. -/
def read (anchor : Moment) (text : Text) : Except Fault Rules :=
  let t := Text.upper text
  match Text.words t with
  | [] => .error (.rule .emptyText)
  | [piece] =>
    if !t.contains ':' || Text.startsWith "RRULE:".toList t then
      return .single (← readRule anchor piece)
    else readPieces anchor [piece]
  | pieces => readPieces anchor pieces

end RuleText

end ScanPolicy
