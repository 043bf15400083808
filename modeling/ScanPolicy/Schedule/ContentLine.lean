import ScanPolicy.Text.Blank
import ScanPolicy.Text.Case
import ScanPolicy.Recurrence.Fault

/-!
# Content lines

A calendar text is a sequence of lines. A long content line may be folded: a line that begins with a
space or a tab continues the line before it. A content line has a name, parameters and a value.

- `ContentLine.physical`: the lines of a text, which may end in LF, CRLF or CR.
- `ContentLine.unfold`: the content lines of a text, blank lines dropped.
- `Property.ofLine`: the property that a content line gives.
- `Property.ofEvent`: the properties of the first event of a text, or of its top level.
-/

namespace ScanPolicy

namespace ContentLine

/-- The lines of a text. -/
def physical : Text → List Text
  | [] => [[]]
  | '\r' :: '\n' :: rest => [] :: physical rest
  | c :: rest =>
    if c = '\r' || c = '\n' then [] :: physical rest
    else match physical rest with
      | [] => [[c]]
      | line :: lines => (c :: line) :: lines

/-- Whether a character at the start of a line continues the line before. -/
def isFold (c : Char) : Bool := c = ' ' || c = '\t'

/-- The content lines of some lines, after the one that is still being read. -/
def unfoldFrom (current : Option Text) : List Text → List Text
  | [] => current.toList
  | raw :: rest =>
    match current, raw with
    | some line, c :: more =>
      if isFold c then unfoldFrom (some (line ++ more)) rest
      else if Text.allBlank raw then unfoldFrom current rest
      else line :: unfoldFrom (some (Text.trim raw)) rest
    | _, _ =>
      if Text.allBlank raw then unfoldFrom current rest
      else current.toList ++ unfoldFrom (some (Text.trim raw)) rest

/-- The content lines of a text. -/
def unfold (t : Text) : List Text := unfoldFrom none (physical t)

end ContentLine

/-- A property: its name and the names of its parameters are in upper case. -/
structure Property where
  name : Text
  parameters : List (Text × Text)
  value : Text
deriving DecidableEq, Repr

namespace Property

/-- A text without the double quotes at its two ends. -/
def unquote (t : Text) : Text := Text.dropEndWhile (· = '"') (t.dropWhile (· = '"'))

/-- A parameter: a name, and a value that may be missing or stand between quotes. -/
def parameter (t : Text) : Text × Text :=
  let (key, value) := Text.cut '=' t
  (Text.upper (Text.trim key), unquote (Text.trim (value.getD [])))

/-- The property that a content line gives. -/
def ofLine (line : Text) : Except Fault Property :=
  match Text.cut ':' line with
  | (_, none) => .error (.unreadable (.malformedLine line))
  | (head, some value) =>
    match Text.pieces ';' head with
    | [] => .ok ⟨[], [], Text.trim value⟩
    | name :: parameters =>
      .ok ⟨Text.upper (Text.trim name), parameters.map parameter, Text.trim value⟩

/-- The value of a parameter; of several with one name the last one counts. -/
def parameter? (p : Property) (name : String) : Option Text :=
  p.parameters.reverse.lookup name.toList

/-- Whether a property has a name. -/
def isNamed (p : Property) (name : String) : Bool := p.name == name.toList

/-- The properties that belong to the first event, `opened` being the components around a line, the
innermost first. Without an event all properties of the top level belong to it, and also those
before the event. Lines after the end of the event are not read. -/
def ofLines (opened : List Text) : List Text → Except Fault (List Property)
  | [] => .ok []
  | line :: rest =>
    match ofLine line with
    | .error e => .error e
    | .ok p =>
      if p.isNamed "BEGIN" then ofLines (Text.upper p.value :: opened) rest
      else if p.isNamed "END" then
        if opened.head? = some "VEVENT".toList then .ok [] else ofLines opened.tail rest
      else if opened.isEmpty || opened.head? = some "VEVENT".toList then
        match ofLines opened rest with
        | .ok ps => .ok (p :: ps)
        | .error e => .error e
      else ofLines opened rest

/-- The properties of the first event of a text, or of its top level. -/
def ofEvent (t : Text) : Except Fault (List Property) := ofLines [] (ContentLine.unfold t)

end Property

end ScanPolicy
