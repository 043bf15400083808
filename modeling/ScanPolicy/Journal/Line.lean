import ScanPolicy.Journal.Basic
import ScanPolicy.Json.Display
import ScanPolicy.Json.Printer
import ScanPolicy.Text.Blank
import ScanPolicy.Text.Case

/-!
# Journal lines

An entry is written as one line: an object with the time, the level, the writer, the message and the
facts. Facts may write over the fields before them. Entries below a level are not written, and
neither are those of level zero or less.

- `Level.ofName`: the level with a name.
- `Level.isWritten`: whether entries of a level are written.
- `Entry.fields`: the fields of an entry.
- `Record.line?`: the line of a record.
-/

namespace ScanPolicy

namespace Level

/-- The names of levels; the first name of a level is the one that is written. -/
def names : List (String × Level) := [
  ("CRITICAL", critical), ("FATAL", critical), ("ERROR", error), ("WARNING", warning),
  ("WARN", warning), ("INFO", info), ("DEBUG", debug), ("NOTSET", 0)]

/-- The level with a name, whatever its case and the blanks around it; unknown names stand for the
level of information. -/
def ofName (name : Text) : Level :=
  (names.lookup (String.ofList (Text.upper (Text.trim name)))).getD info

/-- The name of a level. -/
def name (level : Level) : String :=
  match names.find? fun (_, l) => l == level with
  | some (name, _) => name
  | none => String.ofList ("Level ".toList ++ Text.ofInt level)

/-- Whether entries of a level are written if the journal is kept from level `kept` on. -/
def isWritten (kept level : Level) : Bool := 0 < level && kept ≤ level

end Level

namespace Entry

/-- The name under which an entry is written; the journal itself is the root of all writers. -/
def writer (e : Entry) : String := if e.logger.isEmpty then "root" else e.logger

/-- The fields of an entry after those in `before`. -/
def fieldsAfter (before : List (String × Json)) (e : Entry) : List (String × Json) :=
  Json.merge (before ++ [("level", .text (Level.name e.level)), ("logger", .text e.writer),
    ("msg", .text e.message)]) e.facts

/-- The fields of an entry. -/
def fields (e : Entry) : List (String × Json) := fieldsAfter [] e

end Entry

/-- What a writer hands in: a message pattern with values, facts, and the time in seconds. -/
structure Record where
  logger : String
  level : Level
  pattern : Text
  values : List Json
  facts : Json
  created : Json

namespace Record

/-- A time in seconds, rounded to thousandths; whole seconds stay whole numbers. -/
def roundedTime : Json → Json
  | .float x =>
    if x.isNaN || x.isInf then .float x
    else
      let (negative, b) := Binary.ofFloat x
      let y := Float.ofScientific b.thousandths true 3
      .float (if negative then -y else y)
  | v => v

/-- The message; without values the pattern is the message, and an object that is the only value
may be left unused. -/
def message? (r : Record) : Option Text :=
  match r.values with
  | [] => some r.pattern
  | [.object (_ :: _)] => (Json.format? r.pattern r.values).or (Json.format? r.pattern [])
  | _ => Json.format? r.pattern r.values

/-- The line of a record, if its values fit its pattern. -/
def line? (r : Record) : Option Text :=
  r.message?.map fun message =>
    let facts := match r.facts with
      | .object fields => fields
      | _ => []
    let entry : Entry := ⟨r.logger, r.level, String.ofList message, facts⟩
    Json.render (.object (entry.fieldsAfter [("ts", roundedTime r.created)]))

end Record

end ScanPolicy
