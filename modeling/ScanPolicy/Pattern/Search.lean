import ScanPolicy.Journal.Basic
import ScanPolicy.Pattern.Matching
import ScanPolicy.Pattern.Reader

/-!
# Searching for a pattern

Policy rules ask whether a pattern occurs in a text. A text that is no pattern occurs nowhere, and
a debugging entry says why.

- `Pattern.occurs`: whether a pattern occurs in a text.
-/

namespace ScanPolicy.Pattern

/-- The entry about a text that is no pattern. -/
def invalidEntry (pattern : Text) (d : Defect) : Entry :=
  ⟨"domain.text_match", Level.debug, "regexp.invalid",
    [("pattern", .text (String.ofList pattern)),
      ("error", .text (String.ofList (d.message pattern)))]⟩

/-- Whether a pattern occurs in a text. -/
def occurs (pattern text : Text) : Traced (Except Breach Bool) :=
  match read pattern with
  | .ok n => .quiet (.ok (n.occursIn text))
  | .error (.defect d) => .noting (.ok false) (invalidEntry pattern d)
  | .error (.breach b) => .quiet (.error b)

end ScanPolicy.Pattern
