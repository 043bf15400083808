import ScanPolicy.Pattern.Basic

/-!
# Modes

Letters in a pattern switch its modes: for the whole pattern at its very start, or for one group.

- `Flag`: the letters; `Flag.ofChar?` reads one.
- `Mode`: the modes in effect, and what the parts of a pattern mean in them.
-/

namespace ScanPolicy.Pattern

/-- A letter that switches a mode. -/
inductive Flag where
  | ignoreCase
  | multiline
  | dotAll
  | verbose
  | ascii
  | unicode
  /-- The alphabet of the place, which patterns over Unicode texts do not have. -/
  | localAlphabet
  /-- Patterns without repetitions. -/
  | template
deriving DecidableEq, Repr

namespace Flag

/-- The flag with a letter. -/
def ofChar? : Char → Option Flag
  | 'i' => some ignoreCase
  | 'm' => some multiline
  | 's' => some dotAll
  | 'x' => some verbose
  | 'a' => some ascii
  | 'u' => some unicode
  | 'L' => some localAlphabet
  | 't' => some template
  | _ => none

/-- Whether a flag chooses the alphabet. -/
def isAlphabet : Flag → Bool
  | ascii | unicode | localAlphabet => true
  | _ => false

end Flag

/-- The modes in effect in some part of a pattern. -/
structure Mode where
  ignoreCase : Bool := false
  multiline : Bool := false
  dotAll : Bool := false
  verbose : Bool := false
  asciiOnly : Bool := false

namespace Mode

/-- A mode with a flag switched on or off; of the alphabets the last one chosen is in effect. -/
def switch (on : Bool) (m : Mode) : Flag → Mode
  | .ignoreCase => { m with ignoreCase := on }
  | .multiline => { m with multiline := on }
  | .dotAll => { m with dotAll := on }
  | .verbose => { m with verbose := on }
  | .ascii => { m with asciiOnly := on }
  | .unicode => { m with asciiOnly := !on }
  | .localAlphabet | .template => m

/-- Which differences of case do not count. -/
def folding (m : Mode) : Folding :=
  if m.ignoreCase then (if m.asciiOnly then .ascii else .full) else .exact

/-- The pattern for one code point. -/
def code (m : Mode) (n : Nat) : Node := .test (.code m.folding n)

/-- The pattern for a character of a set. -/
def oneOf (m : Mode) (negated : Bool) (items : List ClassItem) : Node :=
  .test ⟨negated, items, m.folding⟩

/-- The meaning of a point. -/
def point (m : Mode) : Node := .test (if m.dotAll then .any else .anyInLine)

/-- The meaning of a caret. -/
def caret (m : Mode) : Node := .anchor (if m.multiline then .lineStart else .textStart)

/-- The meaning of a dollar sign. -/
def dollar (m : Mode) : Node := .anchor (if m.multiline then .lineEnd else .finalLineEnd)

end Mode

end ScanPolicy.Pattern
