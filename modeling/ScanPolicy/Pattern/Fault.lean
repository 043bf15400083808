import ScanPolicy.Text.Quoted

/-!
# Faults of patterns

What can be wrong with the text of a pattern, as causes with the place where it shows.

- `Cause`, `Cause.message`: what is wrong, and the words for it.
- `Defect`, `Defect.message`: a cause with its place in the text.
- `Failure`: a defect, or a `Breach`: a number or an alphabet beyond what patterns can deal with.
-/

namespace ScanPolicy.Pattern

/-- What is wrong with a text as a pattern. -/
inductive Cause where
  /-- A backslash ends the text. -/
  | danglingEscape
  | badEscape (escape : Text)
  | incompleteEscape (escape : Text)
  | octalTooLarge (escape : Text)
  | missingBrace
  | missingName (what : String)
  | unclosedName (closing : Char)
  | unknownCharName (name : Text)
  | unclosedClass
  | badRange (first last : Text)
  | leastAboveMost
  | nothingToRepeat
  | multipleRepeat
  | badGroupName (name : Text)
  | groupRedefined (name : Text) (number before : Nat)
  | unknownGroupName (name : Text)
  | badGroupNumber
  | noSuchGroup (number : Nat)
  | groupStillOpen
  | groupInSameLook
  | tooManyBranches
  | unknownExtension (text : Text)
  | unexpectedEnd
  | unclosedComment
  | unclosedGroup
  | unopenedGroup
  | flagsNotAtStart
  | localFlag
  | mixedFlags
  | unknownFlag
  | missingFlagEnd
  | missingFlag
  | missingColon
  | wholeFlagOn
  | wholeFlagOff
  | alphabetOff
  | flagOnAndOff
  | lookBackNotFixed
  | loopInTemplate (name : String)
deriving DecidableEq, Repr

/-- The words for a cause. -/
def Cause.message : Cause → Text
  | danglingEscape => "bad escape (end of pattern)".toList
  | badEscape escape => "bad escape ".toList ++ escape
  | incompleteEscape escape => "incomplete escape ".toList ++ escape
  | octalTooLarge escape =>
    "octal escape value ".toList ++ escape ++ " outside of range 0-0o377".toList
  | missingBrace => "missing \x7b".toList
  | missingName what => ("missing " ++ what).toList
  | unclosedName closing => "missing ".toList ++ closing :: ", unterminated name".toList
  | unknownCharName name => "undefined character name ".toList ++ Text.quoted name
  | unclosedClass => "unterminated character set".toList
  | badRange first last => "bad character range ".toList ++ first ++ '-' :: last
  | leastAboveMost => "min repeat greater than max repeat".toList
  | nothingToRepeat => "nothing to repeat".toList
  | multipleRepeat => "multiple repeat".toList
  | badGroupName name => "bad character in group name ".toList ++ Text.quoted name
  | groupRedefined name number before =>
    "redefinition of group name ".toList ++ Text.quoted name ++ " as group ".toList ++
      Text.ofNat number ++ "; was group ".toList ++ Text.ofNat before
  | unknownGroupName name => "unknown group name ".toList ++ Text.quoted name
  | badGroupNumber => "bad group number".toList
  | noSuchGroup number => "invalid group reference ".toList ++ Text.ofNat number
  | groupStillOpen => "cannot refer to an open group".toList
  | groupInSameLook =>
    "cannot refer to group defined in the same lookbehind subpattern".toList
  | tooManyBranches => "conditional backref with more than two branches".toList
  | unknownExtension text => "unknown extension ?".toList ++ text
  | unexpectedEnd => "unexpected end of pattern".toList
  | unclosedComment => "missing ), unterminated comment".toList
  | unclosedGroup => "missing ), unterminated subpattern".toList
  | unopenedGroup => "unbalanced parenthesis".toList
  | flagsNotAtStart => "global flags not at the start of the expression".toList
  | localFlag => "bad inline flags: cannot use 'L' flag with a str pattern".toList
  | mixedFlags => "bad inline flags: flags 'a', 'u' and 'L' are incompatible".toList
  | unknownFlag => "unknown flag".toList
  | missingFlagEnd => "missing -, : or )".toList
  | missingFlag => "missing flag".toList
  | missingColon => "missing :".toList
  | wholeFlagOn => "bad inline flags: cannot turn on global flag".toList
  | wholeFlagOff => "bad inline flags: cannot turn off global flag".toList
  | alphabetOff => "bad inline flags: cannot turn off flags 'a', 'u' and 'L'".toList
  | flagOnAndOff => "bad inline flags: flag turned on and off".toList
  | lookBackNotFixed => "look-behind requires fixed-width pattern".toList
  | loopInTemplate name => ("internal: unsupported template operator " ++ name).toList

/-- A cause, and the position at which it shows if it shows at one. -/
structure Defect where
  cause : Cause
  position : Option Nat
deriving DecidableEq, Repr

namespace Defect

/-- The line of a position, counted from one: the line breaks before it. -/
def line (pattern : Text) (position : Nat) : Nat := (pattern.take position).count '\n' + 1

/-- The place of a position in its line, counted from one. -/
def column (pattern : Text) (position : Nat) : Nat :=
  ((pattern.take position).reverse.takeWhile (· ≠ '\n')).length + 1

/-- The words for a defect of a pattern; lines are told apart where there are several. -/
def message (pattern : Text) (d : Defect) : Text :=
  match d.position with
  | none => d.cause.message
  | some n =>
    let place := d.cause.message ++ " at position ".toList ++ Text.ofNat n
    if pattern.contains '\n' then
      place ++ " (line ".toList ++ Text.ofNat (line pattern n) ++ ", column ".toList ++
        Text.ofNat (column pattern n) ++ ")".toList
    else place

end Defect

/-- What patterns cannot deal with at all. -/
inductive Breach where
  /-- A count of repetitions or a code point is beyond every limit. -/
  | numberTooLarge
  /-- A count has more digits than a numeral may have. -/
  | longNumeral (digits : Nat)
  /-- Both alphabets are chosen for the whole pattern. -/
  | mixedAlphabets
deriving DecidableEq, Repr

/-- Why a text cannot be taken as a pattern. -/
inductive Failure where
  /-- The text is no pattern. -/
  | defect (d : Defect)
  | breach (b : Breach)
deriving DecidableEq, Repr

end ScanPolicy.Pattern
