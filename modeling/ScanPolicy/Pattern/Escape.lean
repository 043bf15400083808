import ScanPolicy.Pattern.Cursor
import ScanPolicy.Text.CharName

/-!
# Escapes

What a backslash and the characters after it stand for: a code point, a kind of character, an
anchor, or what a group took. Inside of a set only the first two are possible.

- `Reading.classEscape`: an escape in a set.
- `Reading.escape`: an escape elsewhere.
-/

namespace ScanPolicy.Pattern

/-- The code points of the control characters with an escape of their own. -/
def controlEscapes : List (Char × Nat) := [
  ('a', 7), ('f', 12), ('n', 10), ('r', 13), ('t', 9), ('v', 11), ('\\', 92)]

/-- The kinds of characters with an escape, and whether all other characters are meant. -/
def kindEscapes : List (Char × Bool × CharKind) := [
  ('d', false, .digit), ('D', true, .digit), ('s', false, .space), ('S', true, .space),
  ('w', false, .word), ('W', true, .word)]

/-- Whether a character is one of the digits `0` to `7`. -/
def isOctal (c : Char) : Bool := '0' ≤ c && c ≤ '7'

/-- The number that octal digits stand for. -/
def octalValue (digits : Text) : Nat := digits.foldl (fun n c => n * 8 + (c.toNat - 48)) 0

/-- Whether a character is a letter of ASCII. -/
def isAsciiLetter (c : Char) : Bool := c.isAlpha

/-- The greatest code point, and the greatest number that is tried as one. -/
def lastCode : Nat := 0x10FFFF
def lastTriedCode : Nat := 0x7FFFFFFF

namespace Reading

/-- A code point given by an exact number of hexadecimal digits. -/
def hexCode (letter : Char) (count start : Nat) : Reading Nat := do
  let digits ← charsUpTo count fun c => (Text.hexDigit? c).isSome
  let escape := '\\' :: letter :: digits
  if digits.length ≠ count then failAt (.incompleteEscape escape) start
  else
    let n := (Text.hexNat? digits).getD 0
    if lastTriedCode < n then throw (.breach .numberTooLarge)
    else if lastCode < n then failAt (.badEscape escape) start
    else return n

/-- A code point given by the name of its character. -/
def namedCode (start : Nat) : Reading Nat := do
  if ← accept '{' then
    let (name, _) ← name "character name" '}'
    match Text.charNamed? name with
    | some n => return n
    | none => failAt (.unknownCharName name) start
  else fail .missingBrace

/-- The code point of an escape that means the same everywhere, if it is such an escape. -/
def commonCode? (c : Char) (start : Nat) : Reading (Option Nat) := do
  match controlEscapes.lookup c with
  | some n => return some n
  | none =>
    match c with
    | 'x' => return some (← hexCode c 2 start)
    | 'u' => return some (← hexCode c 4 start)
    | 'U' => return some (← hexCode c 8 start)
    | 'N' => return some (← namedCode start)
    | _ => return none

/-- A character that stands for itself after a backslash: any but the letters and digits of
ASCII. -/
def literalCode (c : Char) (start : Nat) : Reading Nat :=
  if isAsciiLetter c || c.isDigit then failAt (.badEscape ['\\', c]) start else pure c.toNat

/-- A code point given by octal digits. -/
def octalCode (digits : Text) (start : Nat) : Reading Nat :=
  let n := octalValue digits
  if 0o377 < n then failAt (.octalTooLarge ('\\' :: digits)) start else pure n

/-- An escape in a set of characters, which starts at `start` and of which the character after the
backslash has been read. -/
def classEscape (m : Mode) (c : Char) (start : Nat) : Reading ClassItem := do
  match kindEscapes.lookup c with
  | some (negated, k) => return .kind negated m.asciiOnly k
  | none =>
    let n ←
      if c = 'b' then pure 8
      else match ← commonCode? c start with
        | some n => pure n
        | none =>
          if isOctal c then octalCode (c :: (← charsUpTo 2 isOctal)) start
          else literalCode c start
    return .range n n

/-! ## Groups -/

/-- In a look back, only groups from before it can be referred to. -/
def checkLook (number : Nat) : Reading Unit := do
  let s ← get
  match s.beforeLook with
  | none => return ()
  | some before =>
    if !s.isClosed number then fail .groupStillOpen
    else if before ≤ number then fail .groupInSameLook

/-- What a closed group took, again. -/
def reference (m : Mode) (number start : Nat) : Reading Node := do
  let s ← get
  if s.isClosed number then
    checkLook number
    return .again number (s.groupWidth number) m.folding
  else failAt .groupStillOpen start

/-- An escape that starts with a digit other than zero: three octal digits, or the number of a
group. -/
def numberEscape (m : Mode) (c : Char) (start : Nat) : Reading Node := do
  let second ← charsUpTo 1 Char.isDigit
  let third ←
    if !second.isEmpty && isOctal c && second.all isOctal then charsUpTo 1 isOctal else pure []
  if !third.isEmpty then return m.code (← octalCode (c :: second ++ third) start)
  else
    let number := (Text.asciiNat? (c :: second)).getD 0
    if number < (← get).widths.length then reference m number start
    else failAt (.noSuchGroup number) (start + 1)

/-- An escape outside of sets, which starts at `start` and of which the character after the
backslash has been read. -/
def escape (m : Mode) (c : Char) (start : Nat) : Reading Node := do
  match kindEscapes.lookup c with
  | some (negated, k) => return m.oneOf false [.kind negated m.asciiOnly k]
  | none =>
    match c with
    | 'A' => return .anchor .textStart
    | 'Z' => return .anchor .textEnd
    | 'b' => return .anchor (.wordEdge false m.asciiOnly)
    | 'B' => return .anchor (.wordEdge true m.asciiOnly)
    | _ =>
      match ← commonCode? c start with
      | some n => return m.code n
      | none =>
        if c = '0' then return m.code (← octalCode (c :: (← charsUpTo 2 isOctal)) start)
        else if c.isDigit then numberEscape m c start
        else return m.code (← literalCode c start)

end Reading

end ScanPolicy.Pattern
