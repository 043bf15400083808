import ScanPolicy.Text.Blank
import ScanPolicy.Text.DecimalDigit

/-!
# Numerals

The integers that settings and rules may hold: blanks around, one sign, decimal digits of any
script, and single underscores between digits. A numeral has at most `numeralLimit` digits.

- `Text.digits?`: the values of the digits, without the underscores.
- `Text.toInt?`: the integer that a numeral denotes.
-/

namespace ScanPolicy.Text

/-- The most digits that a numeral may have. -/
def numeralLimit : Nat := 4300

/-- The values of the digits of a numeral without sign; an underscore stands between two digits.
`afterDigit` tells whether the character before was a digit. -/
def digitsFrom (afterDigit : Bool) : Text → Option (List Nat)
  | [] => if afterDigit then some [] else none
  | c :: rest =>
    if c = '_' then
      if afterDigit then digitsFrom false rest else none
    else match digit? c with
      | some d => (digitsFrom true rest).map (d :: ·)
      | none => none

/-- The values of the digits of a numeral without sign. -/
def digits? (t : Text) : Option (List Nat) := digitsFrom false t

/-- The number with the given digits, most significant first. -/
def ofDigits (ds : List Nat) : Nat := ds.foldl (fun n d => n * 10 + d) 0

/-- The value of a numeral without sign and blanks. -/
def unsigned? (t : Text) : Option Nat :=
  match digits? t with
  | some ds => if ds.length ≤ numeralLimit then some (ofDigits ds) else none
  | none => none

/-- The integer that a numeral denotes. -/
def toInt? (t : Text) : Option Int :=
  match trim t with
  | '+' :: rest => (unsigned? rest).map Int.ofNat
  | '-' :: rest => (unsigned? rest).map fun n => -(n : Int)
  | rest => (unsigned? rest).map Int.ofNat

end ScanPolicy.Text
