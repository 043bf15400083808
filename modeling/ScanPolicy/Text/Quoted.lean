import ScanPolicy.Text.Printable

/-!
# Quoted texts

The form in which error messages show a token: between quotes, with the characters that cannot
be shown written as escapes.

- `Text.quoteMark`: a double quote only for a text that holds a single quote and no double one.
- `Text.escapeHex`: `\xhh`, `\uhhhh` or `\Uhhhhhhhh`, the shortest that fits.
- `Text.quoted`: the whole form.
-/

namespace ScanPolicy.Text

/-- The hexadecimal digits of `n`, padded with zeros to `width`. -/
def hexPadded (width n : Nat) : Text :=
  let digits := Nat.toDigits 16 n
  List.replicate (width - digits.length) '0' ++ digits

/-- The shortest numeric escape of a character. -/
def escapeHex (c : Char) : Text :=
  let n := c.toNat
  if n < 0x100 then '\\' :: 'x' :: hexPadded 2 n
  else if n < 0x10000 then '\\' :: 'u' :: hexPadded 4 n
  else '\\' :: 'U' :: hexPadded 8 n

/-- The quote mark around a text: double only where that saves escaping single ones. -/
def quoteMark (t : Text) : Char :=
  if t.contains '\'' && !t.contains '"' then '"' else '\''

/-- One character of a text quoted with `mark`. -/
def quotedChar (mark c : Char) : Text :=
  if c = mark || c = '\\' then ['\\', c]
  else if c = '\n' then ['\\', 'n']
  else if c = '\r' then ['\\', 'r']
  else if c = '\t' then ['\\', 't']
  else if isPrintable c then [c]
  else escapeHex c

/-- A text between quote marks, escaped where it cannot be shown. -/
def quoted (t : Text) : Text :=
  let mark := quoteMark t
  mark :: (t.flatMap (quotedChar mark) ++ [mark])

end ScanPolicy.Text
