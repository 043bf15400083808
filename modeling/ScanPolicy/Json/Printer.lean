import ScanPolicy.Json.Basic
import ScanPolicy.Decimal.Shortest
import ScanPolicy.Text.Quoted

/-!
# Writing structured values

The text of a value on one line: a comma and a space between items, a colon and a space after a
key, and every character outside ASCII escaped.

- `Json.floatLayout`: how floating-point numbers are laid out.
- `Json.encodeText`: a text in double quotes.
- `Json.render`: the text of a value.
-/

namespace ScanPolicy.Json

/-- Numbers from one ten-thousandth up to ten to the sixteenth are written positionally. -/
def floatLayout : FloatLayout := ⟨-3, 16, "NaN", "Infinity"⟩

/-- The escape of one sixteen-bit unit. -/
def escapeUnit (n : Nat) : Text := '\\' :: 'u' :: Text.hexPadded 4 n

/-- One character of a text in double quotes. -/
def encodeChar (c : Char) : Text :=
  if c = '"' then ['\\', '"']
  else if c = '\\' then ['\\', '\\']
  else if c = '\n' then ['\\', 'n']
  else if c = '\r' then ['\\', 'r']
  else if c = '\t' then ['\\', 't']
  else if c = '\x08' then ['\\', 'b']
  else if c = '\x0c' then ['\\', 'f']
  else
    let n := c.toNat
    if 32 ≤ n && n < 127 then [c]
    else if n < 0x10000 then escapeUnit n
    else
      let m := n - 0x10000
      escapeUnit (0xD800 + m / 0x400) ++ escapeUnit (0xDC00 + m % 0x400)

/-- A text in double quotes. -/
def encodeText (t : Text) : Text := '"' :: (t.flatMap encodeChar ++ ['"'])

mutual

/-- The text of a value. -/
def render : Json → Text
  | null => ['n', 'u', 'l', 'l']
  | bool true => ['t', 'r', 'u', 'e']
  | bool false => ['f', 'a', 'l', 's', 'e']
  | int n => Text.ofInt n
  | float x => floatLayout.render x
  | text s => encodeText s.toList
  | list items => '[' :: (renderItems items ++ [']'])
  | object fields => '\x7b' :: (renderFields fields ++ ['\x7d'])

/-- The items of a list, separated. -/
def renderItems : List Json → Text
  | [] => []
  | [v] => render v
  | v :: w :: rest => render v ++ ',' :: ' ' :: renderItems (w :: rest)

/-- The fields of an object, separated. -/
def renderFields : List (String × Json) → Text
  | [] => []
  | [(k, v)] => encodeText k.toList ++ ':' :: ' ' :: render v
  | (k, v) :: f :: rest =>
    encodeText k.toList ++ ':' :: ' ' :: (render v ++ ',' :: ' ' :: renderFields (f :: rest))

end

end ScanPolicy.Json
