import ScanPolicy.Json.Basic
import ScanPolicy.Text.DecimalDigit

/-!
# Reading structured values

A recursive-descent reader. Every step that reads a nested value spends one unit of fuel, and
the length of the text is enough fuel for any value written in it.

- `Json.readString`: a text in double quotes, escapes resolved, surrogate pairs joined.
- `Json.readNumber`: a whole number, or a floating-point number if a point or an exponent is
  written.
- `Json.read?`: the value that a whole text denotes.
-/

namespace ScanPolicy.Json

/-- The four hexadecimal digits of an escape. -/
def hexEscape : Text → Option (Nat × Text)
  | a :: b :: c :: d :: rest => (Text.hexNat? [a, b, c, d]).map (·, rest)
  | _ => none

/-- The characters up to the closing quote, after those already read into `acc` (reversed). -/
def readStringFrom (acc : Text) : Nat → Text → Option (String × Text)
  | 0, _ => none
  | fuel + 1, t =>
    match t with
    | '"' :: rest => some (String.ofList acc.reverse, rest)
    | '\\' :: 'u' :: rest =>
      match hexEscape rest with
      | some (hi, rest) =>
        if 0xD800 ≤ hi && hi < 0xDC00 then
          match rest with
          | '\\' :: 'u' :: more =>
            match hexEscape more with
            | some (lo, more) =>
              if 0xDC00 ≤ lo && lo < 0xE000 then
                let code := 0x10000 + (hi - 0xD800) * 0x400 + (lo - 0xDC00)
                readStringFrom (Char.ofNat code :: acc) fuel more
              else none
            | none => none
          | _ => none
        else readStringFrom (Char.ofNat hi :: acc) fuel rest
      | none => none
    | '\\' :: c :: rest =>
      match c with
      | '"' => readStringFrom ('"' :: acc) fuel rest
      | '\\' => readStringFrom ('\\' :: acc) fuel rest
      | '/' => readStringFrom ('/' :: acc) fuel rest
      | 'b' => readStringFrom ('\x08' :: acc) fuel rest
      | 'f' => readStringFrom ('\x0c' :: acc) fuel rest
      | 'n' => readStringFrom ('\n' :: acc) fuel rest
      | 'r' => readStringFrom ('\r' :: acc) fuel rest
      | 't' => readStringFrom ('\t' :: acc) fuel rest
      | _ => none
    | c :: rest => readStringFrom (c :: acc) fuel rest
    | [] => none

/-- A text after its opening quote. -/
def readString (t : Text) : Option (String × Text) := readStringFrom [] (t.length + 1) t

/-- The value of a run of digits. -/
def digitsValue (t : Text) : Nat := t.foldl (fun n c => n * 10 + (c.toNat - 48)) 0

/-- The exponent part of a number: its value, and whether one is written. -/
def readExponent (t : Text) : Option (Int × Bool × Text) :=
  match t with
  | e :: rest =>
    if e = 'e' || e = 'E' then
      let (negative, rest) := match rest with
        | '-' :: more => (true, more)
        | '+' :: more => (false, more)
        | _ => (false, rest)
      let digits := rest.takeWhile Char.isDigit
      if digits.isEmpty then none
      else
        let n := digitsValue digits
        some (if negative then -(n : Int) else n, true, rest.dropWhile Char.isDigit)
    else some (0, false, t)
  | [] => some (0, false, [])

/-- The double nearest to `digits * 10 ^ exponent`. -/
def scientific (digits : Nat) (exponent : Int) : Float :=
  if exponent < 0 then Float.ofScientific digits true (-exponent).toNat
  else Float.ofScientific digits false exponent.toNat

/-- A number. -/
def readNumber (t : Text) : Option (Json × Text) :=
  let (negative, body) := match t with
    | '-' :: rest => (true, rest)
    | _ => (false, t)
  let whole := body.takeWhile Char.isDigit
  if whole.isEmpty then none
  else
    let rest := body.dropWhile Char.isDigit
    let (fraction, pointed, rest) := match rest with
      | '.' :: more => (more.takeWhile Char.isDigit, true, more.dropWhile Char.isDigit)
      | _ => ([], false, rest)
    if pointed && fraction.isEmpty then none
    else match readExponent rest with
      | none => none
      | some (exponent, raised, rest) =>
        if pointed || raised then
          let x := scientific (digitsValue (whole ++ fraction)) (exponent - (fraction.length : Int))
          some (float (if negative then -x else x), rest)
        else
          let n : Int := digitsValue whole
          some (int (if negative then -n else n), rest)

/-- Whether a character is white space between values. -/
def isSpace (c : Char) : Bool := c = ' ' || c = '\t' || c = '\n' || c = '\r'

/-- A text without its leading white space. -/
def skip (t : Text) : Text := t.dropWhile isSpace

/-- Reads one fixed word. -/
def readWord (word : Text) (value : Json) (t : Text) : Option (Json × Text) :=
  if word.isPrefixOf t then some (value, t.drop word.length) else none

mutual

/-- A value, after white space. -/
def readValue : Nat → Text → Option (Json × Text)
  | 0, _ => none
  | fuel + 1, t =>
    match skip t with
    | '\x7b' :: rest =>
      match skip rest with
      | '\x7d' :: rest => some (object [], rest)
      | rest => (readFields fuel [] rest).map fun (fields, rest) => (object fields, rest)
    | '[' :: rest =>
      match skip rest with
      | ']' :: rest => some (list [], rest)
      | rest => (readItems fuel rest).map fun (items, rest) => (list items, rest)
    | '"' :: rest => (readString rest).map fun (s, rest) => (text s, rest)
    | 't' :: rest => readWord ['r', 'u', 'e'] (bool true) rest
    | 'f' :: rest => readWord ['a', 'l', 's', 'e'] (bool false) rest
    | 'n' :: rest => readWord ['u', 'l', 'l'] null rest
    | rest => readNumber rest

/-- The items of a list, at least one, up to its end. -/
def readItems : Nat → Text → Option (List Json × Text)
  | 0, _ => none
  | fuel + 1, t =>
    match readValue fuel t with
    | none => none
    | some (v, rest) =>
      match skip rest with
      | ',' :: rest => (readItems fuel rest).map fun (vs, rest) => (v :: vs, rest)
      | ']' :: rest => some ([v], rest)
      | _ => none

/-- The fields of an object, at least one, up to its end, after those in `acc`. -/
def readFields : Nat → List (String × Json) → Text → Option (List (String × Json) × Text)
  | 0, _, _ => none
  | fuel + 1, acc, t =>
    match skip t with
    | '"' :: rest =>
      match readString rest with
      | none => none
      | some (key, rest) =>
        match skip rest with
        | ':' :: rest =>
          match readValue fuel rest with
          | none => none
          | some (v, rest) =>
            let acc := set key v acc
            match skip rest with
            | ',' :: rest => readFields fuel acc rest
            | '\x7d' :: rest => some (acc, rest)
            | _ => none
        | _ => none
    | _ => none

end

/-- The value that a whole text denotes. -/
def read? (s : String) : Option Json :=
  let t := s.toList
  match readValue (2 * t.length + 2) t with
  | some (v, rest) => if (skip rest).isEmpty then some v else none
  | none => none

end ScanPolicy.Json
