import ScanPolicy.Json.Basic
import ScanPolicy.Decimal.Shortest
import ScanPolicy.Text.Quoted
import ScanPolicy.Text.DecimalDigit

/-!
# Showing structured values

The form in which a value stands in running text: a text as itself, any other value by its name or
its digits, and the parts of a list or an object with their texts quoted.

- `Json.display`: a value in running text.
- `Json.format?`: a pattern with values in place of `%s` and `%d`.
-/

namespace ScanPolicy.Json

/-- Numbers from one ten-thousandth up to ten to the sixteenth are shown positionally. -/
def displayLayout : FloatLayout := ⟨-3, 16, "nan", "inf"⟩

mutual

/-- A part of a list or an object. -/
def displayPart : Json → Text
  | null => "None".toList
  | bool true => "True".toList
  | bool false => "False".toList
  | int n => Text.ofInt n
  | float x => displayLayout.render x
  | text s => Text.quoted s.toList
  | list items => '[' :: (displayItems items ++ [']'])
  | object fields => '\x7b' :: (displayFields fields ++ ['\x7d'])

/-- The items of a list, separated. -/
def displayItems : List Json → Text
  | [] => []
  | [v] => displayPart v
  | v :: w :: rest => displayPart v ++ ',' :: ' ' :: displayItems (w :: rest)

/-- The fields of an object, separated. -/
def displayFields : List (String × Json) → Text
  | [] => []
  | [(k, v)] => Text.quoted k.toList ++ ':' :: ' ' :: displayPart v
  | (k, v) :: f :: rest =>
    Text.quoted k.toList ++ ':' :: ' ' :: (displayPart v ++ ',' :: ' ' :: displayFields (f :: rest))

end

/-- A value in running text. -/
def display : Json → Text
  | text s => s.toList
  | v => displayPart v

/-- A number in decimal digits, the part after the point cut off; no other value has them. -/
def digits? : Json → Option Text
  | int n => some (Text.ofInt n)
  | bool b => some [if b then '1' else '0']
  | float x =>
    if x.isNaN || x.isInf then none
    else
      let (negative, b) := Binary.ofFloat x
      let (num, den) := b.ratio
      let n := num / den
      some (if negative && n != 0 then '-' :: Text.ofNat n else Text.ofNat n)
  | _ => none

/-- A pattern with the values in place of `%s` and `%d`, in order; all of them have to be used. -/
def format? : Text → List Json → Option Text
  | [], [] => some []
  | [], _ :: _ => none
  | '%' :: '%' :: rest, vs => (format? rest vs).map ('%' :: ·)
  | '%' :: 's' :: rest, v :: vs => (format? rest vs).map (display v ++ ·)
  | '%' :: 'd' :: rest, v :: vs =>
    match digits? v with
    | some ds => (format? rest vs).map (ds ++ ·)
    | none => none
  | c :: rest, vs => if c = '%' then none else (format? rest vs).map (c :: ·)

end ScanPolicy.Json
