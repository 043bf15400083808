import ScanPolicy.Pattern.Escape

/-!
# Sets of characters

A set stands between square brackets: characters, ranges and escapes, all negated after a caret. A
closing bracket that comes first is a member of the set.

- `Reading.charClass`: a set whose opening bracket has been read.
-/

namespace ScanPolicy.Pattern.Reading

/-- A character or an escape in a set. -/
def classItem (m : Mode) (t : Token) (start : Nat) : Reading ClassItem :=
  match t with
  | .plain c => pure (.range c.toNat c.toNat)
  | .escaped c => classEscape m c start

/-- A range between two members that are code points. -/
def classRange (first last : Token) (a b : ClassItem) : Reading ClassItem := do
  let bad {α : Type} : Reading α := do
    let length := first.text.length + 1 + last.text.length
    failAt (.badRange first.text last.text) ((← position) - length)
  match a, b with
  | .range lo _, .range hi _ => if hi < lo then bad else return .range lo hi
  | _, _ => bad

/-- The members of a set that starts at `start`, those before being `items`, last first. -/
def classItems (m : Mode) (start : Nat) : Nat → List ClassItem → Reading (List ClassItem)
  | 0, _ => failAt .unclosedClass start
  | fuel + 1, items => do
    let here ← position
    match ← next with
    | none => failAt .unclosedClass start
    | some t =>
      if t = .plain ']' && !items.isEmpty then return items.reverse
      else
        let item ← classItem m t here
        if ← accept '-' then
          let there ← position
          match ← next with
          | none => failAt .unclosedClass start
          | some (.plain ']') => return (.range 45 45 :: item :: items).reverse
          | some u =>
            let range ← classRange t u item (← classItem m u there)
            classItems m start fuel (range :: items)
        else classItems m start fuel (item :: items)

/-- A set of characters that starts at `start` and whose opening bracket has been read. -/
def charClass (m : Mode) (start : Nat) : Reading Node := do
  let negated ← accept '^'
  let items ← classItems m start ((← rest).length + 1) []
  return m.oneOf negated items

end ScanPolicy.Pattern.Reading
