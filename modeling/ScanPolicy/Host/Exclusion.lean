import ScanPolicy.Host.Atom

/-!
# Excluded hosts

The excluded addresses of a family as sorted intervals of which no two touch, so that one jump
leads past all excluded addresses in a row.

- `Interval.merge`: the canonical intervals of a list of intervals.
- `Interval.skip`: the first number at or after a given one that lies in no interval.
- `Exclusion`: excluded names and intervals of both families.
-/

namespace ScanPolicy

/-- The numbers from `first` to `last`, both included. -/
structure Interval where
  first : Nat
  last : Nat
deriving DecidableEq, Repr

namespace Interval

/-- Whether `i` comes before `j`: by first number, then by last. -/
def before (i j : Interval) : Bool :=
  i.first < j.first || (i.first == j.first && i.last ≤ j.last)

/-- The intervals in order. -/
def sort (is : List Interval) : List Interval := is.mergeSort before

/-- Joins the interval being built with each next one that it meets or touches. -/
def mergeFrom (current : Interval) : List Interval → List Interval
  | [] => [current]
  | i :: rest =>
    if i.first ≤ current.last + 1 then
      mergeFrom ⟨current.first, max current.last i.last⟩ rest
    else current :: mergeFrom i rest

/-- Joins neighbours of a sorted list. -/
def mergeSorted : List Interval → List Interval
  | [] => []
  | i :: rest => mergeFrom i rest

/-- The canonical intervals with the same numbers. -/
def merge (is : List Interval) : List Interval := mergeSorted (sort is)

/-- The first number at or after `n` that lies in none of the canonical intervals. -/
def skip : List Interval → Nat → Nat
  | [], n => n
  | i :: rest, n =>
    if n < i.first then n
    else if n ≤ i.last then i.last + 1
    else skip rest n

/-- The number of numbers in canonical intervals. -/
def total (is : List Interval) : Nat := (is.map fun i => i.last + 1 - i.first).foldr (· + ·) 0

/-- The parts of one interval that lie outside canonical intervals. -/
def subtractFrom (i : Interval) : List Interval → List Interval
  | [] => [i]
  | x :: rest =>
    if x.last < i.first then subtractFrom i rest
    else if i.last < x.first then [i]
    else
      (if i.first < x.first then [⟨i.first, x.first - 1⟩] else []) ++
        (if x.last < i.last then subtractFrom ⟨x.last + 1, i.last⟩ rest else [])

/-- The parts of canonical intervals that lie outside canonical intervals. -/
def subtract (is excluded : List Interval) : List Interval :=
  is.flatMap fun i => subtractFrom i excluded

end Interval

/-- Excluded names, and canonical intervals of excluded addresses for each family. -/
structure Exclusion where
  names : List Text
  v4 : List Interval
  v6 : List Interval

namespace Exclusion

/-- The intervals of the atoms of one family, in order. -/
def spansOf (family : Family) (atoms : List HostAtom) : List Interval :=
  atoms.filterMap fun
    | .span _ _ f first last => if f = family then some ⟨first, last⟩ else none
    | .hostname .. => none

/-- The names of the atoms, each once, in order of first occurrence. -/
def namesOf (atoms : List HostAtom) : List Text :=
  (atoms.filterMap fun
    | .hostname _ name => some name
    | .span .. => none).eraseDups

/-- What a list of atoms excludes. -/
def ofAtoms (atoms : List HostAtom) : Exclusion where
  names := namesOf atoms
  v4 := Interval.merge (spansOf .v4 atoms)
  v6 := Interval.merge (spansOf .v6 atoms)

/-- The excluded intervals of a family. -/
def spans (e : Exclusion) : Family → List Interval
  | .v4 => e.v4
  | .v6 => e.v6

/-- The first address at or after `n` that is not excluded. -/
def skip (e : Exclusion) (family : Family) (n : Nat) : Nat := Interval.skip (e.spans family) n

/-- The same from any integer on; nothing below zero is excluded. -/
def firstAllowed (e : Exclusion) (family : Family) : Int → Int
  | .ofNat n => e.skip family n
  | .negSucc n => .negSucc n

end Exclusion

end ScanPolicy
