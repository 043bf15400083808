/-!
# Widths

How many characters a part of a pattern can take: at least and at most. Widths are counted up to
`repeatLimit`, which also bounds the counts that a repetition can ask for.

- `Width.add`, `Width.join`, `Width.times`: one part after another, one of two parts, a repeated
  part.
- `Width.isFixed`: whether a part always takes the same number of characters.
-/

namespace ScanPolicy.Pattern

/-- Counts from this one on are not told apart. -/
def repeatLimit : Nat := 4294967295

/-- The least and the greatest number of characters. -/
structure Width where
  least : Nat
  most : Nat
deriving DecidableEq, Repr

namespace Width

/-- No character. -/
def zero : Width := ⟨0, 0⟩

/-- One character. -/
def one : Width := ⟨1, 1⟩

/-- A width with its counts cut off at the limit. -/
def ofCounts (least most : Nat) : Width := ⟨min least (repeatLimit - 1), min most repeatLimit⟩

/-- The width of one part after another. -/
def add (a b : Width) : Width := ofCounts (a.least + b.least) (a.most + b.most)

/-- The width of one of two parts. -/
def join (a b : Width) : Width := ⟨min a.least b.least, max a.most b.most⟩

/-- The width of a part that is repeated at least `least` and at most `most` times. -/
def times (w : Width) (least : Nat) (most : Option Nat) : Width :=
  ofCounts (w.least * least) (w.most * most.getD repeatLimit)

/-- Whether the number of characters is always the same. -/
def isFixed (w : Width) : Bool := w.least == w.most

end Width

end ScanPolicy.Pattern
