import ScanPolicy.Text.Blank
import ScanPolicy.Text.Case
import ScanPolicy.Text.WordChar

/-!
# Tests of one character

What a pattern can ask of a single character: to lie in a range of code points, or to be of a kind,
with or without regard to case.

- `Folding`: which differences of case do not count; `Folding.sources` gives the code points that
  count as one.
- `CharKind`: digits, white space and word characters, of any script or of ASCII alone.
- `CharTest.accepts`: whether a character passes a test.
-/

namespace ScanPolicy.Pattern

/-- Which differences of case do not count. -/
inductive Folding where
  /-- All differences count. -/
  | exact
  /-- The case of the letters `A` to `Z` does not count. -/
  | ascii
  /-- The case of no letter counts, and characters with a common upper case are one. -/
  | full
deriving DecidableEq, Repr

namespace Folding

/-- The code point that stands for `n` and for what differs from it only in case. -/
def fold : Folding → Nat → Nat
  | exact, n => n
  | ascii, n => if 65 ≤ n && n ≤ 90 then n + 32 else n
  | full, n => Text.lowerCode n

/-- The code points that count as `n`. -/
def sources (f : Folding) (n : Nat) : List Nat :=
  let folded := f.fold n
  match f with
  | exact => [n]
  | ascii => if 97 ≤ folded && folded ≤ 122 then [folded, folded - 32] else [folded]
  | full => (folded :: Text.caseVariants folded).flatMap fun m => m :: Text.raisedCodes m

end Folding

/-- A kind of character. -/
inductive CharKind where
  | digit
  | space
  | word
deriving DecidableEq, Repr

/-- Whether a character is of a kind, among the characters of ASCII alone or among all. -/
def CharKind.includes (asciiOnly : Bool) : CharKind → Char → Bool
  | digit, c => if asciiOnly then c.isDigit else Text.isDecimalDigit c
  | space, c => if asciiOnly then Text.isBlank c && (c.toNat ≤ 13 || c == ' ') else Text.isBlank c
  | word, c => c == '_' || (if asciiOnly then c.isAlphanum else Text.isAlphanumeric c)

/-- One member of a set of characters. -/
inductive ClassItem where
  /-- The code points from `first` to `last`. -/
  | range (first last : Nat)
  /-- The characters of a kind, or all others. -/
  | kind (negated asciiOnly : Bool) (k : CharKind)
deriving DecidableEq, Repr

/-- Whether a character is in a member of a set. -/
def ClassItem.accepts (f : Folding) (c : Char) : ClassItem → Bool
  | range first last => (f.sources c.toNat).any fun n => first ≤ n && n ≤ last
  | kind negated asciiOnly k => negated != k.includes asciiOnly c

/-- A test of one character. -/
structure CharTest where
  negated : Bool
  items : List ClassItem
  folding : Folding
deriving DecidableEq, Repr

namespace CharTest

/-- The test for one code point. -/
def code (f : Folding) (n : Nat) : CharTest := ⟨false, [.range n n], f⟩

/-- The test that every character passes. -/
def any : CharTest := ⟨true, [], .exact⟩

/-- The test that every character but a line break passes. -/
def anyInLine : CharTest := ⟨true, [.range 10 10], .exact⟩

/-- Whether a character passes a test. -/
def accepts (t : CharTest) (c : Char) : Bool := t.negated != t.items.any (·.accepts t.folding c)

@[simp] theorem accepts_any (c : Char) : any.accepts c = true := rfl

theorem accepts_code_exact (n : Nat) (c : Char) : (code .exact n).accepts c = (c.toNat == n) := by
  simp only [code, accepts, List.any_cons, List.any_nil, ClassItem.accepts, Folding.sources,
    Bool.or_false, Bool.false_bne]
  rw [Bool.eq_iff_iff]
  simp
  omega

end CharTest

end ScanPolicy.Pattern
