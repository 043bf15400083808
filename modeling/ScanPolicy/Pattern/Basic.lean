import ScanPolicy.Pattern.CharTest
import ScanPolicy.Pattern.Width

/-!
# Patterns

A pattern describes texts. It is built from tests of one character and from anchors, which look at
a place between two characters, by sequence, choice, repetition, groups that remember what they
took, and looks to either side.

- `Node`: a pattern, with all modes resolved.
- `Node.width`: how many characters a pattern can take.
- `Node.all`, `Node.choice`: several patterns in a row, or one of them.
-/

namespace ScanPolicy.Pattern

/-- How a repetition goes about its work. -/
inductive Greed where
  /-- As often as possible, and less often where the rest of the pattern asks for it. -/
  | greedy
  /-- As rarely as possible, and more often where the rest of the pattern asks for it. -/
  | lazy
  /-- As often as possible, whatever the rest of the pattern asks for. -/
  | possessive
deriving DecidableEq, Repr

/-- What an anchor asks of a place in a text. -/
inductive Anchor where
  | textStart
  | textEnd
  /-- The end of the text, or the place before a line break that ends it. -/
  | finalLineEnd
  | lineStart
  | lineEnd
  /-- A place between a word character and another character, or any other place. -/
  | wordEdge (negated asciiOnly : Bool)
deriving DecidableEq, Repr

/-- A pattern. -/
inductive Node where
  | empty
  | test (t : CharTest)
  | anchor (a : Anchor)
  | seq (first second : Node)
  | either (first second : Node)
  /-- A group, which remembers what it takes if it has a number. -/
  | group (number : Option Nat) (body : Node)
  | loop (greed : Greed) (least : Nat) (most : Option Nat) (body : Node)
  /-- What a group took, again; the width is that of the group. -/
  | again (number : Nat) (width : Width) (folding : Folding)
  /-- A look ahead, or back over as many characters as the body takes. -/
  | look (back negated : Bool) (body : Node)
  /-- A pattern that is not tried in a second way. -/
  | atomic (body : Node)
  /-- One of two patterns, depending on whether a group took something. -/
  | whether (number : Nat) (yes no : Node)
deriving Repr

namespace Node

/-- How many characters a pattern can take. -/
def width : Node → Width
  | empty => .zero
  | test _ => .one
  | anchor _ => .zero
  | seq a b => a.width.add b.width
  | either a b => a.width.join b.width
  | group _ body => body.width
  | loop _ least most body => body.width.times least most
  | again _ w _ => w
  | look .. => .zero
  | atomic body => body.width
  | whether _ yes no => yes.width.join no.width

/-- Patterns one after another. -/
def all : List Node → Node
  | [] => empty
  | [a] => a
  | a :: rest => seq a (all rest)

/-- One of several patterns, the earlier ones first. -/
def choice : List Node → Node
  | [] => empty
  | [a] => a
  | a :: rest => either a (choice rest)

/-- Whether a pattern is an anchor. -/
def isAnchor : Node → Bool
  | anchor _ => true
  | _ => false

/-- Whether a pattern is a repetition. -/
def isLoop : Node → Bool
  | loop .. => true
  | _ => false

/-- The test that a pattern stands for, if it only tests one character. -/
def test? : Node → Option CharTest
  | test t => some t
  | group none (test t) => some t
  | _ => none

end Node

end ScanPolicy.Pattern
