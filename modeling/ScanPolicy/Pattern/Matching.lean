import ScanPolicy.Pattern.Basic

/-!
# Matching

A pattern is tried at a place of a text, and with it whatever follows it: the rest of the match is
a function from the place that the pattern leaves to the outcome. The first way that leads to an
outcome wins.

- `Place`: a position in a text and what the groups took on the way to it.
- `Node.run`: the first outcome of a pattern and its rest.
- `Node.occursIn`: whether a pattern matches anywhere in a text.
-/

namespace ScanPolicy.Pattern

/-- A position in a text, and where the groups were last entered and left. -/
structure Place where
  position : Nat
  entered : List (Nat × Nat) := []
  left : List (Nat × Nat) := []
deriving DecidableEq, Repr

/-- What follows a pattern, as a function from the place it leaves to the outcome. -/
abbrev Continuation := Place → Option Place

/-- A list of values by number, with one of them written anew. -/
def assign (number value : Nat) : List (Nat × Nat) → List (Nat × Nat)
  | [] => [(number, value)]
  | (n, v) :: rest => if n = number then (n, value) :: rest else (n, v) :: assign number value rest

namespace Place

/-- The place `count` characters further on. -/
def forward (p : Place) (count : Nat) : Place := { p with position := p.position + count }

/-- The place `count` characters back. -/
def backward (p : Place) (count : Nat) : Place := { p with position := p.position - count }

/-- A group is entered here. -/
def enter (p : Place) (number : Nat) : Place :=
  { p with entered := assign number p.position p.entered }

/-- A group is left here. -/
def leave (p : Place) (number : Nat) : Place :=
  { p with left := assign number p.position p.left }

/-- Where the text that a group took starts and ends, if the group took one. -/
def taken? (p : Place) (number : Nat) : Option (Nat × Nat) :=
  match p.entered.lookup number, p.left.lookup number with
  | some start, some stop => if start ≤ stop then some (start, stop) else none
  | _, _ => none

end Place

/-! ## Anchors -/

/-- Whether the character at a position has a property. -/
def holdsAt (p : Char → Bool) (text : Array Char) (position : Nat) : Bool := text[position]?.any p

/-- Whether the character before a position has a property. -/
def holdsBefore (p : Char → Bool) (text : Array Char) (position : Nat) : Bool :=
  0 < position && holdsAt p text (position - 1)

/-- Whether an anchor holds at a position. In an empty text no place is an edge of a word, and
none is known not to be one. -/
def Anchor.holds (text : Array Char) (position : Nat) : Anchor → Bool
  | textStart => position == 0
  | textEnd => position == text.size
  | finalLineEnd =>
    position == text.size || (position + 1 == text.size && holdsAt (· == '\n') text position)
  | lineStart => position == 0 || holdsBefore (· == '\n') text position
  | lineEnd => position == text.size || holdsAt (· == '\n') text position
  | wordEdge negated asciiOnly =>
    let isWord := CharKind.word.includes asciiOnly
    let edge := holdsBefore isWord text position != holdsAt isWord text position
    !text.isEmpty && negated != edge

/-! ## Repetitions -/

/-- Whether two stretches of a text of the same length are the same. -/
def sameStretch (f : Folding) (text : Array Char) (a b : Nat) : Nat → Bool
  | 0 => true
  | count + 1 =>
    match text[a]?, text[b]? with
    | some c, some d => f.fold c.toNat == f.fold d.toNat && sameStretch f text (a + 1) (b + 1) count
    | _, _ => false

/-- How many characters from a position on pass a test, up to a limit. -/
def stretch (t : CharTest) (text : Array Char) (position : Nat) : Nat → Nat
  | 0 => 0
  | limit + 1 =>
    if holdsAt t.accepts text position then stretch t text (position + 1) limit + 1 else 0

/-- The first outcome of going on after `least + extra` characters, or after fewer of them. -/
def shrinking (p : Place) (least : Nat) (k : Continuation) : Nat → Option Place
  | 0 => k (p.forward least)
  | extra + 1 =>
    match k (p.forward (least + extra + 1)) with
    | some outcome => some outcome
    | none => shrinking p least k extra

/-- The first outcome of going on after `least` characters, or after at most `extra` more. -/
def growing (p : Place) (k : Continuation) (least : Nat) : Nat → Option Place
  | 0 => k (p.forward least)
  | extra + 1 =>
    match k (p.forward least) with
    | some outcome => some outcome
    | none => growing p k (least + 1) extra

/-- A repeated test of one character. -/
def runTests (text : Array Char) (t : CharTest) (greed : Greed) (least : Nat) (most : Option Nat)
    (p : Place) (k : Continuation) : Option Place :=
  let remaining := text.size - p.position
  let count := stretch t text p.position (min remaining (most.getD remaining))
  if count < least then none
  else match greed with
    | .greedy => shrinking p least k (count - least)
    | .lazy => growing p k least (count - least)
    | .possessive => k (p.forward count)

/-- A repetition of `body`, of which `count` rounds are done. A round that may be left out is only
tried at another place than the one before it, which started at `last`. -/
def runLoop (body : Place → Continuation → Option Place) (isLazy : Bool) (least : Nat)
    (most : Option Nat) (k : Continuation) : Nat → Nat → Option Nat → Place → Option Place
  | 0, _, _, _ => none
  | fuel + 1, count, last, p =>
    if count < least then body p (runLoop body isLazy least most k fuel (count + 1) last)
    else
      let mayGoOn := most.all (count < ·) && last != some p.position
      let another (_ : Unit) : Option Place :=
        if mayGoOn then body p (runLoop body isLazy least most k fuel (count + 1) (some p.position))
        else none
      if isLazy then
        match k p with
        | some outcome => some outcome
        | none => another ()
      else
        match another () with
        | some outcome => some outcome
        | none => k p

/-! ## Patterns -/

/-- The first outcome of a pattern and its rest at a place. -/
def Node.run (text : Array Char) : Node → Place → Continuation → Option Place
  | empty, p, k => k p
  | test t, p, k => if holdsAt t.accepts text p.position then k (p.forward 1) else none
  | anchor a, p, k => if a.holds text p.position then k p else none
  | seq a b, p, k => a.run text p fun q => b.run text q k
  | either a b, p, k =>
    match a.run text p k with
    | some outcome => some outcome
    | none => b.run text p k
  | group none body, p, k => body.run text p k
  | group (some number) body, p, k => body.run text (p.enter number) fun q => k (q.leave number)
  | loop greed least most body, p, k =>
    match body.test? with
    | some t => runTests text t greed least most p k
    | none =>
      let fuel := least + (text.size - p.position) + 2
      match greed with
      | .greedy => runLoop (body.run text) false least most k fuel 0 none p
      | .lazy => runLoop (body.run text) true least most k fuel 0 none p
      | .possessive =>
        let once (p : Place) (k : Continuation) : Option Place :=
          match body.run text p some with
          | some q => k q
          | none => none
        match runLoop once false least most some fuel 0 none p with
        | some q => k q
        | none => none
  | again number _ folding, p, k =>
    match p.taken? number with
    | some (start, stop) =>
      if sameStretch folding text start p.position (stop - start) then k (p.forward (stop - start))
      else none
    | none => none
  | look back negated body, p, k =>
    let width := if back then body.width.least else 0
    let found := if width ≤ p.position then body.run text (p.backward width) some else none
    match negated, found with
    | false, some q => k { q with position := p.position }
    | true, none => k p
    | _, _ => none
  | atomic body, p, k =>
    match body.run text p some with
    | some q => k q
    | none => none
  | whether number yes no, p, k =>
    match p.taken? number with
    | some _ => yes.run text p k
    | none => no.run text p k

/-- Whether a pattern matches anywhere in a text. -/
def Node.occursIn (n : Node) (text : Text) : Bool :=
  let chars := text.toArray
  (List.range (chars.size + 1)).any fun start => (n.run chars ⟨start, [], []⟩ some).isSome

end ScanPolicy.Pattern
