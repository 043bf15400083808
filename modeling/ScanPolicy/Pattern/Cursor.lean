import ScanPolicy.Pattern.Fault
import ScanPolicy.Pattern.Mode

/-!
# Reading a pattern

The text of a pattern is a row of tokens: characters, and backslashes with the character after
them. A backslash at the end is a defect that shows as soon as everything before it has been read.

- `Token.ofText`: the tokens of a text.
- `Cursor`: the tokens that are left, and what is known about the groups so far.
- `Reading`: a step of the reader; `Reading.skip` goes over tokens, `Reading.accept` over one
  character if it is there, `Reading.name` over a name up to the character that closes it.
-/

namespace ScanPolicy.Pattern

/-- A character of a pattern, or a backslash with the character after it. -/
inductive Token where
  | plain (c : Char)
  | escaped (c : Char)
deriving DecidableEq, Repr

namespace Token

/-- The text of a token. -/
def text : Token → Text
  | plain c => [c]
  | escaped c => ['\\', c]

/-- Whether a token is a character with a property. -/
def holds (p : Char → Bool) : Token → Bool
  | plain c => p c
  | escaped _ => false

/-- The tokens of a text, and whether a lone backslash follows them. -/
def ofText : Text → List Token × Bool
  | [] => ([], false)
  | ['\\'] => ([], true)
  | '\\' :: c :: rest =>
    let (tokens, dangling) := ofText rest
    (escaped c :: tokens, dangling)
  | c :: rest =>
    let (tokens, dangling) := ofText rest
    (plain c :: tokens, dangling)

end Token

/-- The text of several tokens. -/
def tokensText (tokens : List Token) : Text := tokens.flatMap Token.text

/-- How far the reading of a pattern has come. -/
structure Cursor where
  tokens : List Token
  position : Nat
  /-- Whether a lone backslash follows the tokens. -/
  dangling : Bool
  /-- The numbers of named groups. -/
  names : List (Text × Nat) := []
  /-- The widths of the groups, by number; none for an open group and for the whole pattern. -/
  widths : List (Option Width) := [none]
  /-- Inside of a look back, the number of groups that were opened before it. -/
  beforeLook : Option Nat := none
  /-- The groups that conditions ask for, with the positions where they are first named. -/
  awaited : List (Nat × Nat) := []
  /-- The flags given for the whole pattern. -/
  flags : List Flag := []

namespace Cursor

/-- Whether a group has been opened and closed. -/
def isClosed (s : Cursor) (number : Nat) : Bool := (s.widths[number]?.join).isSome

/-- The width of a closed group. -/
def groupWidth (s : Cursor) (number : Nat) : Width := (s.widths[number]?.join).getD .zero

end Cursor

/-- A step of the reader. -/
abbrev Reading := StateT Cursor (Except Failure)

namespace Reading

/-- Stop with a defect at a position. -/
def failAt {α : Type} (cause : Cause) (position : Nat) : Reading α :=
  throw (.defect ⟨cause, some position⟩)

/-- Stop with a defect where the reading has come to. -/
def fail {α : Type} (cause : Cause) : Reading α := do failAt cause (← get).position

/-- The tokens that are left. -/
def rest : Reading (List Token) := do return (← get).tokens

/-- The position of the next token. -/
def position : Reading Nat := do return (← get).position

/-- Go over some tokens. -/
def skip (count : Nat) : Reading Unit := do
  let s ← get
  let position := s.position + (tokensText (s.tokens.take count)).length
  let tokens := s.tokens.drop count
  if tokens.isEmpty && s.dangling then failAt .danglingEscape position
  else set { s with tokens, position }

/-- The next token, which is gone over. -/
def next : Reading (Option Token) := do
  match (← rest).head? with
  | some t =>
    skip 1
    return some t
  | none => return none

/-- Whether a character comes next, which is then gone over. -/
def accept (c : Char) : Reading Bool := do
  if (← rest).head? = some (.plain c) then
    skip 1
    return true
  else return false

/-- The characters with a property that come next, at most `count` of them. -/
def charsUpTo (count : Nat) (p : Char → Bool) : Reading Text := do
  let tokens := ((← rest).take count).takeWhile (Token.holds p)
  skip tokens.length
  return tokensText tokens

/-- A name up to a closing character, and the position where it starts. -/
def name (what : String) (closing : Char) : Reading (Text × Nat) := do
  let start ← position
  let tokens ← rest
  let inside := tokens.takeWhile (· ≠ .plain closing)
  let text := tokensText inside
  skip inside.length
  if inside.length = tokens.length then
    if inside.isEmpty then fail (.missingName what) else failAt (.unclosedName closing) start
  else
    skip 1
    if inside.isEmpty then failAt (.missingName what) start else return (text, start)

end Reading

end ScanPolicy.Pattern
