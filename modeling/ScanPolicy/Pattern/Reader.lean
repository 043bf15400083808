import ScanPolicy.Pattern.CharClass
import ScanPolicy.Pattern.Opening

/-!
# Texts of patterns

A pattern is read token by token. What is open stands on a stack of frames; a closing parenthesis
turns the topmost frame into a pattern, which joins the items of the frame below.

- `Frame`: what has been read inside of something open; `Frame.close` completes it.
- `Reading.token`: one token inside of a frame.
- `Pattern.read`: the pattern of a text, or why there is none.
-/

namespace ScanPolicy.Pattern

/-- What has been read of something open. -/
structure Frame where
  opening : Opening
  /-- The position of the opening parenthesis. -/
  start : Nat
  mode : Mode
  /-- The alternatives before the current one, last first. -/
  earlier : List Node
  /-- The items of the current alternative, last first. -/
  items : List Node

namespace Frame

/-- A frame in which nothing has been read. -/
def fresh (opening : Opening) (start : Nat) (mode : Mode) : Frame := ⟨opening, start, mode, [], []⟩

/-- A frame with one more item. -/
def push (f : Frame) (n : Node) : Frame := { f with items := n :: f.items }

/-- A frame in which a new alternative starts. -/
def nextAlternative (f : Frame) : Frame :=
  { f with earlier := Node.all f.items.reverse :: f.earlier, items := [] }

/-- The alternatives of a frame, in order. -/
def alternatives (f : Frame) : List Node := (Node.all f.items.reverse :: f.earlier).reverse

/-- The pattern inside of a frame. -/
def body (f : Frame) : Node := Node.choice f.alternatives

/-- Whether nothing at all has been read in a frame. -/
def isFresh (f : Frame) : Bool := f.earlier.isEmpty && f.items.isEmpty

/-- The pattern that a closed frame stands for. -/
def close (f : Frame) : Node :=
  match f.opening with
  | .whole => f.body
  | .plain => .group none f.body
  | .capture number => .group (some number) f.body
  | .atomic => .atomic f.body
  | .look back negated _ => .look back negated f.body
  | .condition number =>
    match f.alternatives with
    | [yes, no] => .whether number yes no
    | _ => .whether number f.body .empty

end Frame

namespace Reading

/-! ## Repetitions -/

/-- A number that tells how often something is repeated, if there is one. -/
def count? (digits : Text) : Reading (Option Nat) :=
  if digits.isEmpty then pure none
  else if Text.numeralLimit < digits.length then throw (.breach (.longNumeral digits.length))
  else
    let n := (Text.asciiNat? digits).getD 0
    if repeatLimit ≤ n then throw (.breach .numberTooLarge) else pure (some n)

/-- The digits at the start of a row of tokens, and the tokens after them. -/
def digitsOf (tokens : List Token) : Text × List Token :=
  (tokensText (tokens.takeWhile (Token.holds Char.isDigit)),
    tokens.dropWhile (Token.holds Char.isDigit))

/-- The bounds between braces of which the first has been read, if that is what the tokens are. -/
def braces? : Reading (Option (Nat × Option Nat)) := do
  let here ← position
  let tokens ← rest
  if tokens.head? = some (.plain '\x7d') then return none
  let (low, afterLow) := digitsOf tokens
  let (high, afterHigh) := match afterLow with
    | .plain ',' :: more => digitsOf more
    | _ => (low, afterLow)
  match afterHigh with
  | .plain '\x7d' :: afterBraces =>
    skip (tokens.length - afterBraces.length)
    let least := (← count? low).getD 0
    let most ← count? high
    if most.any (· < least) then failAt .leastAboveMost here
    return some (least, most)
  | _ => return none

/-- The bounds that a character asks for, if it asks for a repetition. -/
def bounds? : Char → Reading (Option (Nat × Option Nat))
  | '?' => pure (some (0, some 1))
  | '*' => pure (some (0, none))
  | '+' => pure (some (1, none))
  | '\x7b' => braces?
  | _ => pure none

/-- How a repetition goes about its work. -/
def greed : Reading Greed := do
  if ← accept '?' then return .lazy
  else if ← accept '+' then return .possessive
  else return .greedy

/-- The last item of a frame becomes a repetition; the sign for that stands at `start`. -/
def repeated (f : Frame) (least : Nat) (most : Option Nat) (start : Nat) : Reading Frame := do
  match f.items with
  | [] => failAt .nothingToRepeat start
  | item :: others =>
    if item.isAnchor then failAt .nothingToRepeat start
    else if item.isLoop then failAt .multipleRepeat start
    else return { f with items := .loop (← greed) least most item :: others }

/-! ## Tokens -/

/-- Whether a character is skipped where layout does not count. -/
def isLayout (c : Char) : Bool := c = ' ' || (9 ≤ c.toNat && c.toNat ≤ 13)

/-- Go to the end of the line. -/
def skipLine : Reading Unit := do
  let inside := (← rest).takeWhile (· ≠ .plain '\n')
  skip inside.length
  let _ ← next
  return ()

/-- What a parenthesis at `start` does to the frame it stands in: it opens a frame of its own, or
the frame goes on. Flags for the whole pattern stand at its start. -/
def parenthesis (outermost : Bool) (f : Frame) (start : Nat) : Reading (Option Frame × Frame) := do
  match ← opened f.mode start with
  | .frame opening mode => return (some f, .fresh opening start mode)
  | .node n => return (none, f.push n)
  | .comment => return (none, f)
  | .flags fs =>
    modify fun s => { s with flags := s.flags ++ fs }
    if outermost && f.isFresh then
      return (none, { f with mode := fs.foldl (Mode.switch true) f.mode })
    else failAt .flagsNotAtStart start

/-- One token at `start`, which has been read, inside of a frame: the frame that is put aside, if
the token opens one of its own, and the frame to go on with. -/
def token (outermost : Bool) (f : Frame) (start : Nat) : Token → Reading (Option Frame × Frame)
  | .escaped c => do return (none, f.push (← escape f.mode c start))
  | .plain c =>
    if f.mode.verbose && isLayout c then pure (none, f)
    else if f.mode.verbose && c = '#' then do
      skipLine
      return (none, f)
    else match c with
      | '[' => do return (none, f.push (← charClass f.mode start))
      | '(' => parenthesis outermost f start
      | '.' => pure (none, f.push f.mode.point)
      | '^' => pure (none, f.push f.mode.caret)
      | '$' => pure (none, f.push f.mode.dollar)
      | _ => do
        match ← bounds? c with
        | some (least, most) => return (none, ← repeated f least most start)
        | none => return (none, f.push (f.mode.code c.toNat))

/-- The pattern of a frame that is closed; a numbered group becomes known by its width. -/
def closed (f : Frame) : Reading Node := do
  match f.opening with
  | .capture number =>
    modify fun s => { s with widths := s.widths.set number (some f.body.width) }
  | .look true _ true => modify fun s => { s with beforeLook := none }
  | _ => pure ()
  return f.close

/-- A pattern inside of the frame `f`, with the frames around it on a stack. -/
def frames : Nat → List Frame → Frame → Reading Node
  | 0, _, f => failAt .unclosedGroup f.start
  | fuel + 1, stack, f => do
    let here ← position
    match (← rest).head?, stack with
    | none, [] => return f.close
    | none, _ :: _ => failAt .unclosedGroup f.start
    | some (.plain ')'), [] => return f.close
    | some (.plain ')'), outer :: others =>
      skip 1
      frames fuel others (outer.push (← closed f))
    | some (.plain '|'), _ =>
      match f.opening, f.earlier with
      | .condition _, _ :: _ => failAt .tooManyBranches here
      | _, _ =>
        skip 1
        frames fuel stack f.nextAlternative
    | some t, _ =>
      skip 1
      match ← token stack.isEmpty f here t with
      | (some outer, inner) => frames fuel (outer :: stack) inner
      | (none, same) => frames fuel stack same

end Reading

/-- What stands against a pattern once it has been read: with the flag for templates a repetition,
and otherwise a look back over a changing number of characters. -/
def Node.objection? (template : Bool) : Node → Option Cause
  | empty | test _ | anchor _ | again .. => none
  | seq a b => (a.objection? template).or (b.objection? template)
  | either a b => (a.objection? template).or (b.objection? template)
  | group _ body => body.objection? template
  | atomic body => body.objection? template
  | whether _ yes no => (yes.objection? template).or (no.objection? template)
  | look back _ body =>
    if back && !body.width.isFixed then some .lookBackNotFixed else body.objection? template
  | loop greed _ _ body =>
    if template then
      some (.loopInTemplate (match greed with
        | .greedy => "MAX_REPEAT"
        | .lazy => "MIN_REPEAT"
        | .possessive => "POSSESSIVE_REPEAT"))
    else body.objection? template

/-- What the whole text of a pattern has to hold, after its tokens have been read. -/
def complete (n : Node) (s : Cursor) : Except Failure Node :=
  if s.flags.contains .ascii && s.flags.contains .unicode then .error (.breach .mixedAlphabets)
  else if !s.tokens.isEmpty then .error (.defect ⟨.unopenedGroup, some s.position⟩)
  else match s.awaited.find? fun (number, _) => s.widths.length ≤ number with
    | some (number, place) => .error (.defect ⟨.noSuchGroup number, some place⟩)
    | none =>
      match n.objection? (s.flags.contains .template) with
      | some cause => .error (.defect ⟨cause, none⟩)
      | none => .ok n

/-- The pattern of a text, or why there is none. -/
def read (t : Text) : Except Failure Node := do
  let (tokens, dangling) := Token.ofText t
  let whole := do
    Reading.skip 0
    Reading.frames (tokens.length + 1) [] (.fresh .whole 0 {})
  let (n, s) ← whole.run { tokens, position := 0, dangling }
  complete n s

end ScanPolicy.Pattern
