import ScanPolicy.Pattern.Escape
import ScanPolicy.Text.Identifier
import ScanPolicy.Text.Numeral

/-!
# Opening parentheses

What a parenthesis opens depends on the characters after it: a group with or without a name, a
look to one side, a condition, modes for a group or for the whole pattern, or a comment.

- `Opening`: what can be opened.
- `Opened`: what the characters after a parenthesis turn out to be.
- `Reading.opened`: reads them.
-/

namespace ScanPolicy.Pattern

/-- What is open, up to its closing parenthesis. -/
inductive Opening where
  | whole
  | plain
  | capture (number : Nat)
  | atomic
  /-- A look; `outermost` is a look back that stands in no other. -/
  | look (back negated outermost : Bool)
  | condition (number : Nat)
deriving DecidableEq, Repr

/-- What the characters after an opening parenthesis turn out to be. -/
inductive Opened where
  /-- Something to be closed later, read in a mode. -/
  | frame (opening : Opening) (mode : Mode)
  /-- A complete pattern. -/
  | node (n : Node)
  /-- A comment. -/
  | comment
  /-- Flags for the whole pattern. -/
  | flags (fs : List Flag)

namespace Reading

/-! ## Flags -/

/-- The flag that a token stands for. -/
def flagOf? : Token → Option Flag
  | .plain c => Flag.ofChar? c
  | .escaped _ => none

/-- The cause for a token that is no flag: a letter is an unknown flag, anything else stands in
the place of something missing. -/
def notAFlag (missing : Cause) (t : Token) : Cause :=
  if t.holds Text.isLetter then .unknownFlag else missing

/-- The flags that a group switches off, of which the first is `f`; a colon ends them. -/
def flagsOff : Nat → Flag → List Flag → Reading (List Flag)
  | 0, _, _ => fail .missingColon
  | fuel + 1, f, off => do
    if f.isAlphabet then fail .alphabetOff
    let here ← position
    match ← next with
    | none => fail .missingColon
    | some t =>
      if t = .plain ':' then return f :: off
      else match flagOf? t with
        | some g => flagsOff fuel g (f :: off)
        | none => failAt (notAFlag .missingColon t) here

/-- The flags that are switched on, of which the first is `f`, and the character that ends them. -/
def flagsOn : Nat → Flag → List Flag → Reading (List Flag × Char)
  | 0, _, _ => fail .missingFlagEnd
  | fuel + 1, f, on => do
    if f = .localAlphabet then fail .localFlag
    if f.isAlphabet && on.any fun g => g.isAlphabet && g ≠ f then fail .mixedFlags
    let here ← position
    match ← next with
    | none => fail .missingFlagEnd
    | some t =>
      match t with
      | .plain ')' => return (f :: on, ')')
      | .plain ':' => return (f :: on, ':')
      | .plain '-' => return (f :: on, '-')
      | _ => match flagOf? t with
        | some g => flagsOn fuel g (f :: on)
        | none => failAt (notAFlag .missingFlagEnd t) here

/-- What flags open: the modes of a group, or those of the whole pattern. `first` is the first
flag, or none after a minus sign. -/
def flagGroup (m : Mode) (first : Option Flag) : Reading Opened := do
  let fuel := (← rest).length + 1
  let (on, closing) ← match first with
    | some f => flagsOn fuel f []
    | none => pure ([], '-')
  if closing = ')' then return .flags on
  if on.contains .template then failAt .wholeFlagOn ((← position) - 1)
  let off ←
    if closing = '-' then do
      let here ← position
      match ← next with
      | none => fail .missingFlag
      | some t => match flagOf? t with
        | some f => flagsOff fuel f []
        | none => failAt (notAFlag .missingFlag t) here
    else pure []
  if off.contains .template then failAt .wholeFlagOff ((← position) - 1)
  if on.any off.contains then failAt .flagOnAndOff ((← position) - 1)
  return .frame .plain (off.foldl (Mode.switch false) (on.foldl (Mode.switch true) m))

/-! ## Names and numbers of groups -/

/-- A name of a group, and the position where it starts. -/
def groupName (closing : Char) : Reading (Text × Nat) := do
  let (text, start) ← name "group name" closing
  if Text.isIdentifier text then return (text, start) else failAt (.badGroupName text) start

/-- Open a group that remembers what it takes; a name is given with the position where it
starts. -/
def openGroup (named : Option (Text × Nat)) : Reading Nat := do
  let s ← get
  let number := s.widths.length
  let widths := s.widths ++ [none]
  match named with
  | none =>
    set { s with widths }
    return number
  | some (name, start) =>
    match s.names.lookup name with
    | some before => failAt (.groupRedefined name number before) start
    | none =>
      set { s with widths, names := (name, number) :: s.names }
      return number

/-- What a group with a name took, again. -/
def namedReference (m : Mode) : Reading Node := do
  let (name, start) ← groupName ')'
  match (← get).names.lookup name with
  | none => failAt (.unknownGroupName name) start
  | some number => reference m number start

/-- The most groups that a pattern may have. -/
def groupLimit : Nat := 2147483647

/-- The number of the group that a condition asks for, by name or by number. The group may be
opened later. -/
def conditionGroup : Reading Nat := do
  let (text, start) ← name "group name" ')'
  let number ←
    if Text.isIdentifier text then
      match (← get).names.lookup text with
      | some number => pure number
      | none => failAt (.unknownGroupName text) start
    else match Text.toInt? text with
      | some (.ofNat 0) => failAt .badGroupNumber start
      | some (.ofNat number) =>
        if groupLimit ≤ number then failAt (.noSuchGroup number) start
        else
          modify fun s =>
            if s.awaited.any (·.1 == number) then s
            else { s with awaited := s.awaited ++ [(number, start)] }
          pure number
      | _ => failAt (.badGroupName text) start
  checkLook number
  return number

/-! ## Parentheses -/

/-- A comment up to its closing parenthesis, or to the end of the text. -/
def comment (start : Nat) : Reading Opened := do
  let tokens ← rest
  let inside := tokens.takeWhile (· ≠ .plain ')')
  skip inside.length
  if inside.length = tokens.length then failAt .unclosedComment start
  skip 1
  return .comment

/-- A look ahead. -/
def lookAhead (m : Mode) (negated : Bool) : Reading Opened := do
  return .frame (.look false negated false) m

/-- A look back; the groups from before it are counted. -/
def lookBack (m : Mode) (negated : Bool) : Reading Opened := do
  let s ← get
  match s.beforeLook with
  | some _ => return .frame (.look true negated false) m
  | none =>
    set { s with beforeLook := some s.widths.length }
    return .frame (.look true negated true) m

/-- What a parenthesis at `start` opens that is followed by a question mark, both of which have
been read. -/
def extension (m : Mode) (start : Nat) : Reading Opened := do
  match ← next with
  | none => fail .unexpectedEnd
  | some t =>
    match t with
    | .plain 'P' =>
      if ← accept '<' then
        return .frame (.capture (← openGroup (some (← groupName '>')))) m
      else if ← accept '=' then return .node (← namedReference m)
      else match ← next with
        | none => fail .unexpectedEnd
        | some u => failAt (.unknownExtension ('P' :: u.text)) (start + 1)
    | .plain ':' => return .frame .plain m
    | .plain '#' => comment start
    | .plain '=' => lookAhead m false
    | .plain '!' => lookAhead m true
    | .plain '<' =>
      match ← next with
      | none => fail .unexpectedEnd
      | some (.plain '=') => lookBack m false
      | some (.plain '!') => lookBack m true
      | some u => failAt (.unknownExtension ('<' :: u.text)) (start + 1)
    | .plain '(' => return .frame (.condition (← conditionGroup)) m
    | .plain '>' => return .frame .atomic m
    | .plain '-' => flagGroup m none
    | _ => match flagOf? t with
      | some f => flagGroup m (some f)
      | none => failAt (.unknownExtension t.text) (start + 1)

/-- What a parenthesis at `start` opens, which has been read. -/
def opened (m : Mode) (start : Nat) : Reading Opened := do
  if ← accept '?' then extension m start
  else return .frame (.capture (← openGroup none)) m

end Reading

end ScanPolicy.Pattern
