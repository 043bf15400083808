import ScanPolicy.Host.Address
import ScanPolicy.Text.Numeral
import ScanPolicy.Text.Quoted
import ScanPolicy.Text.Case

/-!
# Host atoms

A host list is made of atoms. An atom is a name, or an inclusive interval of addresses of one
family that was written as one address, a block, a range or a short range.

- `HostAtom.covers`: whether an atom denotes a host.
- `HostAtom.parse`: reads one token; `HostError` says what is wrong with a token that is no atom.
- `HostAtom.parseList`: reads a host list, token by token.
-/

namespace ScanPolicy

/-- How an interval of addresses was written. -/
inductive SpanKind where
  | address
  | block
  | range
  | shortRange
deriving DecidableEq, Repr

/-- One unit of a host list; `text` is the token as written, without blanks around it. -/
inductive HostAtom where
  | hostname (text name : Text)
  | span (kind : SpanKind) (text : Text) (family : Family) (first last : Nat)
deriving DecidableEq, Repr

/-- Why a token is no host atom. -/
inductive HostError.Cause where
  | emptyHost
  | malformedAddress
  | lengthOutOfRange
  | malformedLength
  | mixedFamilies
  | octetOutOfRange
  | malformedRangeEnd
  | endPrecedesStart
  | malformedHost
deriving DecidableEq, Repr

/-- A token that is no host atom. -/
structure HostError where
  cause : HostError.Cause
  token : Text
deriving DecidableEq, Repr

namespace HostError

/-- The words for a cause. -/
def Cause.reason : Cause → String
  | emptyHost => "empty host"
  | malformedAddress => "malformed address"
  | lengthOutOfRange => "prefix length out of range"
  | malformedLength => "malformed prefix length"
  | mixedFamilies => "range mixes address families"
  | octetOutOfRange => "octet out of range"
  | malformedRangeEnd => "malformed range end"
  | endPrecedesStart => "range end precedes start"
  | malformedHost => "malformed host"

/-- Whether the token has the right form, but a number in it is out of its range. -/
def Cause.isRange : Cause → Bool
  | lengthOutOfRange | octetOutOfRange | endPrecedesStart => true
  | _ => false

/-- The cause and the token at fault. -/
def message (e : HostError) : Text :=
  e.cause.reason.toList ++ ':' :: ' ' :: Text.quoted e.token

end HostError

namespace HostAtom

/-- The token as written. -/
def text : HostAtom → Text
  | hostname t _ => t
  | span _ t _ _ _ => t

/-- The number of the protocol version, zero for a name. -/
def version : HostAtom → Nat
  | hostname .. => 0
  | span _ _ family _ _ => family.version

/-- The first address, zero for a name. -/
def first : HostAtom → Nat
  | hostname .. => 0
  | span _ _ _ n _ => n

/-- The last address, zero for a name. -/
def last : HostAtom → Nat
  | hostname .. => 0
  | span _ _ _ _ n => n

/-- The name of a host that is written as one. -/
def name? : HostAtom → Option Text
  | hostname _ name => some name
  | span .. => none

/-- Whether an atom was written as one host: a name or an address. -/
def isSingle : HostAtom → Bool
  | hostname .. => true
  | span kind .. => kind == .address

/-- The number of hosts that an atom denotes. -/
def size : HostAtom → Nat
  | hostname .. => 1
  | span _ _ _ first last => last + 1 - first

/-- Whether an atom denotes a host: the same name, or an interval of the same family that holds
the host's first address. -/
def covers : HostAtom → HostAtom → Bool
  | hostname _ n, hostname _ m => n == m
  | span _ _ f first last, span _ _ g host _ => f == g && first ≤ host && host ≤ last
  | _, _ => false

/-! ## Blocks -/

/-- The prefix length written by decimal digits. -/
def digitsLength? (family : Family) (t : Text) : Option Nat :=
  if t.length ≤ Text.numeralLimit then
    match Text.asciiNat? t with
    | some p => if p ≤ family.bits then some p else none
    | none => none
  else none

/-- The version 4 mask whose first `p` bits are set. -/
def netmask (p : Nat) : Nat := Nat.pow 2 32 - Nat.pow 2 (32 - p)

/-- The prefix length whose mask is `n`, or else whose mask is the complement of `n`. -/
def maskLength? (n : Nat) : Option Nat :=
  let lengths := List.range 33
  match lengths.find? fun p => netmask p == n with
  | some p => some p
  | none => lengths.find? fun p => netmask p == Nat.pow 2 32 - 1 - n

/-- The prefix length of a block: digits, or for version 4 a mask. -/
def blockLength? (family : Family) (t : Text) : Option Nat :=
  match digitsLength? family t, family with
  | some p, _ => some p
  | none, .v4 => (Address.v4? t).bind maskLength?
  | none, .v6 => none

/-- The usable addresses of a block: on a block of more than two addresses the lowest one is left
out, and for version 4 also the highest one. -/
def blockSpan (a : Address) (p : Nat) : Nat × Nat :=
  let size := Nat.pow 2 (a.family.bits - p)
  let low := a.value / size * size
  let high := low + size - 1
  if 2 < size then (low + 1, if a.family = .v4 then high - 1 else high) else (low, high)

/-- A token with a slash in it. -/
def parseBlock (token : Text) : Except HostError HostAtom :=
  let (left, right) := Text.cut '/' token
  match Address.parse? (Text.trim left) with
  | none => .error ⟨.malformedAddress, token⟩
  | some a =>
    let lengthText := Text.trim (right.getD [])
    match blockLength? a.family lengthText with
    | some p =>
      let (first, last) := blockSpan a p
      .ok (span .block token a.family first last)
    | none =>
      if !lengthText.isEmpty && lengthText.all Char.isDigit then
        .error ⟨.lengthOutOfRange, token⟩
      else .error ⟨.malformedLength, token⟩

/-! ## Ranges -/

/-- The number that a short range end stands for in a family, if it has the form of one: up to
three decimal digits for version 4, up to four hexadecimal digits for version 6. -/
def shortEnd? : Family → Text → Option Nat
  | .v4, t => if t.length ≤ 3 then Text.asciiNat? t else none
  | .v6, t => Address.group? t

/-- The address with its last group replaced. -/
def replaceGroup (a : Address) (n : Nat) : Nat :=
  let size := Nat.pow 2 a.family.groupBits
  a.value / size * size + n

/-- The end of a range that starts at `start`: how it was written, and its number. -/
def rangeEnd (start : Address) (token right : Text) : Except HostError (SpanKind × Nat) :=
  match Address.parse? right with
  | some e =>
    if e.family = start.family then .ok (.range, e.value) else .error ⟨.mixedFamilies, token⟩
  | none =>
    match shortEnd? start.family right with
    | some n =>
      if n < Nat.pow 2 start.family.groupBits then .ok (.shortRange, replaceGroup start n)
      else .error ⟨.octetOutOfRange, token⟩
    | none => .error ⟨.malformedRangeEnd, token⟩

/-- A token with a dash in it whose left side is the address `start`. -/
def parseRange (start : Address) (token right : Text) : Except HostError HostAtom :=
  match rangeEnd start token (Text.trim right) with
  | .error e => .error e
  | .ok (kind, last) =>
    if last < start.value then .error ⟨.endPrecedesStart, token⟩
    else .ok (span kind token start.family start.value last)

/-! ## Names -/

/-- Letters, digits and the underscore. -/
def isLabelChar (c : Char) : Bool := c.isAlphanum || c = '_'

/-- A label: up to 63 letters, digits, underscores and dashes, with no dash at either end. -/
def isLabel (t : Text) : Bool :=
  1 ≤ t.length && t.length ≤ 63 && t.all (fun c => isLabelChar c || c = '-') &&
    t.head? != some '-' && t.getLast? != some '-'

/-- A text without one point at its end. -/
def dropPoint (t : Text) : Text := if t.getLast? = some '.' then t.dropLast else t

/-- The labels of a hostname: up to 253 characters, one point allowed at the end. -/
def labels? (t : Text) : Option (List Text) :=
  let labels := Text.pieces '.' (dropPoint t)
  if 1 ≤ t.length && t.length ≤ 253 && labels.all isLabel then some labels else none

/-- Whether a text is a hostname; the last label of one is not a number. -/
def isHostname (t : Text) : Bool :=
  match labels? t with
  | some labels => !(labels.getLast?.getD []).all Char.isDigit
  | none => false

/-! ## Tokens -/

/-- The address before the first dash of a token and the text after it. -/
def rangeParts? (t : Text) : Option (Address × Text) :=
  match Text.cut '-' t with
  | (left, some right) => (Address.parse? (Text.trim left)).map (·, right)
  | (_, none) => none

/-- Reads one token of a host list. Names may hold dashes, so a dash makes a range only after an
address. -/
def parse (token : Text) : Except HostError HostAtom :=
  let t := Text.trim token
  if t.isEmpty then .error ⟨.emptyHost, token⟩
  else if t.contains '/' then parseBlock t
  else match rangeParts? t with
    | some (start, right) => parseRange start t right
    | none =>
      match Address.parse? t with
      | some a => .ok (span .address t a.family a.value a.value)
      | none =>
        if t.all (fun c => c.isDigit || c = '.') || t.contains ':' then
          .error ⟨.malformedAddress, t⟩
        else if isHostname t then .ok (hostname t (Text.asciiLower (dropPoint t)))
        else .error ⟨.malformedHost, t⟩

/-- Whether a character ends a token of a host list. -/
def isSeparator (c : Char) : Bool := c = ',' || c = '\r' || c = '\n'

/-- The tokens between the separators of a host list, blank ones included. -/
def tokens : Text → List Text
  | [] => [[]]
  | c :: rest =>
    if isSeparator c then [] :: tokens rest
    else match tokens rest with
      | [] => [[c]]
      | t :: ts => (c :: t) :: ts

/-- Reads a host list: the atoms in order, or what is wrong with the first token that is none. -/
def parseList (expression : Text) : Except HostError (List HostAtom) :=
  ((tokens expression).filter fun t => !Text.allBlank t).mapM parse

end HostAtom

end ScanPolicy
