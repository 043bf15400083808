import ScanPolicy.Text.Blank
import ScanPolicy.Text.DecimalDigit

/-!
# Internet addresses

An address is a number of its family: 32 bits for version 4, 128 bits for version 6.

- `Address.v4?`: four decimal octets joined by points.
- `Address.v6?`: eight groups of hexadecimal digits joined by colons, of which the last two may
  be written as a version 4 address and one run may be left out as `::`; a scope after a percent
  sign does not change the number.
- `Address.parse?`: an address of either family.
-/

namespace ScanPolicy

/-- The two address families. -/
inductive Family where
  | v4
  | v6
deriving DecidableEq, Repr

namespace Family

/-- The number of bits of an address. -/
def bits : Family → Nat
  | v4 => 32
  | v6 => 128

/-- The number of the protocol version. -/
def version : Family → Nat
  | v4 => 4
  | v6 => 6

/-- The number of bits of the last group that a short range may replace. -/
def groupBits : Family → Nat
  | v4 => 8
  | v6 => 16

end Family

/-- An address: its family and its number. -/
structure Address where
  family : Family
  value : Nat
deriving DecidableEq, Repr

namespace Address

/-- The number written by digits `ds` in base `base`, most significant first. -/
def ofBase (base : Nat) (ds : List Nat) : Nat := ds.foldl (fun n d => n * base + d) 0

/-- An octet: one to three decimal digits, at most 255, and no leading zero. -/
def octet? (t : Text) : Option Nat :=
  if t.length ≤ 3 && (t == ['0'] || t.head? != some '0') then
    match Text.asciiNat? t with
    | some n => if n ≤ 255 then some n else none
    | none => none
  else none

/-- The number of a version 4 address. -/
def v4? (t : Text) : Option Nat :=
  let octets := Text.pieces '.' t
  if octets.length = 4 then (octets.mapM octet?).map (ofBase 256) else none

/-- A group of one to four hexadecimal digits. -/
def group? (t : Text) : Option Nat :=
  if t.length ≤ 4 then Text.hexNat? t else none

/-- The parts of a version 6 address, a version 4 address at the end written as two groups. -/
def groupTexts? (parts : List Text) : Option (List (Text ⊕ Nat)) :=
  match parts.getLast? with
  | some final =>
    if final.contains '.' then
      (v4? final).map fun n =>
        parts.dropLast.map Sum.inl ++ [Sum.inr (n / Nat.pow 2 16), Sum.inr (n % Nat.pow 2 16)]
    else some (parts.map Sum.inl)
  | none => none

/-- Whether a part is empty. -/
def isGap : Text ⊕ Nat → Bool
  | .inl t => t.isEmpty
  | .inr _ => false

/-- The number of a group that is written out. -/
def groupValue? : Text ⊕ Nat → Option Nat
  | .inl t => group? t
  | .inr n => some n

/-- The groups before and after the run left out. The parts are those around all colons, so a run
at either end of the address has two empty parts. -/
def splitGap : List (Text ⊕ Nat) → Option (List (Text ⊕ Nat) × List (Text ⊕ Nat))
  | parts =>
    let before := if parts.head?.any isGap then [] else parts.takeWhile (!isGap ·)
    let after := if parts.head?.any isGap then parts.drop 1 else parts.dropWhile (!isGap ·)
    match after with
    | gap :: rest =>
      if isGap gap && !rest.isEmpty then
        some (before, if rest.length == 1 && rest.head?.any isGap then [] else rest)
      else none
    | [] => none

/-- The number of a version 6 address without scope. -/
def v6Body? (t : Text) : Option Nat :=
  match groupTexts? (Text.pieces ':' t) with
  | none => none
  | some parts =>
    match splitGap parts with
    | some (before, after) =>
      if before.length + after.length ≤ 7 then
        match before.mapM groupValue?, after.mapM groupValue? with
        | some hi, some lo =>
          some (ofBase (Nat.pow 2 16) (hi ++ List.replicate (8 - hi.length - lo.length) 0 ++ lo))
        | _, _ => none
      else none
    | none =>
      if parts.length = 8 then (parts.mapM groupValue?).map (ofBase (Nat.pow 2 16)) else none

/-- The number of a version 6 address; a scope has at least one character, no percent sign and no
slash. -/
def v6? (t : Text) : Option Nat :=
  match Text.cut '%' t with
  | (body, none) => v6Body? body
  | (body, some scope) =>
    if scope.isEmpty || scope.contains '%' || scope.contains '/' then none else v6Body? body

/-- An address of either family. -/
def parse? (t : Text) : Option Address :=
  match v4? t with
  | some n => some ⟨.v4, n⟩
  | none => (v6? t).map (⟨.v6, ·⟩)

end Address

end ScanPolicy
