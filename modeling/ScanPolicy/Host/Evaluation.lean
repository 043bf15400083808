import ScanPolicy.Host.Exclusion
import ScanPolicy.Journal.Basic

/-!
# Membership and counting

A host expression denotes a finite set of hosts. Membership is decided atom by atom, and hosts
are counted by interval arithmetic: the canonical intervals of the expression less those of the
exclusions, plus the names that are not excluded. No address set is ever expanded.

- `HostList.contains`: whether an expression denotes a host.
- `HostList.count`: the number of denoted hosts that are not excluded, up to a cap.
- `CapFault`: a cap below zero is refused before the texts are read.
-/

namespace ScanPolicy

/-- A cap on the number of hosts that is below zero. -/
structure CapFault where
  cap : Int
deriving DecidableEq, Repr

namespace CapFault

/-- The words for the fault. -/
def message (f : CapFault) : Text := "max_hosts must be >= 0, got ".toList ++ Text.ofInt f.cap

end CapFault

namespace HostList

/-- An entry about hosts. -/
def entry (message : String) (facts : List (String × Json)) : Entry :=
  ⟨"domain.hosts", Level.debug, message, facts⟩

/-- A text as a fact. -/
def textFact (t : Text) : Json := .text (String.ofList t)

/-! ## Membership -/

/-- Whether one of the atoms covers the host. -/
def denotes (atoms : List HostAtom) (host : HostAtom) : Bool := atoms.any (·.covers host)

/-- The atoms looked at before a covering one is found, that one included. -/
def visited (atoms : List HostAtom) (host : HostAtom) : List HostAtom :=
  match atoms with
  | [] => []
  | a :: rest => if a.covers host then [a] else a :: visited rest host

/-- An entry for each visited atom that denotes more hosts than the cap. -/
def largeAtomEntries (visited : List HostAtom) (cap : Nat) : List Entry :=
  (visited.filter fun a => cap < a.size).map fun a =>
    entry "hosts.contains.large_atom"
      [("atom", textFact a.text), ("size", .int a.size), ("max", .int cap)]

/-- Whether the expression denotes the candidate, for a cap that is not below zero. -/
def containsWithin (expression candidate : Text) (cap : Nat) : Traced Bool :=
  match HostAtom.parse candidate, HostAtom.parseList expression with
  | .error e, _ => .noting false (entry "hosts.contains.unparseable" [("error", textFact e.message)])
  | .ok _, .error e =>
    .noting false (entry "hosts.contains.unparseable" [("error", textFact e.message)])
  | .ok host, .ok atoms =>
    if host.isSingle then ⟨denotes atoms host, largeAtomEntries (visited atoms host) cap⟩
    else .noting false (entry "hosts.contains.not_single" [("candidate", textFact candidate)])

/-- Whether the candidate is one of the hosts that the expression denotes. The answer does not
depend on the cap; texts that cannot be read denote nothing. -/
def contains (expression candidate : Text) : Int → Traced (Except CapFault Bool)
  | .ofNat cap => (containsWithin expression candidate cap).andThen fun b => .quiet (.ok b)
  | .negSucc n => .quiet (.error ⟨.negSucc n⟩)

/-! ## Counting -/

/-- The number of addresses of one family that the atoms denote and that are not excluded. -/
def liveAddresses (atoms : List HostAtom) (excluded : Exclusion) (family : Family) : Nat :=
  Interval.total
    (Interval.subtract (Interval.merge (Exclusion.spansOf family atoms)) (excluded.spans family))

/-- The number of names among the atoms that are not excluded. -/
def liveNames (atoms : List HostAtom) (excluded : Exclusion) : Nat :=
  ((Exclusion.namesOf atoms).filter fun n => !excluded.names.contains n).length

/-- The number of distinct hosts that the atoms denote and that are not excluded. -/
def size (atoms : List HostAtom) (excluded : Exclusion) : Nat :=
  liveAddresses atoms excluded .v4 + liveAddresses atoms excluded .v6 + liveNames atoms excluded

/-- The number of hosts up to a cap that is not below zero. -/
def countWithin (expression exclude : Text) (cap : Nat) : Traced Nat :=
  match HostAtom.parseList expression, HostAtom.parseList exclude with
  | .error e, _ => .noting 0 (entry "hosts.count.unparseable" [("error", textFact e.message)])
  | .ok _, .error e => .noting 0 (entry "hosts.count.unparseable" [("error", textFact e.message)])
  | .ok atoms, .ok excludedAtoms =>
    let n := min cap (size atoms (Exclusion.ofAtoms excludedAtoms))
    .noting n (entry "hosts.count"
      [("atoms", .int atoms.length), ("count", .int n), ("max", .int cap)])

/-- The number of distinct hosts that the expression denotes and that are not excluded, up to the
cap. Texts that cannot be read give zero. -/
def count (expression exclude : Text) : Int → Traced (Except CapFault Nat)
  | .ofNat cap => (countWithin expression exclude cap).andThen fun n => .quiet (.ok n)
  | .negSucc n => .quiet (.error ⟨.negSucc n⟩)

end HostList

end ScanPolicy
