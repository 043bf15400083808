import Mathlib.Algebra.Group.Nat.Defs
import Mathlib.Tactic.Common
import ScanPolicy.Host.Atom

/-!
# How a token is read

What each reader of host atoms gives, said once for all proofs about atoms that were read.

- `HostAtom.parse_of_slash`, `HostAtom.parse_of_rangeParts?`, `HostAtom.parse_of_address`: tokens
  that go to one reader.
- `HostAtom.parse_spec`: a token is read as a block, as a range, as an address or as a name.
- `HostAtom.parseBlock_spec`, `HostAtom.parseRange_spec`, `HostAtom.rangeEnd_spec`: what blocks and
  ranges are made of.
- `HostAtom.token_of_parseBlock_error`, `HostAtom.token_of_parseRange_error`: a fault shows the token
  that it is about.
-/

namespace ScanPolicy.HostAtom

/-- A token with a slash is a block or nothing. -/
theorem parse_of_slash {token : Text} (h : '/' ∈ Text.trim token) :
    parse token = parseBlock (Text.trim token) := by
  unfold parse
  dsimp only
  rw [if_neg (by simpa using List.ne_nil_of_mem h), if_pos (List.contains_iff_mem.mpr h)]

/-- What blocks are made of: an address and a length, the first on the left of the slash. -/
theorem parseBlock_spec {token : Text} {a : HostAtom} (h : parseBlock token = .ok a) :
    ∃ (x : Address) (p : Nat), Address.parse? (Text.trim (Text.cut '/' token).1) = some x ∧
      blockLength? x.family (Text.trim ((Text.cut '/' token).2.getD [])) = some p ∧
      a = span .block token x.family (blockSpan x p).1 (blockSpan x p).2 := by
  unfold parseBlock at h
  dsimp only at h
  split at h
  · cases h
  next x hx =>
  split at h
  · next p hp =>
    cases h
    exact ⟨x, p, hx, hp, rfl⟩
  · split at h <;> cases h

/-- How the end of a range is written: as an address of the family of the start, or as the last group
of one. -/
theorem rangeEnd_spec {start : Address} {token right : Text} {kind : SpanKind} {last : Nat}
    (h : rangeEnd start token right = .ok (kind, last)) :
    (kind = .range ∧ Address.parse? right = some ⟨start.family, last⟩) ∨
      kind = .shortRange ∧ ∃ n < 2 ^ start.family.groupBits, last = replaceGroup start n := by
  unfold rangeEnd at h
  split at h
  · next e he =>
    split at h
    · next hfamily =>
      cases h
      exact .inl ⟨rfl, hfamily ▸ he⟩
    · cases h
  · split at h
    · split at h
      · next n _ hn =>
        cases h
        exact .inr ⟨rfl, n, hn, rfl⟩
      · cases h
    · cases h

/-- What ranges are made of: a start, and an end that is not before it. -/
theorem parseRange_spec {start : Address} {token right : Text} {a : HostAtom}
    (h : parseRange start token right = .ok a) :
    ∃ kind last, rangeEnd start token (Text.trim right) = .ok (kind, last) ∧ start.value ≤ last ∧
      a = span kind token start.family start.value last := by
  unfold parseRange at h
  split at h
  · cases h
  next kind last hend =>
  split at h
  · cases h
  · next hlast =>
    cases h
    exact ⟨kind, last, hend, Nat.le_of_not_lt hlast, rfl⟩

/-- A token without a slash that has an address before its first dash is a range or nothing. -/
theorem parse_of_rangeParts? {token right : Text} {start : Address}
    (hslash : '/' ∉ Text.trim token)
    (hparts : rangeParts? (Text.trim token) = some (start, right)) :
    parse token = parseRange start (Text.trim token) right := by
  have hne : Text.trim token ≠ [] := by
    intro hnil
    rw [hnil] at hparts
    cases hparts
  unfold parse
  simp only [hparts]
  rw [if_neg (by simpa using hne), if_neg (by rwa [List.contains_iff_mem])]

/-- A token without a slash that is an address, and has none before its first dash, is one host. -/
theorem parse_of_address {token : Text} {x : Address} (hslash : '/' ∉ Text.trim token)
    (hparts : rangeParts? (Text.trim token) = none)
    (hx : Address.parse? (Text.trim token) = some x) :
    parse token = .ok (span .address (Text.trim token) x.family x.value x.value) := by
  have hne : Text.trim token ≠ [] := by
    intro hnil
    rw [hnil] at hx
    cases hx
  unfold parse
  simp only [hparts, hx]
  rw [if_neg (by simpa using hne), if_neg (by rwa [List.contains_iff_mem])]

/-- A token is read as a block, as a range, as an address or as a name. -/
theorem parse_spec {token : Text} {a : HostAtom} (h : parse token = .ok a) :
    parseBlock (Text.trim token) = .ok a ∨
      (∃ start right, rangeParts? (Text.trim token) = some (start, right) ∧
        parseRange start (Text.trim token) right = .ok a) ∨
      (∃ x, '/' ∉ Text.trim token ∧ rangeParts? (Text.trim token) = none ∧
        Address.parse? (Text.trim token) = some x ∧
        a = span .address (Text.trim token) x.family x.value x.value) ∨
      isHostname (Text.trim token) = true ∧
        a = hostname (Text.trim token) (Text.asciiLower (dropPoint (Text.trim token))) := by
  unfold parse at h
  dsimp only at h
  split at h
  · cases h
  split at h
  · exact .inl h
  next hslash =>
  rw [List.contains_iff_mem] at hslash
  split at h
  · next start right hparts => exact .inr (.inl ⟨start, right, hparts, h⟩)
  next hparts =>
  split at h
  · next x hx =>
    cases h
    exact .inr (.inr (.inl ⟨x, hslash, hparts, hx, rfl⟩))
  split at h
  · cases h
  split at h
  · next hname =>
    cases h
    exact .inr (.inr (.inr ⟨hname, rfl⟩))
  · cases h

/-! ## Faults -/

theorem token_of_parseBlock_error {token : Text} {e : HostError}
    (h : parseBlock token = .error e) : e.token = token := by
  unfold parseBlock at h
  dsimp only at h
  split at h
  · cases h
    rfl
  split at h
  · cases h
  split at h <;> cases h <;> rfl

theorem token_of_parseRange_error {start : Address} {token right : Text} {e : HostError}
    (h : parseRange start token right = .error e) : e.token = token := by
  unfold parseRange at h
  split at h
  · next e' hend =>
    cases h
    unfold rangeEnd at hend
    split at hend
    · split at hend <;> cases hend
      rfl
    split at hend
    · split at hend <;> cases hend
      rfl
    · cases hend
      rfl
  · split at h <;> cases h
    rfl

end ScanPolicy.HostAtom
