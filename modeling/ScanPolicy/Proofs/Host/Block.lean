import Mathlib.Data.Nat.Basic
import ScanPolicy.Proofs.Host.Literal

/-!
# Blocks

A block is an address, a slash and the length of a prefix. It stands for the addresses whose first
bits are those of the address, less the ones that hosts do not use: the lowest one, and in version 4
also the highest one, unless the block has two addresses at most.

- `HostAtom.WritesLength`: how a length is written, in digits, as a netmask or as a hostmask.
- `HostAtom.blockLength?_eq_some_iff`: the lengths that are read are those that are written.
- `HostAtom.mem_blockSpan_iff`: the addresses of a block by their bits.
- `HostAtom.parse_block`: blocks in a host list.
-/

namespace ScanPolicy

namespace Family

/-- The number that the first `p` bits of an address are. -/
def topBits (f : Family) (p n : Nat) : Nat := n / 2 ^ (f.bits - p)

/-- The number that the bits behind the first `p` are. -/
def lowBits (f : Family) (p n : Nat) : Nat := n % 2 ^ (f.bits - p)

/-- Whether hosts use an address of a block with a prefix of `p` bits: of more than two addresses the
lowest one is not used, nor in version 4 the highest one. -/
def IsUsable (f : Family) (p n : Nat) : Prop :=
  p ≤ f.bits - 2 → f.lowBits p n ≠ 0 ∧ (f = .v4 → f.lowBits p n ≠ 2 ^ (f.bits - p) - 1)

theorem two_lt_size_iff (f : Family) (p : Nat) : 2 < 2 ^ (f.bits - p) ↔ p ≤ f.bits - 2 := by
  have hbits : 2 ≤ f.bits := by cases f <;> decide
  have hpow : 2 ^ 1 < 2 ^ (f.bits - p) ↔ 1 < f.bits - p := Nat.pow_lt_pow_iff_right (by decide)
  rw [Nat.pow_one] at hpow
  omega

/-- An address with the first bits of another one fits into as many bits. -/
theorem lt_of_topBits_eq {f : Family} {p m n : Nat} (h : f.topBits p m = f.topBits p n)
    (hn : n < 2 ^ f.bits) : m < 2 ^ f.bits := by
  have hsplit : 2 ^ f.bits = 2 ^ (f.bits - (f.bits - p)) * 2 ^ (f.bits - p) := by
    rw [← Nat.pow_add, Nat.sub_add_cancel (Nat.sub_le _ _)]
  have hsize : 0 < 2 ^ (f.bits - p) := Nat.two_pow_pos _
  rw [hsplit, ← Nat.div_lt_iff_lt_mul hsize] at hn ⊢
  exact lt_of_eq_of_lt h hn

end Family

namespace HostAtom

/-! ## The addresses of a block -/

/-- The addresses of a block are those with its first bits that hosts use. -/
theorem mem_blockSpan_iff (a : Address) (p n : Nat) :
    (blockSpan a p).1 ≤ n ∧ n ≤ (blockSpan a p).2 ↔
      a.family.topBits p n = a.family.topBits p a.value ∧ a.family.IsUsable p n := by
  have hsize : 0 < 2 ^ (a.family.bits - p) := Nat.two_pow_pos _
  have hlarge := a.family.two_lt_size_iff p
  -- in the block, the low bits count from its lowest address
  have hrest : n / 2 ^ (a.family.bits - p) = a.value / 2 ^ (a.family.bits - p) →
      n % 2 ^ (a.family.bits - p) =
        n - a.value / 2 ^ (a.family.bits - p) * 2 ^ (a.family.bits - p) := by
    intro h
    rw [← h, Nat.mod_eq_sub_mul_div, Nat.mul_comm]
  have hblock := Nat.div_eq_iff (x := n) (y := a.value / 2 ^ (a.family.bits - p)) hsize
  unfold blockSpan Family.topBits Family.IsUsable Family.lowBits
  rw [← hlarge]
  simp only [Nat.pow_eq]
  generalize 2 ^ (a.family.bits - p) = size at *
  generalize a.value / size * size = low at *
  by_cases hfamily : a.family = .v4
  · simp only [hfamily, if_true, forall_const]
    split <;> dsimp only <;> omega
  · simp only [hfamily, if_false, false_imp_iff, and_true]
    split <;> dsimp only <;> omega

/-! ## Lengths -/

/-- How the length of a prefix is written: in digits, or for version 4 as the mask of its bits or as
that of the other ones. A mask of no bits and one of all bits have the first meaning. -/
inductive WritesLength : Family → Text → Nat → Prop
  | digits {family : Family} {t : Text} {p : Nat} (hlength : t.length ≤ Text.numeralLimit)
      (hvalue : Text.asciiNat? t = some p) (hp : p ≤ family.bits) : WritesLength family t p
  | netmask {t : Text} {p : Nat} (hp : p ≤ 32)
      (hvalue : Address.v4? t = some (2 ^ 32 - 2 ^ (32 - p))) : WritesLength .v4 t p
  | hostmask {t : Text} {p : Nat} (hpos : 0 < p) (hp : p < 32)
      (hvalue : Address.v4? t = some (2 ^ (32 - p) - 1)) : WritesLength .v4 t p

theorem digitsLength?_eq_some_iff {family : Family} {t : Text} {p : Nat} :
    digitsLength? family t = some p ↔
      t.length ≤ Text.numeralLimit ∧ Text.asciiNat? t = some p ∧ p ≤ family.bits := by
  unfold digitsLength?
  split
  · next hlength =>
    cases hvalue : Text.asciiNat? t with
    | none => simp
    | some q =>
      by_cases hq : q ≤ family.bits
      · simp only [hq, if_true, Option.some.injEq, hlength, true_and]
        exact ⟨fun h => ⟨h, h ▸ hq⟩, fun h => h.1⟩
      · simp only [hq, if_false, reduceCtorEq, Option.some.injEq, false_iff, not_and]
        rintro - rfl
        exact hq
  · next hlength => simp [hlength]

/-- A mask has points, so it is no numeral. -/
theorem digitsLength?_of_v4? {family : Family} {t : Text} {n : Nat} (h : Address.v4? t = some n) :
    digitsLength? family t = none := by
  refine Option.eq_none_iff_forall_ne_some.mpr fun p hp => ?_
  have hdigits := Text.all_isDigit_of_asciiNat? (digitsLength?_eq_some_iff.mp hp).2.1
  have hpoint : '.' ∉ t := Text.not_mem_of_all_isDigit hdigits (by decide)
  unfold Address.v4? at h
  rw [Text.pieces_of_not_mem hpoint] at h
  cases h

theorem maskLength?_netmask {p : Nat} (hp : p ≤ 32) :
    maskLength? (2 ^ 32 - 2 ^ (32 - p)) = some p := by
  have hall : ∀ p < 33, maskLength? (2 ^ 32 - 2 ^ (32 - p)) = some p := by decide +kernel
  exact hall p (by omega)

theorem maskLength?_hostmask {p : Nat} (hpos : 0 < p) (hp : p < 32) :
    maskLength? (2 ^ (32 - p) - 1) = some p := by
  have hall : ∀ p < 32, 0 < p → maskLength? (2 ^ (32 - p) - 1) = some p := by decide +kernel
  exact hall p hp hpos

/-- A number with a mask length is the mask of so many bits, or else that of the others. -/
theorem maskLength?_spec {n p : Nat} (hn : n < 2 ^ 32) (h : maskLength? n = some p) :
    p ≤ 32 ∧ n = 2 ^ 32 - 2 ^ (32 - p) ∨ 0 < p ∧ p < 32 ∧ n = 2 ^ (32 - p) - 1 := by
  unfold maskLength? at h
  dsimp only at h
  split at h
  · next q hq =>
    cases h
    have hmem := List.mem_range.mp (List.mem_of_find?_eq_some hq)
    have hmask := List.find?_some hq
    rw [beq_iff_eq] at hmask
    exact .inl ⟨by omega, hmask.symm⟩
  · next hnone =>
    have hmem := List.mem_range.mp (List.mem_of_find?_eq_some h)
    have hmask := List.find?_some h
    rw [beq_iff_eq] at hmask
    change 2 ^ 32 - 2 ^ (32 - p) = 2 ^ 32 - 1 - n at hmask
    have hother : ∀ q < 33, 2 ^ 32 - 2 ^ (32 - q) ≠ n := fun q hq hmask =>
      List.find?_eq_none.mp hnone q (List.mem_range.mpr hq) (beq_iff_eq.mpr hmask)
    have hfirst := hother 0 (by decide)
    have hlast := hother 32 (by decide)
    have hpow : 2 ^ (32 - p) ≤ 2 ^ 32 := Nat.pow_le_pow_right (by decide) (Nat.sub_le _ _)
    have hpos : 0 < 2 ^ (32 - p) := Nat.two_pow_pos _
    refine .inr ⟨?_, ?_, by omega⟩
    · rcases Nat.eq_zero_or_pos p with rfl | hp
      · simp at hmask hlast
        omega
      · exact hp
    · by_contra hp
      obtain rfl : p = 32 := by omega
      simp at hmask hfirst
      omega

/-- The lengths that are read are those that are written. -/
theorem blockLength?_eq_some_iff {family : Family} {t : Text} {p : Nat} :
    blockLength? family t = some p ↔ WritesLength family t p := by
  constructor
  · intro h
    unfold blockLength? at h
    split at h
    · next q hq =>
      cases h
      obtain ⟨hlength, hvalue, hp⟩ := digitsLength?_eq_some_iff.mp hq
      exact .digits hlength hvalue hp
    · obtain ⟨n, hn, hp⟩ := Option.bind_eq_some_iff.mp h
      rcases maskLength?_spec (Address.v4?_spec hn).2 hp with ⟨hle, rfl⟩ | ⟨hpos, hlt, rfl⟩
      · exact .netmask hle hn
      · exact .hostmask hpos hlt hn
    · cases h
  · have hmask : ∀ {n : Nat}, Address.v4? t = some n → blockLength? .v4 t = maskLength? n := by
      intro n hn
      unfold blockLength?
      rw [digitsLength?_of_v4? hn, hn]
      rfl
    rintro (⟨hlength, hvalue, hp⟩ | ⟨hp, hvalue⟩ | ⟨hpos, hp, hvalue⟩)
    · unfold blockLength?
      rw [digitsLength?_eq_some_iff.mpr ⟨hlength, hvalue, hp⟩]
    · rw [hmask hvalue, maskLength?_netmask hp]
    · rw [hmask hvalue, maskLength?_hostmask hpos hp]

/-! ## Blocks in a host list -/

section Slash

variable {s q : Text}

theorem parse_slash (s q : Text) :
    parse (s ++ '/' :: q) = parseBlock (Text.trim (s ++ '/' :: q)) := by
  refine parse_of_slash ?_
  rw [Text.trim_append_cons _ (by decide)]
  simp

variable (hs : '/' ∉ s)
include hs

/-- A token is cut at its slash, and each side is read without the blanks around it. -/
theorem cut_trim_slash : Text.cut '/' (Text.trim (s ++ '/' :: q)) =
    (s.dropWhile Text.isBlank, some (q.rdropWhile Text.isBlank)) := by
  rw [Text.trim_append_cons _ (by decide)]
  exact Text.cut_append (fun hmem => hs ((List.dropWhile_sublist _).subset hmem)) _

/-- The blocks that are read: an address with a length that is written for its family. -/
theorem parse_slash_eq_ok_iff {b : HostAtom} : parse (s ++ '/' :: q) = .ok b ↔
    ∃ a p, Address.parse? (Text.trim s) = some a ∧ WritesLength a.family (Text.trim q) p ∧
      b = span .block (Text.trim (s ++ '/' :: q)) a.family (blockSpan a p).1 (blockSpan a p).2 := by
  rw [parse_slash]
  constructor
  · intro h
    obtain ⟨a, p, ha, hp, rfl⟩ := parseBlock_spec h
    rw [cut_trim_slash hs] at ha hp
    rw [Text.trim_dropWhile] at ha
    rw [Option.getD_some, Text.trim_rdropWhile] at hp
    exact ⟨a, p, ha, blockLength?_eq_some_iff.mp hp, rfl⟩
  · rintro ⟨a, p, ha, hp, rfl⟩
    unfold parseBlock
    rw [cut_trim_slash hs]
    dsimp only
    rw [Text.trim_dropWhile, ha, Option.getD_some, Text.trim_rdropWhile]
    dsimp only
    rw [blockLength?_eq_some_iff.mpr hp]

/-- A token with a slash that is no block has the form of one if its length has digits alone. -/
theorem isRange_of_parse_slash {e : HostError} (h : parse (s ++ '/' :: q) = .error e) :
    e.cause.isRange = true ↔ (Text.trim q ≠ [] ∧ (Text.trim q).all Char.isDigit = true) ∧
      ∃ a, Address.parse? (Text.trim s) = some a := by
  rw [parse_slash] at h
  unfold parseBlock at h
  rw [cut_trim_slash hs] at h
  dsimp only at h
  rw [Text.trim_dropWhile, Option.getD_some, Text.trim_rdropWhile] at h
  split at h
  · next ha =>
    cases h
    simp [HostError.Cause.isRange, ha]
  next a ha =>
  split at h
  · cases h
  split at h
  · next hdigits =>
    cases h
    simpa [HostError.Cause.isRange, ha] using hdigits
  · next hdigits =>
    cases h
    simpa [HostError.Cause.isRange, ha] using hdigits

/-- Blocks in a host list. A token with a slash is read exactly if there is an address on the left and
a written length on the right. The length alone, and not how it is written, says which hosts the block
covers: the addresses of its family with the same first bits that hosts use. A token that is no block
is out of range exactly if it is an address with a numeral. -/
theorem parse_block :
    (∀ q, (∃ b, parse (s ++ '/' :: q) = .ok b) ↔
      ∃ a p, Address.parse? (Text.trim s) = some a ∧ WritesLength a.family (Text.trim q) p) ∧
    (∀ a p, Address.parse? (Text.trim s) = some a → ∃ first last,
      (∀ q, WritesLength a.family (Text.trim q) p → parse (s ++ '/' :: q) =
        .ok (span .block (Text.trim (s ++ '/' :: q)) a.family first last)) ∧
      ∀ token host, (span .block token a.family first last).covers host = true ↔
        host.version = a.family.version ∧
          a.family.topBits p host.first = a.family.topBits p a.value ∧
          a.family.IsUsable p host.first) ∧
    ∀ q e, parse (s ++ '/' :: q) = .error e → (e.cause.isRange = true ↔
      (Text.trim q ≠ [] ∧ (Text.trim q).all Char.isDigit = true) ∧
        ∃ a, Address.parse? (Text.trim s) = some a) := by
  refine ⟨fun q => ?_, fun a p ha => ?_, fun q e he => isRange_of_parse_slash hs he⟩
  · constructor
    · rintro ⟨b, hb⟩
      obtain ⟨a, p, ha, hp, -⟩ := (parse_slash_eq_ok_iff hs).mp hb
      exact ⟨a, p, ha, hp⟩
    · rintro ⟨a, p, ha, hp⟩
      exact ⟨_, (parse_slash_eq_ok_iff hs).mpr ⟨a, p, ha, hp, rfl⟩⟩
  · refine ⟨(blockSpan a p).1, (blockSpan a p).2, fun q hq => ?_, fun token host => ?_⟩
    · exact (parse_slash_eq_ok_iff hs).mpr ⟨a, p, ha, hq, rfl⟩
    · cases host with
      | hostname text name => cases hfamily : a.family <;> simp [covers, version, Family.version]
      | span kind text family first last =>
        have hversion : a.family = family ↔ family.version = a.family.version := by
          cases a.family <;> cases family <;> decide
        simp only [covers, version, HostAtom.first, Bool.and_eq_true, beq_iff_eq,
          decide_eq_true_eq, and_assoc]
        rw [hversion, mem_blockSpan_iff]

end Slash

theorem parse_block_of_masks : ∃ first last,
    parse " 10.0.0.5 /24".toList = .ok (span .block "10.0.0.5 /24".toList .v4 first last) ∧
    parse " 10.0.0.5 / 0.0.0.255".toList =
      .ok (span .block "10.0.0.5 / 0.0.0.255".toList .v4 first last) ∧
    ∀ token host, (span .block token .v4 first last).covers host = true ↔
      host.version = Family.v4.version ∧
        Family.v4.topBits 24 host.first = Family.v4.topBits 24 167772165 ∧
        Family.v4.IsUsable 24 host.first := by
  have hs : '/' ∉ " 10.0.0.5 ".toList := by decide +kernel
  have haddress : Address.parse? (Text.trim " 10.0.0.5 ".toList) = some ⟨.v4, 167772165⟩ := by
    decide +kernel
  obtain ⟨first, last, hread, hcovers⟩ := (parse_block hs).2.1 _ 24 haddress
  refine ⟨first, last, hread "24".toList (.digits (by decide) (by decide +kernel) (by decide)),
    hread " 0.0.0.255".toList (.hostmask (by decide) (by decide) (by decide +kernel)), hcovers⟩

end HostAtom

end ScanPolicy
