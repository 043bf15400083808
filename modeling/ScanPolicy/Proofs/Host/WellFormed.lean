import ScanPolicy.Proofs.Host.Block
import ScanPolicy.Proofs.Host.Count

/-!
# Atoms that were read are well formed

Counting, merging and membership compare the numbers of atoms without a look at the texts they were
read from. What they rely on holds of every atom that is read: an interval is not empty and stays
within the addresses of its family, and a name has one spelling.

- `HostAtom.IsName`: the names that atoms hold.
- `HostAtom.IsInterval`: the intervals that atoms hold, by how they were written.
- `HostAtom.parse_isWellFormed`: every token is refused, or it is read as a well-formed atom.
-/

namespace ScanPolicy.HostAtom

/-- Whether a character can stand in a name, between its points. -/
def isNameChar (c : Char) : Bool := c.isLower || c.isDigit || c = '_' || c = '-'

/-- A name in the one spelling that is compared: lower case, no point at the end. -/
structure IsName (name : Text) : Prop where
  nonempty : name ≠ []
  lower : ∀ c ∈ name, c = '.' ∨ isNameChar c = true
  noPoint : name.getLast? ≠ some '.'

/-- An interval of addresses of a family that was written in some way. -/
structure IsInterval (kind : SpanKind) (family : Family) (first last : Nat) : Prop where
  ordered : first ≤ last
  fits : last < 2 ^ family.bits
  single : kind = .address → first = last
  group : kind = .shortRange → first / 2 ^ family.groupBits = last / 2 ^ family.groupBits

/-- What is relied on of an atom: a name has no version and no numbers, and an interval has no name
and at least one address. -/
def IsWellFormed : HostAtom → Prop
  | a@(hostname ..) =>
    a.version = 0 ∧ a.first = 0 ∧ a.last = 0 ∧ ∃ name, a.name? = some name ∧ IsName name
  | a@(span kind _ family ..) =>
    a.version = family.version ∧ a.name? = none ∧ 1 ≤ a.size ∧ IsInterval kind family a.first a.last

theorem IsInterval.isWellFormed {kind : SpanKind} {family : Family} {first last : Nat}
    (h : IsInterval kind family first last) (text : Text) :
    (span kind text family first last).IsWellFormed := by
  have hordered := h.ordered
  exact ⟨rfl, rfl, show 1 ≤ last + 1 - first by omega, h⟩

/-! ## Intervals -/

/-- The last address of a block has the first bits of its address, so it is one of the family. -/
theorem blockSpan_isInterval {x : Address} (hx : x.value < 2 ^ x.family.bits) (p : Nat) :
    IsInterval .block x.family (blockSpan x p).1 (blockSpan x p).2 where
  ordered := blockSpan_ordered x p
  fits := by
    have hlast := (mem_blockSpan_iff x p (blockSpan x p).2).mp
      ⟨blockSpan_ordered x p, Nat.le_refl _⟩
    exact Family.lt_of_topBits_eq hlast.1 hx
  single := nofun
  group := nofun

theorem replaceGroup_div (x : Address) {n : Nat} (hn : n < 2 ^ x.family.groupBits) :
    replaceGroup x n / 2 ^ x.family.groupBits = x.value / 2 ^ x.family.groupBits := by
  unfold replaceGroup
  dsimp only
  rw [Nat.pow_eq, Nat.mul_comm, Nat.mul_add_div (Nat.two_pow_pos _), Nat.div_eq_of_lt hn,
    Nat.add_zero]

theorem replaceGroup_lt {x : Address} (hx : x.value < 2 ^ x.family.bits) {n : Nat}
    (hn : n < 2 ^ x.family.groupBits) : replaceGroup x n < 2 ^ x.family.bits := by
  -- the bits before the last group are those of a prefix
  have hbits : x.family.bits - (x.family.bits - x.family.groupBits) = x.family.groupBits := by
    cases x.family <;> rfl
  refine Family.lt_of_topBits_eq (p := x.family.bits - x.family.groupBits) ?_ hx
  unfold Family.topBits
  rw [hbits, replaceGroup_div x hn]

/-- A range ends at an address of the family of its start; a short one changes the last group only. -/
theorem range_isInterval {start : Address} {token right : Text} {kind : SpanKind} {last : Nat}
    (hstart : start.value < 2 ^ start.family.bits)
    (hend : rangeEnd start token right = .ok (kind, last)) (hlast : start.value ≤ last) :
    IsInterval kind start.family start.value last := by
  rcases rangeEnd_spec hend with ⟨rfl, haddress⟩ | ⟨rfl, n, hn, rfl⟩
  · exact ⟨hlast, Address.parse?_lt haddress, nofun, nofun⟩
  · exact ⟨hlast, replaceGroup_lt hstart hn, nofun, fun _ => (replaceGroup_div start hn).symm⟩

/-- The left side of the dash of a range is an address. -/
theorem parse?_of_rangeParts? {t right : Text} {start : Address}
    (h : rangeParts? t = some (start, right)) :
    Address.parse? (Text.trim (Text.cut '-' t).1) = some start := by
  unfold rangeParts? at h
  split at h
  · next left rest hcut =>
    obtain ⟨x, hx, h⟩ := Option.map_eq_some_iff.mp h
    cases h
    rw [hcut]
    exact hx
  · cases h

/-! ## Names -/

theorem labels_of_isHostname {t : Text} (h : isHostname t = true) :
    ∀ label ∈ Text.pieces '.' (dropPoint t), isLabel label = true := by
  unfold isHostname at h
  split at h
  · next labels hlabels =>
    unfold labels? at hlabels
    dsimp only at hlabels
    split at hlabels
    · next hall =>
      simp only [Bool.and_eq_true, List.all_eq_true] at hall
      exact hall.2
    · cases hlabels
  · cases h

/-- The characters of a hostname, the point at its end left out. -/
theorem isLabelChar_of_isHostname {t : Text} (h : isHostname t = true) {c : Char}
    (hc : c ∈ dropPoint t) : c = '.' ∨ c = '-' ∨ isLabelChar c = true := by
  rw [← Text.intercalate_pieces '.' (dropPoint t)] at hc
  rcases Text.mem_intercalate hc with hc | ⟨label, hlabel, hc⟩
  · exact .inl hc
  · have hall := labels_of_isHostname h label hlabel
    unfold isLabel at hall
    simp only [Bool.and_eq_true, List.all_eq_true, Bool.or_eq_true, decide_eq_true_eq] at hall
    exact .inr (hall.1.1.2 c hc).symm

theorem toNat_lt_of_isLabelChar {c : Char} (h : isLabelChar c = true) : c.toNat < 128 := by
  -- letters and digits are given by their first and last ones
  have hlast : ∀ d : Char, c.val ≤ d.val → d.toNat < 128 → c.toNat < 128 := fun d hc hd =>
    Nat.lt_of_le_of_lt (UInt32.le_iff_toNat_le.mp hc) hd
  rcases Bool.or_eq_true_iff.mp h with h | h
  · rcases Bool.or_eq_true_iff.mp h with h | h
    · rcases Bool.or_eq_true_iff.mp h with h | h
      · exact hlast 'Z' (of_decide_eq_true h).2 (by decide)
      · exact hlast 'z' (of_decide_eq_true (Bool.and_eq_true_iff.mp h).2) (by decide)
    · exact Nat.lt_of_le_of_lt (Text.digit_bounds h).2 (by decide)
  · rw [of_decide_eq_true h]
    decide

theorem isNameChar_toLower {c : Char} (h : isLabelChar c = true) : isNameChar c.toLower = true :=
  Text.of_toNat_lt (P := fun c => isLabelChar c = true → isNameChar c.toLower = true)
    (by decide +kernel) (toNat_lt_of_isLabelChar h) h

/-- The lower case of a hostname has no other points than the hostname. -/
theorem isNameChar_of_isHostname {t : Text} (h : isHostname t = true) {c : Char}
    (hc : c ∈ dropPoint t) : c = '.' ∨ isNameChar c.toLower = true := by
  rcases isLabelChar_of_isHostname h hc with rfl | rfl | hc
  · exact .inl rfl
  · exact .inr (by decide)
  · exact .inr (isNameChar_toLower hc)

/-- A hostname without the point at its end, in lower case. -/
theorem isName_of_isHostname {t : Text} (h : isHostname t = true) :
    IsName (Text.asciiLower (dropPoint t)) := by
  have hlabels := labels_of_isHostname h
  constructor
  · intro hnil
    rw [List.map_eq_nil_iff.mp hnil] at hlabels
    cases hlabels [] List.mem_cons_self
  · intro c hc
    obtain ⟨d, hd, rfl⟩ := List.mem_map.mp hc
    rcases isNameChar_of_isHostname h hd with rfl | hd
    · exact .inl (by decide)
    · exact .inr hd
  · intro hlast
    unfold Text.asciiLower at hlast
    rw [List.getLast?_map] at hlast
    obtain ⟨d, hd, hpoint⟩ := Option.map_eq_some_iff.mp hlast
    rcases isNameChar_of_isHostname h (List.mem_of_getLast? hd) with rfl | hname
    · -- a point that is still at the end would have an empty label behind it
      obtain ⟨front, hfront⟩ := List.getLast?_eq_some_iff.mp hd
      rw [hfront, Text.pieces_append] at hlabels
      cases hlabels [] (List.mem_append_right _ List.mem_cons_self)
    · rw [hpoint] at hname
      cases hname

/-! ## Atoms -/

/-- An atom that is read is well formed. -/
theorem isWellFormed_of_parse {token : Text} {a : HostAtom} (h : parse token = .ok a) :
    a.IsWellFormed := by
  rcases parse_spec h with hblock | ⟨start, right, hparts, hrange⟩ | ⟨x, -, -, hx, rfl⟩ | ⟨hname, rfl⟩
  · obtain ⟨x, p, hx, -, rfl⟩ := parseBlock_spec hblock
    exact (blockSpan_isInterval (Address.parse?_lt hx) p).isWellFormed _
  · obtain ⟨kind, last, hend, hlast, rfl⟩ := parseRange_spec hrange
    have hstart := Address.parse?_lt (parse?_of_rangeParts? hparts)
    exact (range_isInterval hstart hend hlast).isWellFormed _
  · have hinterval : IsInterval .address x.family x.value x.value :=
      ⟨Nat.le_refl _, Address.parse?_lt hx, fun _ => rfl, nofun⟩
    exact hinterval.isWellFormed _
  · exact ⟨rfl, rfl, rfl, _, rfl, isName_of_isHostname hname⟩

/-- A token is refused with a fault that shows it, or is read as a well-formed atom with its text. A
host list is refused for one of its tokens, or all atoms read from it are well formed, each with the
text of a token. -/
theorem parse_isWellFormed :
    (∀ token, (∃ e, parse token = .error e ∧ Text.trim e.token = Text.trim token) ∨
      ∃ a, parse token = .ok a ∧ a.text = Text.trim token ∧ a.IsWellFormed) ∧
    ∀ expression,
      (∃ e, parseList expression = .error e ∧
        ∃ token ∈ tokens expression, Text.trim e.token = Text.trim token) ∨
      ∃ atoms, parseList expression = .ok atoms ∧ ∀ a ∈ atoms,
        (∃ token ∈ tokens expression, a.text = Text.trim token) ∧ a.IsWellFormed := by
  constructor
  · intro token
    cases h : parse token with
    | error e => exact .inl ⟨e, rfl, trim_token_of_parse_error h⟩
    | ok a => exact .inr ⟨a, rfl, text_of_parse h, isWellFormed_of_parse h⟩
  · intro expression
    cases h : parseList expression with
    | error e =>
      obtain ⟨token, htoken, he⟩ := mapM_error h
      exact .inl ⟨e, rfl, token, (List.mem_filter.mp htoken).1, trim_token_of_parse_error he⟩
    | ok atoms =>
      refine .inr ⟨atoms, rfl, forall_of_mapM_ok h fun token htoken a ha => ?_⟩
      exact ⟨⟨token, (List.mem_filter.mp htoken).1, text_of_parse ha⟩, isWellFormed_of_parse ha⟩

end ScanPolicy.HostAtom
