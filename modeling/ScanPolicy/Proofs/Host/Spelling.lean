import ScanPolicy.Proofs.Host.WellFormed

/-!
# Every address has a spelling

Each number that fits into the bits of a family can be written as an address of it, with nothing
left out: four decimal octets, or eight groups of four hexadecimal digits.

- `Address.parse?_of_noPoint`: a text without points and colons is no address.
- `Address.digitsOf`: the digits of a number in a base; `Address.ofBase_digitsOf` reads them back.
- `Address.spelling`: an address written out.
- `Address.parse?_spelling`: the spelling of an address is read as that address.
-/

namespace ScanPolicy.Address

/-! ## Digits -/

/-- The last `k` digits of a number in a base, most significant first. -/
def digitsOf (base : Nat) : Nat → Nat → List Nat
  | 0, _ => []
  | k + 1, n => digitsOf base k (n / base) ++ [n % base]

theorem length_digitsOf (base k n : Nat) : (digitsOf base k n).length = k := by
  induction k generalizing n with
  | zero => rfl
  | succ k ih => rw [digitsOf, List.length_append, ih, List.length_singleton]

theorem lt_of_mem_digitsOf {base : Nat} (hbase : 0 < base) {k n d : Nat}
    (h : d ∈ digitsOf base k n) : d < base := by
  induction k generalizing n with
  | zero => cases h
  | succ k ih =>
    rw [digitsOf, List.mem_append, List.mem_singleton] at h
    rcases h with h | rfl
    · exact ih h
    · exact Nat.mod_lt n hbase

/-- A number is what its digits write, if they are enough. -/
theorem ofBase_digitsOf {base k n : Nat} (h : n < base ^ k) :
    ofBase base (digitsOf base k n) = n := by
  induction k generalizing n with
  | zero =>
    rw [Nat.pow_zero] at h
    exact (Nat.lt_one_iff.mp h).symm
  | succ k ih =>
    rw [Nat.pow_succ'] at h
    rw [digitsOf, ofBase_concat, ih (Nat.div_lt_of_lt_mul h)]
    exact Nat.div_add_mod' n base

/-! ## Octets and groups -/

/-- Values that are read one by one from the texts that write them. -/
theorem mapM_write {α β : Type} {read : β → Option α} {write : α → β} {xs : List α}
    (h : ∀ x ∈ xs, read (write x) = some x) : (xs.map write).mapM read = some xs := by
  induction xs with
  | nil => rfl
  | cons x xs ih =>
    obtain ⟨hx, hxs⟩ := List.forall_mem_cons.mp h
    rw [List.map_cons, List.mapM_cons, hx, ih hxs]
    rfl

theorem octet?_ofNat {d : Nat} (h : d < 256) : octet? (Text.ofNat d) = some d := by
  have hall : ∀ d < 256, octet? (Text.ofNat d) = some d := by decide +kernel
  exact hall d h

theorem hexDigit?_digitChar {d : Nat} (h : d < 16) :
    Text.hexDigit? (Nat.digitChar d) = some d := by
  have hall : ∀ d < 16, Text.hexDigit? (Nat.digitChar d) = some d := by decide
  exact hall d h

/-- Further hexadecimal digits are read behind a number, as digits of base sixteen. -/
theorem foldlM_hexDigit? {t : Text} {ds : List Nat} (h : t.mapM Text.hexDigit? = some ds)
    (acc : Nat) : t.foldlM (fun n c => (Text.hexDigit? c).map (n * 16 + ·)) acc =
      some (ds.foldl (fun n d => n * 16 + d) acc) := by
  induction t generalizing ds acc with
  | nil =>
    cases h
    rfl
  | cons c t ih =>
    rw [List.mapM_cons] at h
    obtain ⟨d, hd, h⟩ := Option.bind_eq_some_iff.mp h
    obtain ⟨more, hmore, h⟩ := Option.bind_eq_some_iff.mp h
    cases h
    rw [List.foldlM_cons, hd]
    exact ih hmore (acc * 16 + d)

/-- One to four hexadecimal digits are a group. -/
theorem group?_of_digits {t : Text} {ds : List Nat} (hne : t ≠ []) (hlength : t.length ≤ 4)
    (h : t.mapM Text.hexDigit? = some ds) : group? t = some (ofBase 16 ds) := by
  unfold group? Text.hexNat?
  rw [if_pos hlength, if_neg (by simpa using hne)]
  exact foldlM_hexDigit? h 0

/-- A group with all its digits. -/
def groupText (n : Nat) : Text := (digitsOf 16 4 n).map Nat.digitChar

theorem group?_groupText {n : Nat} (h : n < 2 ^ 16) : group? (groupText n) = some n := by
  have hlength : (groupText n).length = 4 := by
    unfold groupText
    rw [List.length_map, length_digitsOf]
  have hdigits : (groupText n).mapM Text.hexDigit? = some (digitsOf 16 4 n) :=
    mapM_write fun d hd => hexDigit?_digitChar (lt_of_mem_digitsOf (by decide) hd)
  have hvalue : ofBase 16 (digitsOf 16 4 n) = n := ofBase_digitsOf h
  rw [group?_of_digits (List.ne_nil_of_length_pos (by omega)) (by omega) hdigits, hvalue]

theorem not_mem_groupText {c : Char} (hc : Text.hexDigit? c = none) {n : Nat} (h : n < 2 ^ 16) :
    c ∉ groupText n := by
  intro hmem
  have hsome := (group?_spec (group?_groupText h)).1 c hmem
  rw [hc] at hsome
  cases hsome

/-! ## Texts that are no addresses -/

/-- A text without points is no version 4 address. -/
theorem v4?_of_noPoint {t : Text} (h : '.' ∉ t) : v4? t = none := by
  unfold v4?
  rw [Text.pieces_of_not_mem h]
  rfl

/-- Nothing is left out of groups none of which is empty. -/
theorem splitGap_of_noGap {parts : List (Text ⊕ Nat)} (h : ∀ x ∈ parts, isGap x = false) :
    splitGap parts = none := by
  have hhead : parts.head?.any isGap = false := by
    cases parts with
    | nil => rfl
    | cons x rest => exact h x List.mem_cons_self
  have hafter : parts.dropWhile (!isGap ·) = [] := by
    refine List.dropWhile_eq_nil_iff.mpr fun x hx => ?_
    rw [h x hx]
    rfl
  unfold splitGap
  simp only [hhead, hafter, Bool.false_eq_true, if_false]

/-- A text that is one part gives one group or two, and none of them is left out. -/
theorem groupTexts?_singleton {t : Text} {parts : List (Text ⊕ Nat)}
    (h : groupTexts? [t] = some parts) : splitGap parts = none ∧ parts.length ≤ 2 := by
  unfold groupTexts? at h
  rw [List.getLast?_singleton] at h
  dsimp only at h
  split at h
  · -- with a point the part is a version 4 address, which stands for two groups
    obtain ⟨n, -, rfl⟩ := Option.map_eq_some_iff.mp h
    exact ⟨splitGap_of_noGap (by simp [isGap]), Nat.le_refl 2⟩
  · obtain rfl := Option.some.inj h
    cases t with
    | nil => exact ⟨rfl, Nat.le_succ 1⟩
    | cons c rest => exact ⟨splitGap_of_noGap (by simp [isGap]), Nat.le_succ 1⟩

theorem v6Body?_of_noColon {t : Text} (h : ':' ∉ t) : v6Body? t = none := by
  unfold v6Body?
  rw [Text.pieces_of_not_mem h]
  split
  · rfl
  next parts hparts =>
  obtain ⟨hgap, hlength⟩ := groupTexts?_singleton hparts
  rw [hgap]
  exact if_neg (by omega)

/-- A text without colons is no version 6 address, nor is it one before a scope. -/
theorem v6?_of_noColon {t : Text} (h : ':' ∉ t) : v6? t = none := by
  unfold v6?
  split
  · next body hcut =>
    obtain ⟨rfl, -⟩ := Text.cut_none hcut
    exact v6Body?_of_noColon h
  · next body scope hcut =>
    obtain rfl := Text.cut_some hcut
    have hcolon : ':' ∉ body := fun hmem => h (List.mem_append_left _ hmem)
    rw [v6Body?_of_noColon hcolon, ite_self]

/-- A text without points and colons is no address. -/
theorem parse?_of_noPoint {t : Text} (hpoint : '.' ∉ t) (hcolon : ':' ∉ t) : parse? t = none := by
  unfold parse?
  rw [v4?_of_noPoint hpoint, v6?_of_noColon hcolon]
  rfl

/-! ## Addresses -/

/-- The octets of a version 4 number. -/
def octetTexts (n : Nat) : List Text := (digitsOf 256 4 n).map Text.ofNat

/-- The groups of a version 6 number. -/
def groupTexts (n : Nat) : List Text := (digitsOf (2 ^ 16) 8 n).map groupText

/-- An address written out, with no run of groups left out. -/
def spelling (a : Address) : Text :=
  match a.family with
  | .v4 => List.intercalate ['.'] (octetTexts a.value)
  | .v6 => List.intercalate [':'] (groupTexts a.value)

theorem v4?_octetTexts {n : Nat} (h : n < 2 ^ 32) :
    v4? (List.intercalate ['.'] (octetTexts n)) = some n := by
  have hread : (octetTexts n).mapM octet? = some (digitsOf 256 4 n) :=
    mapM_write fun d hd => octet?_ofNat (lt_of_mem_digitsOf (by decide) hd)
  have hlength : (octetTexts n).length = 4 := by
    unfold octetTexts
    rw [List.length_map, length_digitsOf]
  have hpieces : Text.pieces '.' (List.intercalate ['.'] (octetTexts n)) = octetTexts n := by
    refine Text.pieces_intercalate (List.ne_nil_of_length_pos (by omega)) fun t ht => ?_
    obtain ⟨d, -, rfl⟩ := List.mem_map.mp ht
    have hdigits := Text.all_isDigit_of_asciiNat? (Text.asciiNat?_ofNat d)
    exact Text.not_mem_of_all_isDigit hdigits (by decide)
  have hvalue : ofBase 256 (digitsOf 256 4 n) = n := ofBase_digitsOf h
  unfold v4?
  rw [hpieces, if_pos hlength, hread, Option.map_some, hvalue]

theorem exists_of_mem_groupTexts {t : Text} {n : Nat} (h : t ∈ groupTexts n) :
    ∃ d < 2 ^ 16, groupText d = t := by
  obtain ⟨d, hd, rfl⟩ := List.mem_map.mp h
  exact ⟨d, lt_of_mem_digitsOf (by decide) hd, rfl⟩

/-- Eight groups with all their digits, joined by colons, are a version 6 address. -/
theorem v6Body?_groupTexts {n : Nat} (h : n < 2 ^ 128) :
    v6Body? (List.intercalate [':'] (groupTexts n)) = some n := by
  have hlength : (groupTexts n).length = 8 := by
    unfold groupTexts
    rw [List.length_map, length_digitsOf]
  have hne : groupTexts n ≠ [] := List.ne_nil_of_length_pos (by omega)
  have hpieces : Text.pieces ':' (List.intercalate [':'] (groupTexts n)) = groupTexts n := by
    refine Text.pieces_intercalate hne fun t ht => ?_
    obtain ⟨d, hd, rfl⟩ := exists_of_mem_groupTexts ht
    exact not_mem_groupText (by decide) hd
  -- no group has a point, so none is a version 4 address
  have hparts : groupTexts? (groupTexts n) = some ((groupTexts n).map Sum.inl) := by
    obtain ⟨d, hd, hlast⟩ := exists_of_mem_groupTexts (List.getLast_mem hne)
    have hpoint : '.' ∉ groupText d := not_mem_groupText (by decide) hd
    unfold groupTexts?
    rw [List.getLast?_eq_getLast_of_ne_nil hne, ← hlast]
    exact if_neg (by simpa using hpoint)
  have hgap : ∀ x ∈ (groupTexts n).map Sum.inl, isGap x = false := by
    intro x hx
    obtain ⟨t, ht, rfl⟩ := List.mem_map.mp hx
    obtain ⟨d, hd, rfl⟩ := exists_of_mem_groupTexts ht
    rfl
  have hread : ((groupTexts n).map Sum.inl).mapM groupValue? = some (digitsOf (2 ^ 16) 8 n) := by
    unfold groupTexts
    rw [List.map_map]
    exact mapM_write fun d hd => group?_groupText (lt_of_mem_digitsOf (by decide) hd)
  have hvalue : ofBase (2 ^ 16) (digitsOf (2 ^ 16) 8 n) = n := ofBase_digitsOf h
  unfold v6Body?
  rw [hpieces, hparts]
  dsimp only
  rw [splitGap_of_noGap hgap]
  dsimp only
  rw [List.length_map, if_pos hlength, hread]
  exact congrArg some hvalue

/-- The spelling of an address is read as that address. -/
theorem parse?_spelling {a : Address} (h : a.value < 2 ^ a.family.bits) :
    parse? a.spelling = some a := by
  obtain ⟨family, n⟩ := a
  unfold parse? spelling
  cases family with
  | v4 =>
    dsimp only
    rw [v4?_octetTexts h]
  | v6 =>
    have hvalue := v6Body?_groupTexts h
    have hpoint : '.' ∉ List.intercalate [':'] (groupTexts n) := by
      intro hmem
      rcases Text.mem_intercalate hmem with hcolon | ⟨t, ht, hmem⟩
      · exact absurd hcolon (by decide)
      · obtain ⟨d, hd, rfl⟩ := exists_of_mem_groupTexts ht
        exact not_mem_groupText (by decide) hd hmem
    have hpercent : '%' ∉ List.intercalate [':'] (groupTexts n) :=
      not_mem_of_isLiteralChar (v6Body?_spec hvalue).1 (by decide)
    dsimp only
    rw [v4?_of_noPoint hpoint]
    unfold v6?
    rw [Text.cut_of_not_mem hpercent]
    dsimp only
    rw [hvalue]
    rfl

end ScanPolicy.Address
