import ScanPolicy.Proofs.Host.Spelling

/-!
# Short ranges

The end of a range may be written by its last group alone: one to three decimal digits for version
4, one to four hexadecimal digits for version 6. Such a range means the range to the address that
has this last group and the other groups of the start.

- `Address.HasGroup`: an address with its last group replaced.
- `HostAtom.WritesGroup`: how a last group is written; `HostAtom.shortEnd?_of_writesGroup` reads it.
- `HostAtom.parse_shortRange`: a short range and the range it abbreviates.
-/

namespace ScanPolicy

namespace Address

/-- Whether `w` is the address `a` with its last group replaced by `n`. -/
structure HasGroup (w a : Address) (n : Nat) : Prop where
  family : w.family = a.family
  above : w.value / 2 ^ a.family.groupBits = a.value / 2 ^ a.family.groupBits
  group : w.value % 2 ^ a.family.groupBits = n

/-- An address without a scope is made of literal characters. -/
theorem isLiteralChar_of_parse? {t : Text} {a : Address} (h : parse? t = some a)
    (hscope : a.family = .v6 → scope? t = none) : ∀ c ∈ t, isLiteralChar c = true := by
  rcases parse?_form h with ht | ⟨body, scope, rfl, hbody, -, -, hfamily⟩
  · exact ht
  · have hnone := hscope hfamily
    have hpercent : '%' ∉ body := not_mem_of_isLiteralChar hbody (by decide)
    unfold scope? at hnone
    rw [Text.cut_append hpercent] at hnone
    cases hnone

end Address

namespace HostAtom

/-! ## Short ends -/

/-- How the last group of an address is written, the number first known from its digits. Three decimal
digits may write a number that is no octet. -/
inductive WritesGroup : Family → Text → Nat → Prop
  | decimal {t : Text} {ds : List Nat} (hne : t ≠ []) (hlength : t.length ≤ 3)
      (hdigits : t.mapM Text.asciiDigit? = some ds) : WritesGroup .v4 t (Address.ofBase 10 ds)
  | hexadecimal {t : Text} {ds : List Nat} (hne : t ≠ []) (hlength : t.length ≤ 4)
      (hdigits : t.mapM Text.hexDigit? = some ds) : WritesGroup .v6 t (Address.ofBase 16 ds)

theorem isDigit_of_asciiDigit? {c : Char} {d : Nat} (h : Text.asciiDigit? c = some d) :
    c.isDigit = true ∧ d = c.toNat - 48 := by
  unfold Text.asciiDigit? at h
  split at h
  · next hdigit =>
    cases h
    exact ⟨hdigit, rfl⟩
  · cases h

/-- Decimal digits behind a number, read one by one. -/
theorem foldl_of_digits {t : Text} {ds : List Nat} (h : t.mapM Text.asciiDigit? = some ds)
    (acc : Nat) : t.foldl (fun n c => n * 10 + (c.toNat - 48)) acc =
      ds.foldl (fun n d => n * 10 + d) acc := by
  induction t generalizing ds acc with
  | nil =>
    cases h
    rfl
  | cons c t ih =>
    rw [List.mapM_cons] at h
    obtain ⟨d, hd, h⟩ := Option.bind_eq_some_iff.mp h
    obtain ⟨more, hmore, h⟩ := Option.bind_eq_some_iff.mp h
    cases h
    rw [List.foldl_cons, List.foldl_cons, (isDigit_of_asciiDigit? hd).2]
    exact ih hmore _

theorem asciiNat?_of_digits {t : Text} {ds : List Nat} (hne : t ≠ [])
    (h : t.mapM Text.asciiDigit? = some ds) : Text.asciiNat? t = some (Address.ofBase 10 ds) := by
  have hall : t.all Char.isDigit = true := by
    refine List.all_eq_true.mpr fun c hc => ?_
    obtain ⟨d, hd⟩ := (mapM_eq_some h).2.1 c hc
    exact (isDigit_of_asciiDigit? hd).1
  unfold Text.asciiNat?
  rw [if_pos (by simp [hall, hne]), foldl_of_digits h 0]
  rfl

section WritesGroup

variable {f : Family} {t : Text} {n : Nat}

theorem shortEnd?_of_writesGroup (h : WritesGroup f t n) : shortEnd? f t = some n := by
  cases h with
  | decimal hne hlength hdigits =>
    exact (if_pos hlength).trans (asciiNat?_of_digits hne hdigits)
  | hexadecimal hne hlength hdigits => exact Address.group?_of_digits hne hlength hdigits

/-- The digits of a last group are hexadecimal digits, if they are not even decimal ones. -/
theorem isSome_of_writesGroup (h : WritesGroup f t n) : ∀ c ∈ t, (Text.hexDigit? c).isSome := by
  cases h with
  | decimal hne hlength hdigits =>
    intro c hc
    obtain ⟨d, hd⟩ := (mapM_eq_some hdigits).2.1 c hc
    obtain ⟨hlow, hhigh⟩ := Text.digit_bounds (isDigit_of_asciiDigit? hd).1
    unfold Text.hexDigit?
    simp [hlow, hhigh]
  | hexadecimal hne hlength hdigits =>
    intro c hc
    obtain ⟨d, hd⟩ := (mapM_eq_some hdigits).2.1 c hc
    rw [hd]
    rfl

theorem not_mem_of_writesGroup (h : WritesGroup f t n) {c : Char} (hc : Text.hexDigit? c = none) :
    c ∉ t := by
  intro hmem
  have hsome := isSome_of_writesGroup h c hmem
  rw [hc] at hsome
  cases hsome

/-- Only the decimal digits of an octet can write a number that is too large. -/
theorem family_of_writesGroup (h : WritesGroup f t n) (hn : 2 ^ f.groupBits ≤ n) : f = .v4 := by
  cases h with
  | decimal => rfl
  | hexadecimal hne hlength hdigits =>
    have hlt := (Address.group?_spec (Address.group?_of_digits hne hlength hdigits)).2
    exact absurd hn (Nat.not_le_of_lt hlt)

/-- A last group alone has neither points nor colons, so it is no address. -/
theorem parse?_of_writesGroup (h : WritesGroup f t n) : Address.parse? t = none :=
  Address.parse?_of_noPoint (not_mem_of_writesGroup h (by decide))
    (not_mem_of_writesGroup h (by decide))

theorem rangeEnd_of_writesGroup {start : Address} (h : WritesGroup start.family t n)
    (token : Text) : rangeEnd start token t =
      if n < 2 ^ start.family.groupBits then .ok (.shortRange, replaceGroup start n)
      else .error ⟨.octetOutOfRange, token⟩ := by
  unfold rangeEnd
  rw [parse?_of_writesGroup h, shortEnd?_of_writesGroup h]
  rfl

/-- Replacing the last group gives an address that has it. -/
theorem hasGroup_replaceGroup (a : Address) (hn : n < 2 ^ a.family.groupBits) :
    Address.HasGroup ⟨a.family, replaceGroup a n⟩ a n where
  family := rfl
  above := replaceGroup_div a hn
  group := by
    show (a.value / 2 ^ a.family.groupBits * 2 ^ a.family.groupBits + n) %
      2 ^ a.family.groupBits = n
    rw [Nat.mul_add_mod_self_right, Nat.mod_eq_of_lt hn]

end WritesGroup

/-! ## Ranges in a host list -/

/-- What a range between two addresses of one family is read as: the interval of them, unless the
second one precedes the first one. -/
def rangeOutcome (kind : SpanKind) (token : Text) (start final : Address) :
    Except HostError HostAtom :=
  if final.value < start.value then .error ⟨.endPrecedesStart, token⟩
  else .ok (span kind token start.family start.value final.value)

section Dash

variable {s r : Text} {a w : Address} (ha : Address.parse? (Text.trim s) = some a)
  (hscope : a.family = .v6 → Address.scope? (Text.trim s) = none)
include ha hscope

/-- A token is a range if an address stands before its first dash. -/
theorem parse_dash (hr : '/' ∉ r) : parse (s ++ '-' :: r) =
    parseRange a (Text.trim (s ++ '-' :: r)) (r.rdropWhile Text.isBlank) := by
  -- an address has no dash, so that the dash after it is the first one
  have hdash : '-' ∉ s := by
    have hliteral := Address.isLiteralChar_of_parse? ha hscope
    rw [← Text.mem_trim_iff (by decide)]
    exact Address.not_mem_of_isLiteralChar hliteral (by decide)
  have hslash : '/' ∉ s := by
    rw [← Text.mem_trim_iff (by decide)]
    exact Address.not_mem_slash_of_parse? ha
  have htoken := Text.trim_append_cons r (c := '-') (by decide) s
  have hparts : rangeParts? (Text.trim (s ++ '-' :: r)) = some (a, r.rdropWhile Text.isBlank) := by
    have hstart : '-' ∉ s.dropWhile Text.isBlank := fun hmem =>
      hdash ((List.dropWhile_sublist _).subset hmem)
    rw [htoken, rangeParts?_of_dash hstart, Text.trim_dropWhile, ha]
    rfl
  refine parse_of_rangeParts? ?_ hparts
  rw [Text.mem_trim_iff (by decide), List.mem_append, List.mem_cons]
  exact not_or.mpr ⟨hslash, not_or.mpr ⟨by decide, hr⟩⟩

/-- A range that is written in full. -/
theorem parse_range {t : Text} (hfamily : w.family = a.family)
    (hw : Address.parse? (Text.trim t) = some w) :
    parse (s ++ '-' :: t) = rangeOutcome .range (Text.trim (s ++ '-' :: t)) a w := by
  have hslash : '/' ∉ t := by
    rw [← Text.mem_trim_iff (by decide)]
    exact Address.not_mem_slash_of_parse? hw
  rw [parse_dash ha hscope hslash]
  unfold parseRange rangeEnd
  rw [Text.trim_rdropWhile, hw]
  simp only [hfamily, if_true]
  rfl

section Short

variable {o : Text} {n : Nat} (ho : WritesGroup a.family (Text.trim o) n)
include ho

/-- A range whose end is written short. -/
theorem parse_dash_group : parse (s ++ '-' :: o) =
    if n < 2 ^ a.family.groupBits then
      rangeOutcome .shortRange (Text.trim (s ++ '-' :: o)) a ⟨a.family, replaceGroup a n⟩
    else .error ⟨.octetOutOfRange, Text.trim (s ++ '-' :: o)⟩ := by
  have hslash : '/' ∉ o := by
    rw [← Text.mem_trim_iff (by decide)]
    exact not_mem_of_writesGroup ho (by decide)
  rw [parse_dash ha hscope hslash]
  unfold parseRange
  rw [Text.trim_rdropWhile, rangeEnd_of_writesGroup ho]
  by_cases hn : n < 2 ^ a.family.groupBits
  · rw [if_pos hn, if_pos hn]
    rfl
  · rw [if_neg hn, if_neg hn]

/-- Short ranges mean their full spelling. If the digits fit into the last group, there is an address
that has them there and the rest of the start, which can be written, and the short range and every
range to this address have the same outcome: the same interval, or a fault because the end precedes
the start. If they do not fit, the start is a version 4 address and the token is out of range. Blanks
around the token and around its dash do not matter. -/
theorem parse_shortRange :
    (n < 2 ^ a.family.groupBits → ∃ w, Address.HasGroup w a n ∧ Address.parse? w.spelling = some w ∧
      parse (s ++ '-' :: o) = rangeOutcome .shortRange (Text.trim (s ++ '-' :: o)) a w ∧
      ∀ t, Address.parse? (Text.trim t) = some w →
        parse (s ++ '-' :: t) = rangeOutcome .range (Text.trim (s ++ '-' :: t)) a w) ∧
    (2 ^ a.family.groupBits ≤ n → a.family = .v4 ∧
      parse (s ++ '-' :: o) = .error ⟨.octetOutOfRange, Text.trim (s ++ '-' :: o)⟩) ∧
    ∀ e, parse (s ++ '-' :: o) = .error e → e.cause.isRange = true := by
  have hread := parse_dash_group ha hscope ho
  refine ⟨fun hn => ?_, fun hn => ?_, fun e he => ?_⟩
  · -- the address with the last group replaced is below the bound of its family, so it has a spelling
    rw [if_pos hn] at hread
    have hgroup := hasGroup_replaceGroup a hn
    refine ⟨⟨a.family, replaceGroup a n⟩, hgroup, ?_, hread, fun t ht => ?_⟩
    · exact Address.parse?_spelling (replaceGroup_lt (Address.parse?_lt ha) hn)
    · exact parse_range ha hscope hgroup.family ht
  · rw [if_neg (Nat.not_lt_of_le hn)] at hread
    exact ⟨family_of_writesGroup ho hn, hread⟩
  · rw [he] at hread
    split at hread
    · unfold rangeOutcome at hread
      split at hread <;> cases hread
      rfl
    · cases hread
      rfl

end Short

end Dash

theorem parse_shortRange_of_blanks : ∃ w : Address, Address.HasGroup w ⟨.v4, 167772165⟩ 20 ∧
    parse " 10.0.0.5 - 20".toList =
      rangeOutcome .shortRange (Text.trim " 10.0.0.5 - 20".toList) ⟨.v4, 167772165⟩ w ∧
    ∀ t, Address.parse? (Text.trim t) = some w → parse (" 10.0.0.5 ".toList ++ '-' :: t) =
      rangeOutcome .range (Text.trim (" 10.0.0.5 ".toList ++ '-' :: t)) ⟨.v4, 167772165⟩ w := by
  have haddress : Address.parse? (Text.trim " 10.0.0.5 ".toList) = some ⟨.v4, 167772165⟩ := by
    decide +kernel
  have hgroup : WritesGroup .v4 (Text.trim " 20".toList) 20 :=
    @WritesGroup.decimal "20".toList [2, 0] (by decide) (by decide) (by decide +kernel)
  obtain ⟨w, hw, -, hshort, hrange⟩ :=
    (parse_shortRange (o := " 20".toList) haddress nofun hgroup).1 (by decide)
  exact ⟨w, hw, hshort, hrange⟩

end HostAtom

end ScanPolicy
