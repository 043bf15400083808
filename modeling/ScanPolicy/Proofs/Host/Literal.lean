import Mathlib.Data.Nat.Basic
import Mathlib.Order.Basic
import ScanPolicy.Proofs.Host.Reading
import ScanPolicy.Proofs.Host.Tokens

/-!
# Address literals

What the text of an address is made of, and how large its number is. The text has hexadecimal
digits, colons and points; behind a percent sign, a scope may hold almost any character, and a host
list reads some of them as its own.

- `Address.parse?_lt`: the number of an address fits into the bits of its family.
- `Address.parse?_form`: an address is plain, or a plain text with a scope.
- `HostAtom.parse_literal_iff`, `HostAtom.parse_literal`: the addresses that a host list reads as one
  host.
- `HostAtom.parse_literal_with_other_scopes`: addresses that it does not.
-/

namespace ScanPolicy

namespace Address

/-! ## Numbers in a base -/

theorem ofBase_concat (b : Nat) (ds : List Nat) (d : Nat) :
    ofBase b (ds ++ [d]) = ofBase b ds * b + d :=
  List.foldl_concat ..

/-- A number is less than the power of the base that its digits fill. -/
theorem ofBase_lt {b : Nat} {ds : List Nat} (h : ∀ d ∈ ds, d < b) : ofBase b ds < b ^ ds.length := by
  induction ds using List.reverseRecOn with
  | nil => exact Nat.one_pos
  | append_singleton ds d ih =>
    have hd : d < b := h d (by simp)
    have hds := ih fun x hx => h x (List.mem_append_left _ hx)
    rw [ofBase_concat, List.length_append, List.length_singleton, Nat.pow_succ]
    calc ofBase b ds * b + d < (ofBase b ds + 1) * b := by
          rw [Nat.add_mul, Nat.one_mul]
          exact Nat.add_lt_add_left hd _
      _ ≤ b ^ ds.length * b := Nat.mul_le_mul_right b hds

theorem hexDigit?_lt {c : Char} {d : Nat} (h : Text.hexDigit? c = some d) : d < 16 := by
  unfold Text.hexDigit? at h
  dsimp only at h
  simp only [Bool.and_eq_true, decide_eq_true_eq] at h
  split at h
  · cases h
    omega
  split at h
  · cases h
    omega
  split at h <;> cases h
  omega

/-- Reading further hexadecimal digits behind a number. -/
theorem hexDigits_spec {t : Text} {acc n : Nat}
    (h : t.foldlM (fun n c => (Text.hexDigit? c).map (n * 16 + ·)) acc = some n) :
    (∀ c ∈ t, (Text.hexDigit? c).isSome) ∧ n < (acc + 1) * 16 ^ t.length := by
  induction t generalizing acc with
  | nil =>
    cases h
    exact ⟨nofun, by simp⟩
  | cons c t ih =>
    rw [List.foldlM_cons] at h
    obtain ⟨m, hm, h⟩ := Option.bind_eq_some_iff.mp h
    obtain ⟨d, hd, rfl⟩ := Option.map_eq_some_iff.mp hm
    obtain ⟨hrest, hlt⟩ := ih h
    have hdigit := hexDigit?_lt hd
    refine ⟨List.forall_mem_cons.mpr ⟨hd ▸ rfl, hrest⟩, Nat.lt_of_lt_of_le hlt ?_⟩
    rw [List.length_cons, Nat.pow_succ', ← Nat.mul_assoc]
    exact Nat.mul_le_mul_right _ (by omega)

theorem group?_spec {t : Text} {n : Nat} (h : group? t = some n) :
    (∀ c ∈ t, (Text.hexDigit? c).isSome) ∧ n < 2 ^ 16 := by
  unfold group? Text.hexNat? at h
  split at h
  · next hlength =>
    split at h
    · cases h
    · obtain ⟨hdigits, hlt⟩ := hexDigits_spec h
      refine ⟨hdigits, Nat.lt_of_lt_of_le hlt ?_⟩
      rw [Nat.zero_add, Nat.one_mul]
      exact Nat.pow_le_pow_right (by decide) hlength
  · cases h

theorem octet?_spec {t : Text} {n : Nat} (h : octet? t = some n) :
    t.all Char.isDigit = true ∧ n < 256 := by
  unfold octet? at h
  split at h
  · split at h
    · next hnat =>
      split at h <;> cases h
      exact ⟨Text.all_isDigit_of_asciiNat? hnat, by omega⟩
    · cases h
  · cases h

/-! ## The characters of an address -/

/-- Whether a character can stand in an address without a scope. -/
def isLiteralChar (c : Char) : Bool := (Text.hexDigit? c).isSome || c = ':' || c = '.'

theorem isLiteralChar_of_isDigit {c : Char} (h : c.isDigit = true) : isLiteralChar c = true := by
  obtain ⟨hlow, hhigh⟩ := Text.digit_bounds h
  unfold isLiteralChar Text.hexDigit?
  simp [hlow, hhigh]

theorem isBlank_of_isLiteralChar {c : Char} (h : isLiteralChar c = true) :
    Text.isBlank c = false := by
  unfold isLiteralChar Text.hexDigit? at h
  rw [Bool.or_eq_true, Bool.or_eq_true, decide_eq_true_eq, decide_eq_true_eq] at h
  rcases h with (h | rfl) | rfl
  · -- the digits and the letters lie between the blanks of ASCII and those beyond it
    have hbounds : 48 ≤ c.toNat ∧ c.toNat ≤ 102 := by
      simp only [Bool.and_eq_true, decide_eq_true_eq] at h
      split at h
      · omega
      split at h
      · omega
      split at h
      · omega
      · cases h
    unfold Text.isBlank
    simp only [Bool.or_eq_false_iff, Bool.and_eq_false_iff, decide_eq_false_iff_not,
      beq_eq_false_iff_ne, ne_eq]
    omega
  · decide
  · decide

theorem not_mem_of_isLiteralChar {t : Text} {c : Char} (ht : ∀ c ∈ t, isLiteralChar c = true)
    (hc : isLiteralChar c = false) : c ∉ t :=
  fun hmem => Bool.eq_false_iff.mp hc (ht c hmem)

/-! ## Version 4 -/

/-- The octets of a version 4 address. -/
theorem octets_of_v4? {t : Text} {n : Nat} (h : v4? t = some n) : ∃ ds : List Nat, ds.length = 4 ∧
    n = ofBase 256 ds ∧ (∀ p ∈ Text.pieces '.' t, p.all Char.isDigit = true) ∧ ∀ d ∈ ds, d < 256 := by
  unfold v4? at h
  dsimp only at h
  split at h
  · next hfour =>
    obtain ⟨ds, hds, rfl⟩ := Option.map_eq_some_iff.mp h
    obtain ⟨hlength, hread, hgiven⟩ := mapM_eq_some hds
    refine ⟨ds, hlength.trans hfour, rfl, fun p hp => ?_, fun d hd => ?_⟩
    · obtain ⟨d, hd⟩ := hread p hp
      exact (octet?_spec hd).1
    · obtain ⟨p, -, hp⟩ := hgiven d hd
      exact (octet?_spec hp).2
  · cases h

theorem isDigit_of_v4? {t : Text} {n : Nat} (h : v4? t = some n) {c : Char} (hc : c ∈ t) :
    c = '.' ∨ c.isDigit = true := by
  obtain ⟨ds, -, -, hdigits, -⟩ := octets_of_v4? h
  rw [← Text.intercalate_pieces '.' t] at hc
  refine (Text.mem_intercalate hc).imp_right ?_
  rintro ⟨p, hp, hc⟩
  exact List.all_eq_true.mp (hdigits p hp) c hc

theorem v4?_spec {t : Text} {n : Nat} (h : v4? t = some n) :
    (∀ c ∈ t, isLiteralChar c = true) ∧ n < 2 ^ 32 := by
  constructor
  · intro c hc
    rcases isDigit_of_v4? h hc with rfl | hc
    · decide
    · exact isLiteralChar_of_isDigit hc
  · obtain ⟨ds, hfour, rfl, -, hlt⟩ := octets_of_v4? h
    have hbound := ofBase_lt hlt
    rwa [hfour] at hbound

/-! ## Version 6 -/

/-- The parts around the colons are kept, but for a version 4 address at the end, which becomes two
numbers of a group. -/
theorem groupTexts?_spec {ps : List Text} {parts : List (Text ⊕ Nat)}
    (h : groupTexts? ps = some parts) :
    (∀ p ∈ ps, Sum.inl p ∈ parts ∨ ∃ n, v4? p = some n) ∧
      ∀ n, Sum.inr n ∈ parts → n < 2 ^ 16 := by
  unfold groupTexts? at h
  split at h
  · next final hlast =>
    have hps := List.dropLast_append_getLast? final hlast
    split at h
    · obtain ⟨n, hn, rfl⟩ := Option.map_eq_some_iff.mp h
      have hlt := (v4?_spec hn).2
      constructor
      · intro p hp
        rw [← hps, List.mem_append, List.mem_singleton] at hp
        rcases hp with hp | rfl
        · exact .inl (List.mem_append_left _ (List.mem_map_of_mem hp))
        · exact .inr ⟨n, hn⟩
      · intro m hm
        simp only [List.mem_append, List.mem_map, reduceCtorEq, and_false, exists_false,
          List.mem_cons, Sum.inr.injEq, List.not_mem_nil, or_false, false_or] at hm
        change m = n / 2 ^ 16 ∨ m = n % 2 ^ 16 at hm
        omega
    · cases h
      exact ⟨fun p hp => .inl (List.mem_map_of_mem hp), fun n hn => by simp at hn⟩
  · cases h

/-- Whether the parts `xs` are all the parts `ys` but empty ones. -/
def Fills (xs ys : List (Text ⊕ Nat)) : Prop :=
  (∀ x ∈ xs, x ∈ ys) ∧ ∀ x ∈ ys, x ∈ xs ∨ isGap x = true

theorem Fills.append {xs xs' ys ys' : List (Text ⊕ Nat)} (h : Fills xs ys) (h' : Fills xs' ys') :
    Fills (xs ++ xs') (ys ++ ys') := by
  constructor
  · intro x hx
    rcases List.mem_append.mp hx with hx | hx
    · exact List.mem_append_left _ (h.1 x hx)
    · exact List.mem_append_right _ (h'.1 x hx)
  · intro x hx
    rcases List.mem_append.mp hx with hx | hx
    · exact (h.2 x hx).imp_left (List.mem_append_left _)
    · exact (h'.2 x hx).imp_left (List.mem_append_right _)

theorem Fills.gap_cons {xs ys : List (Text ⊕ Nat)} {gap : Text ⊕ Nat} (hgap : isGap gap = true)
    (h : Fills xs ys) : Fills xs (gap :: ys) := by
  refine ⟨fun x hx => List.mem_cons_of_mem _ (h.1 x hx), fun x hx => ?_⟩
  rcases List.mem_cons.mp hx with rfl | hx
  · exact .inr hgap
  · exact h.2 x hx

theorem fills_self (xs : List (Text ⊕ Nat)) : Fills xs xs := ⟨fun _ hx => hx, fun _ hx => .inl hx⟩

/-- The parts before and after the run that is left out are all the parts but empty ones. -/
theorem splitGap_spec {parts before after : List (Text ⊕ Nat)}
    (h : splitGap parts = some (before, after)) : Fills (before ++ after) parts := by
  unfold splitGap at h
  dsimp only at h
  split at h
  · next gap rest hafter =>
    split at h
    · next hgap =>
      obtain ⟨rfl, rfl⟩ := Prod.mk.inj (Option.some.inj h)
      -- a run at the end has a second empty part behind it, and a run at the start one before it
      have hrest : Fills (if (rest.length == 1 && rest.head?.any isGap) = true then [] else rest)
          (gap :: rest) := by
        refine Fills.gap_cons (Bool.and_eq_true_iff.mp hgap).1 ?_
        split
        · next hend =>
          rw [Bool.and_eq_true, beq_iff_eq] at hend
          obtain ⟨x, rfl⟩ := List.length_eq_one_iff.mp hend.1
          exact (fills_self []).gap_cons hend.2
        · exact fills_self rest
      by_cases hstart : parts.head?.any isGap = true
      · rw [if_pos hstart] at hafter ⊢
        cases parts with
        | nil => cases hafter
        | cons x tail =>
          obtain rfl : tail = gap :: rest := hafter
          exact Fills.gap_cons hstart hrest
      · rw [if_neg hstart] at hafter ⊢
        have hparts := List.takeWhile_append_dropWhile (p := (!isGap ·)) (l := parts)
        rw [hafter] at hparts
        have hfills := (fills_self (parts.takeWhile (!isGap ·))).append hrest
        rwa [hparts] at hfills
    · cases h
  · cases h

/-- What is read of a part: a group of hexadecimal digits, or a number that is a group already. -/
theorem groupValue?_spec {x : Text ⊕ Nat} {n : Nat} (h : groupValue? x = some n)
    (hx : ∀ m, x = .inr m → m < 2 ^ 16) :
    n < 2 ^ 16 ∧ ∀ t, x = .inl t → ∀ c ∈ t, isLiteralChar c = true := by
  cases x with
  | inl t =>
    obtain ⟨hdigits, hlt⟩ := group?_spec h
    refine ⟨hlt, fun u hu c hc => ?_⟩
    cases hu
    unfold isLiteralChar
    rw [hdigits c hc, Bool.true_or, Bool.true_or]
  | inr m =>
    cases h
    exact ⟨hx _ rfl, nofun⟩

/-- A version 6 address without scope has eight groups; each of its parts is one of them or empty. -/
theorem groups_of_v6Body? {t : Text} {n : Nat} (h : v6Body? t = some n) :
    ∃ parts groups, groupTexts? (Text.pieces ':' t) = some parts ∧ n = ofBase (2 ^ 16) groups ∧
      groups.length = 8 ∧ (∀ x ∈ parts, isGap x = true ∨ ∃ m, groupValue? x = some m) ∧
      ∀ m ∈ groups, m = 0 ∨ ∃ x ∈ parts, groupValue? x = some m := by
  unfold v6Body? at h
  split at h
  · cases h
  next parts hparts =>
  refine ⟨parts, ?_⟩
  split at h
  · next before after hsplit =>
    obtain ⟨hkept, hall⟩ := splitGap_spec hsplit
    split at h
    · next hseven =>
      split at h
      · next hi lo hhi hlo =>
        cases h
        have hboth : (before ++ after).mapM groupValue? = some (hi ++ lo) := by
          rw [List.mapM_append, hhi, hlo]
          rfl
        obtain ⟨hlength, hread, hgiven⟩ := mapM_eq_some hboth
        have hgroup : ∀ m ∈ hi ++ lo, ∃ x ∈ parts, groupValue? x = some m := fun m hm => by
          obtain ⟨x, hx, hm⟩ := hgiven m hm
          exact ⟨x, hkept x hx, hm⟩
        refine ⟨_, hparts, rfl, ?_, fun x hx => ?_, fun m hm => ?_⟩
        · simp only [List.length_append, List.length_replicate] at hlength ⊢
          omega
        · exact (hall x hx).symm.imp_right (hread x)
        · simp only [List.mem_append, List.mem_replicate] at hm
          rcases hm with (hm | ⟨-, rfl⟩) | hm
          · exact .inr (hgroup m (List.mem_append_left _ hm))
          · exact .inl rfl
          · exact .inr (hgroup m (List.mem_append_right _ hm))
      · cases h
    · cases h
  · split at h
    · next height =>
      obtain ⟨groups, hgroups, rfl⟩ := Option.map_eq_some_iff.mp h
      obtain ⟨hlength, hread, hgiven⟩ := mapM_eq_some hgroups
      exact ⟨groups, hparts, rfl, hlength.trans height, fun x hx => .inr (hread x hx),
        fun m hm => .inr (hgiven m hm)⟩
    · cases h

theorem v6Body?_spec {t : Text} {n : Nat} (h : v6Body? t = some n) :
    (∀ c ∈ t, isLiteralChar c = true) ∧ n < 2 ^ 128 := by
  obtain ⟨parts, groups, hparts, rfl, height, hread, hgiven⟩ := groups_of_v6Body? h
  obtain ⟨hpieces, hnumbers⟩ := groupTexts?_spec hparts
  have hvalue : ∀ x ∈ parts, ∀ m, groupValue? x = some m →
      m < 2 ^ 16 ∧ ∀ t, x = .inl t → ∀ c ∈ t, isLiteralChar c = true := fun x hx m hm =>
    groupValue?_spec hm fun k hk => hnumbers k (hk ▸ hx)
  constructor
  · intro c hc
    rw [← Text.intercalate_pieces ':' t] at hc
    rcases Text.mem_intercalate hc with rfl | ⟨p, hp, hc⟩
    · decide
    · rcases hpieces p hp with hp | ⟨n, hn⟩
      · rcases hread _ hp with hgap | ⟨m, hm⟩
        · rw [List.isEmpty_iff.mp hgap] at hc
          cases hc
        · exact (hvalue _ hp m hm).2 p rfl c hc
      · exact (v4?_spec hn).1 c hc
  · have hlt : ∀ m ∈ groups, m < 2 ^ 16 := fun m hm => by
      rcases hgiven m hm with rfl | ⟨x, hx, hm⟩
      · decide
      · exact (hvalue x hx m hm).1
    have hbound := ofBase_lt hlt
    rwa [height, ← Nat.pow_mul] at hbound

/-! ## Scopes -/

/-- The text behind the percent sign of an address, if there is one. -/
def scope? (t : Text) : Option Text := (Text.cut '%' t).2

/-- Whether a text can be a scope. -/
structure IsScope (scope : Text) : Prop where
  nonempty : scope ≠ []
  noPercent : '%' ∉ scope
  noSlash : '/' ∉ scope

variable {t body scope : Text} {a : Address}

theorem v4?_scoped : v4? (body ++ '%' :: scope) = none := by
  by_contra hsome
  obtain ⟨n, hn⟩ := Option.ne_none_iff_exists'.mp hsome
  exact absurd ((v4?_spec hn).1 '%' (by simp)) (by decide)

/-- An address with a scope is what stands before the percent sign. -/
theorem parse?_scoped_iff (hbody : '%' ∉ body) : parse? (body ++ '%' :: scope) = some a ↔
    IsScope scope ∧ v6Body? body = some a.value ∧ a.family = .v6 := by
  have hv6 : v6? (body ++ '%' :: scope) =
      if scope.isEmpty || scope.contains '%' || scope.contains '/' then none else v6Body? body := by
    unfold v6?
    rw [Text.cut_append hbody]
  unfold parse?
  rw [v4?_scoped, hv6, Option.map_eq_some_iff]
  split
  · next hno =>
    refine iff_of_false (by simp) fun ⟨hscope, _⟩ => ?_
    simp [hscope.nonempty, hscope.noPercent, hscope.noSlash] at hno
  · next hyes =>
    simp only [Bool.or_eq_true, List.isEmpty_iff, List.contains_iff_mem, not_or] at hyes
    constructor
    · rintro ⟨n, hn, rfl⟩
      exact ⟨⟨hyes.1.1, hyes.1.2, hyes.2⟩, hn, rfl⟩
    · rintro ⟨-, hn, hfamily⟩
      exact ⟨a.value, hn, by rw [← hfamily]⟩

/-- An address is made of literal characters, but for a scope behind a percent sign. -/
theorem parse?_form (h : parse? t = some a) : (∀ c ∈ t, isLiteralChar c = true) ∨
    ∃ body scope, t = body ++ '%' :: scope ∧ (∀ c ∈ body, isLiteralChar c = true) ∧ IsScope scope ∧
      v6Body? body = some a.value ∧ a.family = .v6 := by
  by_cases hpercent : '%' ∈ t
  · obtain ⟨body, scope, rfl, hbody⟩ := List.eq_append_cons_of_mem hpercent
    obtain ⟨hscope, hvalue, hfamily⟩ := (parse?_scoped_iff hbody).mp h
    exact .inr ⟨body, scope, rfl, (v6Body?_spec hvalue).1, hscope, hvalue, hfamily⟩
  · left
    unfold parse? v6? at h
    rw [Text.cut_of_not_mem hpercent] at h
    split at h
    · next n hn => exact (v4?_spec hn).1
    · obtain ⟨n, hn, -⟩ := Option.map_eq_some_iff.mp h
      exact (v6Body?_spec hn).1

/-- The number of an address fits into the bits of its family. -/
theorem parse?_lt (h : parse? t = some a) : a.value < 2 ^ a.family.bits := by
  unfold parse? at h
  split at h
  · next n hn =>
    cases h
    exact (v4?_spec hn).2
  · obtain ⟨n, hn, rfl⟩ := Option.map_eq_some_iff.mp h
    unfold v6? at hn
    split at hn
    · exact (v6Body?_spec hn).2
    · split at hn
      · cases hn
      · exact (v6Body?_spec hn).2

theorem not_mem_slash_of_parse? (h : parse? t = some a) : '/' ∉ t := by
  rcases parse?_form h with ht | ⟨body, scope, rfl, hbody, hscope, -, -⟩
  · exact not_mem_of_isLiteralChar ht (by decide)
  · have hslash : '/' ∉ body := not_mem_of_isLiteralChar hbody (by decide)
    rw [List.mem_append, List.mem_cons]
    exact not_or.mpr ⟨hslash, not_or.mpr ⟨by decide, hscope.noSlash⟩⟩

end Address

/-! ## Literals in a host list -/

namespace HostAtom

variable {token : Text} {a : Address}

/-- When a token is read as an address. -/
theorem parse_eq_address_iff :
    parse token = .ok (span .address (Text.trim token) a.family a.value a.value) ↔
      '/' ∉ Text.trim token ∧ rangeParts? (Text.trim token) = none ∧
        Address.parse? (Text.trim token) = some a := by
  constructor
  · intro h
    rcases parse_spec h with h | ⟨start, right, -, h⟩ | ⟨x, hslash, hparts, hx, hspan⟩ | ⟨-, h⟩
    · obtain ⟨x, p, -, -, h⟩ := parseBlock_spec h
      cases h
    · obtain ⟨kind, last, hend, -, h⟩ := parseRange_spec h
      -- the end of a range is never written as an address of its own
      rcases rangeEnd_spec hend with ⟨rfl, -⟩ | ⟨rfl, -⟩ <;> cases h
    · obtain ⟨family, value⟩ := a
      obtain ⟨family', value'⟩ := x
      cases hspan
      exact ⟨hslash, hparts, hx⟩
    · cases h
  · rintro ⟨hslash, hparts, hx⟩
    exact parse_of_address hslash hparts hx

/-- Whether an address with a scope stays one host in a host list. Blanks at the end of a token are no
part of it, and a dash behind an address makes a range, so a scope has to have a character that is not
blank, and none of them before a dash. -/
def scopeStands (scope : Text) : Bool :=
  match Text.cut '-' scope with
  | (before, none) => !Text.allBlank before
  | (before, some _) => Text.allBlank before

theorem rangeParts?_of_noDash {t : Text} (h : '-' ∉ t) : rangeParts? t = none := by
  unfold rangeParts?
  rw [Text.cut_of_not_mem h]

theorem rangeParts?_of_dash {s : Text} (h : '-' ∉ s) (rest : Text) :
    rangeParts? (s ++ '-' :: rest) = (Address.parse? (Text.trim s)).map (·, rest) := by
  unfold rangeParts?
  rw [Text.cut_append h]

theorem dropWhile_of_literal {t : Text} (h : ∀ c ∈ t, Address.isLiteralChar c = true) :
    t.dropWhile Text.isBlank = t := by
  refine List.dropWhile_eq_self_iff.mpr fun hpos => ?_
  rw [Address.isBlank_of_isLiteralChar (h _ (List.getElem_mem hpos))]
  exact Bool.false_ne_true

section Scoped

variable {body scope : Text} (hbody : ∀ c ∈ body, Address.isLiteralChar c = true)
include hbody

/-- An address with a scope, blanks at its end left out. -/
theorem parse?_trim_scoped (hvalue : Address.v6Body? body = some a.value) (hfamily : a.family = .v6)
    (hpercent : '%' ∉ scope) (hslash : '/' ∉ scope) :
    Address.parse? (Text.trim (body ++ '%' :: scope)) =
      if Text.allBlank scope then none else some a := by
  have hno : '%' ∉ body := Address.not_mem_of_isLiteralChar hbody (by decide)
  have hkept : scope.rdropWhile Text.isBlank <+: scope := List.rdropWhile_prefix _ _
  rw [Text.trim_append_cons scope (by decide), dropWhile_of_literal hbody]
  split
  · next hblank =>
    have hnil : scope.rdropWhile Text.isBlank = [] :=
      List.rdropWhile_eq_nil_iff.mpr fun c hc => List.all_eq_true.mp hblank c hc
    refine Option.eq_none_iff_forall_ne_some.mpr fun x hx => ?_
    exact ((Address.parse?_scoped_iff hno).mp hx).1.nonempty hnil
  · next hblank =>
    refine (Address.parse?_scoped_iff hno).mpr ⟨⟨fun hnil => hblank ?_, ?_, ?_⟩, hvalue, hfamily⟩
    · exact List.all_eq_true.mpr fun c hc => List.rdropWhile_eq_nil_iff.mp hnil c hc
    · exact fun hmem => hpercent (hkept.subset hmem)
    · exact fun hmem => hslash (hkept.subset hmem)

/-- There is no dash before the one of a scope. -/
theorem not_mem_dash_scoped (hscope : '-' ∉ scope) : '-' ∉ body ++ '%' :: scope := by
  intro hmem
  rcases List.mem_append.mp hmem with hmem | hmem
  · exact Address.not_mem_of_isLiteralChar hbody (by decide) hmem
  · exact hscope (List.mem_of_ne_of_mem (by decide) hmem)

theorem rangeParts?_scoped_of_noDash (hscope : '-' ∉ scope) :
    rangeParts? (Text.trim (body ++ '%' :: scope)) = none :=
  rangeParts?_of_noDash fun hmem => not_mem_dash_scoped hbody hscope (Text.mem_of_mem_trim hmem)

/-- A dash in a scope makes a range, unless the scope before it is trimmed away. -/
theorem rangeParts?_scoped_of_dash {before rest : Text} (hbefore : '-' ∉ before)
    (hvalue : Address.v6Body? body = some a.value) (hfamily : a.family = .v6)
    (hpercent : '%' ∉ before) (hslash : '/' ∉ before) :
    rangeParts? (Text.trim (body ++ '%' :: (before ++ '-' :: rest))) =
      if Text.allBlank before then none else some (a, rest.rdropWhile Text.isBlank) := by
  have htrim : Text.trim (body ++ '%' :: (before ++ '-' :: rest)) =
      (body ++ '%' :: before) ++ '-' :: rest.rdropWhile Text.isBlank := by
    rw [Text.trim_append_cons _ (by decide), dropWhile_of_literal hbody,
      Text.rdropWhile_append_cons (by decide), List.append_assoc, List.cons_append]
  rw [htrim, rangeParts?_of_dash (not_mem_dash_scoped hbody hbefore),
    parse?_trim_scoped hbody hvalue hfamily hpercent hslash]
  split
  · rfl
  · rfl

/-- An address with a scope is read as one host exactly if the scope stands. -/
theorem parse_scoped_iff (hvalue : Address.v6Body? body = some a.value) (hfamily : a.family = .v6)
    (hscope : Address.IsScope scope) :
    rangeParts? (Text.trim (body ++ '%' :: scope)) = none ∧
        Address.parse? (Text.trim (body ++ '%' :: scope)) = some a ↔ scopeStands scope = true := by
  rw [parse?_trim_scoped hbody hvalue hfamily hscope.noPercent hscope.noSlash]
  unfold scopeStands
  rcases hcut : Text.cut '-' scope with ⟨before, _ | rest⟩
  · -- no dash: the token is an address unless the scope is trimmed away
    obtain ⟨rfl, hno⟩ := Text.cut_none hcut
    rw [rangeParts?_scoped_of_noDash hbody hno]
    cases hbefore : Text.allBlank before <;> simp [hbefore]
  · obtain rfl := Text.cut_some hcut
    have hblank : Text.allBlank (before ++ '-' :: rest) = false :=
      List.all_eq_false.mpr ⟨'-', by simp, by decide⟩
    rw [hblank, rangeParts?_scoped_of_dash hbody (Text.not_mem_of_cut hcut) hvalue hfamily
      (fun hmem => hscope.noPercent (List.mem_append_left _ hmem))
      (fun hmem => hscope.noSlash (List.mem_append_left _ hmem))]
    cases hbefore : Text.allBlank before <;> simp [hbefore]

end Scoped

/-- An address is read as one host exactly if its scope stands. -/
theorem parse_literal_iff {t : Text} (h : Address.parse? t = some a) :
    parse t = .ok (span .address (Text.trim t) a.family a.value a.value) ↔
      ∀ scope ∈ Address.scope? t, scopeStands scope = true := by
  have hslash : '/' ∉ Text.trim t := fun hmem =>
    Address.not_mem_slash_of_parse? h (Text.mem_of_mem_trim hmem)
  rw [parse_eq_address_iff, and_iff_right hslash]
  unfold Address.scope?
  rcases Address.parse?_form h with ht | ⟨body, scope, rfl, hbody, hscope, hvalue, hfamily⟩
  · -- without a scope there is nothing to trim and no dash
    have hdash : '-' ∉ t := Address.not_mem_of_isLiteralChar ht (by decide)
    have hpercent : '%' ∉ t := Address.not_mem_of_isLiteralChar ht (by decide)
    rw [Text.trim_of_noBlank fun c hc => Address.isBlank_of_isLiteralChar (ht c hc),
      Text.cut_of_not_mem hpercent]
    exact iff_of_true ⟨rangeParts?_of_noDash hdash, h⟩ nofun
  · have hpercent : '%' ∉ body := Address.not_mem_of_isLiteralChar hbody (by decide)
    rw [Text.cut_append hpercent, parse_scoped_iff hbody hvalue hfamily hscope]
    simp only [Option.mem_some_iff, forall_eq']

/-- An address whose scope stands, or that has none, is one host: never a range and never refused. -/
theorem parse_literal {t : Text} (h : Address.parse? t = some a)
    (hscope : ∀ scope ∈ Address.scope? t, scopeStands scope = true) :
    parse t = .ok (span .address (Text.trim t) a.family a.value a.value) :=
  (parse_literal_iff h).mpr hscope

theorem parse_literal_of_blank_before_dash :
    Address.parse? "fe80::1% -eth0 ".toList =
        some ⟨.v6, 338288524927261089654018896841347694593⟩ ∧
      parse "fe80::1% -eth0 ".toList =
        .ok (span .address (Text.trim "fe80::1% -eth0 ".toList) .v6
          338288524927261089654018896841347694593 338288524927261089654018896841347694593) := by
  have hliteral : Address.parse? "fe80::1% -eth0 ".toList =
      some ⟨.v6, 338288524927261089654018896841347694593⟩ := by decide +kernel
  exact ⟨hliteral, parse_literal hliteral (by decide +kernel)⟩

/-- A blank scope is trimmed away with the percent sign left behind, and a dash in a scope makes a
range of other hosts. -/
theorem parse_literal_with_other_scopes :
    (Address.parse? "fe80::1% ".toList =
        some ⟨.v6, 338288524927261089654018896841347694593⟩ ∧
      parse "fe80::1% ".toList = .error ⟨.malformedAddress, "fe80::1%".toList⟩) ∧
    Address.parse? "fe80::1%eth0-ff".toList =
        some ⟨.v6, 338288524927261089654018896841347694593⟩ ∧
      parse "fe80::1%eth0-ff".toList = .ok (span .shortRange "fe80::1%eth0-ff".toList .v6
        338288524927261089654018896841347694593 338288524927261089654018896841347694847) := by
  refine ⟨⟨?_, ?_⟩, ?_, ?_⟩
  · decide +kernel
  · decide +kernel
  · decide +kernel
  · decide +kernel

end HostAtom

end ScanPolicy
