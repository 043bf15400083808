import ScanPolicy.Proofs.Host.Membership
import ScanPolicy.Proofs.Host.Spelling

/-!
# Hostnames

A hostname is made of labels that are joined by points, and one more point may stand at its end. Its
last label is not a number, and what stands before its first dash is not an address. Letter case and
the point at the end make no difference between hosts.

- `HostAtom.WritesHostname`: the labels of a hostname; `HostAtom.isHostname_iff` reads them.
- `HostAtom.parse_eq_hostname_iff`: the tokens that are read as hostnames.
- `HostAtom.hostname_spec`: which tokens are hostnames, and which hostnames are one host.
- `HostAtom.contains_hostname_of_negative_cap`: a cap below zero is refused.
-/

namespace ScanPolicy

namespace HostAtom

/-! ## Labels -/

/-- Whether a text is a label: 1 to 63 letters, digits, underscores and dashes of ASCII, with no dash
at either end. -/
structure IsLabelText (t : Text) : Prop where
  nonempty : t ≠ []
  short : t.length ≤ 63
  chars : ∀ c ∈ t, c.isAlphanum = true ∨ c = '_' ∨ c = '-'
  noDashFirst : t.head? ≠ some '-'
  noDashLast : t.getLast? ≠ some '-'

theorem isLabel_iff {t : Text} : isLabel t = true ↔ IsLabelText t := by
  unfold isLabel isLabelChar
  simp only [Bool.and_eq_true, decide_eq_true_eq, bne_iff_ne, List.all_eq_true, Bool.or_eq_true,
    or_assoc]
  constructor
  · rintro ⟨⟨⟨⟨hpos, hshort⟩, hchars⟩, hfirst⟩, hlast⟩
    exact ⟨List.ne_nil_of_length_pos hpos, hshort, hchars, hfirst, hlast⟩
  · rintro ⟨hne, hshort, hchars, hfirst, hlast⟩
    exact ⟨⟨⟨⟨List.length_pos_iff.mpr hne, hshort⟩, hchars⟩, hfirst⟩, hlast⟩

theorem IsLabelText.noPoint {t : Text} (h : IsLabelText t) : '.' ∉ t := by
  intro hmem
  rcases h.chars _ hmem with hc | hc | hc
  · exact absurd hc (by decide)
  · exact absurd hc (by decide)
  · exact absurd hc (by decide)

/-! ## Hostnames -/

/-- Whether a text is a hostname with the given labels: up to 253 characters, one more point allowed
at the end, and a last label that is not a number. -/
structure WritesHostname (t : Text) (labels : List Text) : Prop where
  nonempty : 1 ≤ t.length
  short : t.length ≤ 253
  joined : t = List.intercalate ['.'] labels ∨ t = List.intercalate ['.'] labels ++ ['.']
  someLabel : labels ≠ []
  label : ∀ l ∈ labels, IsLabelText l
  noNumber : ∃ l, labels.getLast? = some l ∧ ∃ c ∈ l, c.isDigit = false

theorem dropPoint_concat (t : Text) : dropPoint (t ++ ['.']) = t := by
  unfold dropPoint
  rw [if_pos List.getLast?_concat, List.dropLast_concat]

theorem dropPoint_cases (t : Text) : t = dropPoint t ∨ t = dropPoint t ++ ['.'] := by
  by_cases hpoint : t.getLast? = some '.'
  · obtain ⟨front, rfl⟩ := List.getLast?_eq_some_iff.mp hpoint
    exact .inr (by rw [dropPoint_concat])
  · left
    unfold dropPoint
    rw [if_neg hpoint]

section WritesHostname

variable {t : Text} {labels : List Text}

/-- A hostname is cut into its labels at its points. -/
theorem WritesHostname.pieces_dropPoint (h : WritesHostname t labels) :
    Text.pieces '.' (dropPoint t) = labels := by
  have hpieces : Text.pieces '.' (List.intercalate ['.'] labels) = labels :=
    Text.pieces_intercalate h.someLabel fun l hl => (h.label l hl).noPoint
  rcases h.joined with rfl | rfl
  · have hpoint : (List.intercalate ['.'] labels).getLast? ≠ some '.' := by
      intro hpoint
      -- a point at the end would have an empty label behind it
      obtain ⟨front, hfront⟩ := List.getLast?_eq_some_iff.mp hpoint
      rw [hfront, Text.pieces_append] at hpieces
      have hnil : [] ∈ labels := hpieces ▸ List.mem_append_right _ List.mem_cons_self
      exact (h.label [] hnil).nonempty rfl
    unfold dropPoint
    rw [if_neg hpoint, hpieces]
  · rw [dropPoint_concat, hpieces]

/-- The texts that pass for hostnames are those that labels write. -/
theorem isHostname_iff : isHostname t = true ↔ ∃ labels, WritesHostname t labels := by
  constructor
  · intro h
    have hlabels := labels_of_isHostname h
    have hne := Text.pieces_ne_nil '.' (dropPoint t)
    unfold isHostname labels? at h
    split at h
    · next labels hsome =>
      dsimp only at hsome
      split at hsome
      · next hbounds =>
        cases hsome
        simp only [Bool.and_eq_true, decide_eq_true_eq] at hbounds
        refine ⟨Text.pieces '.' (dropPoint t), hbounds.1.1, hbounds.1.2, ?_, hne, ?_, ?_⟩
        · rw [Text.intercalate_pieces]
          exact dropPoint_cases t
        · exact fun l hl => isLabel_iff.mp (hlabels l hl)
        · refine ⟨_, List.getLast?_eq_getLast_of_ne_nil hne, ?_⟩
          rw [List.getLast?_eq_getLast_of_ne_nil hne] at h
          simpa using h
      · cases hsome
    · cases h
  · rintro ⟨labels, h⟩
    obtain ⟨l, hl, c, hc, hdigit⟩ := h.noNumber
    have hall : labels.all isLabel = true :=
      List.all_eq_true.mpr fun l hl => isLabel_iff.mpr (h.label l hl)
    have hsome : labels? t = some labels := by
      unfold labels?
      rw [h.pieces_dropPoint]
      exact if_pos (by simp [h.nonempty, h.short, hall])
    have hnumber : l.all Char.isDigit = false := List.all_eq_false.mpr ⟨c, hc, by simp [hdigit]⟩
    unfold isHostname
    rw [hsome]
    dsimp only
    rw [hl, Option.getD_some, hnumber]
    rfl

end WritesHostname

/-! ## The characters of a hostname -/

/-- Whether a character can stand in a hostname. -/
def isHostnameChar (c : Char) : Bool := isLabelChar c || c = '-' || c = '.'

theorem isHostnameChar_of_isHostname {t : Text} (h : isHostname t = true) :
    ∀ c ∈ t, isHostnameChar c = true := by
  have hname : ∀ c ∈ dropPoint t, isHostnameChar c = true := by
    intro c hc
    rcases isLabelChar_of_isHostname h hc with rfl | rfl | hc
    · decide
    · decide
    · unfold isHostnameChar
      rw [hc, Bool.true_or, Bool.true_or]
  intro c hc
  rcases dropPoint_cases t with heq | heq
  · exact hname c (heq ▸ hc)
  · rw [heq, List.mem_append, List.mem_singleton] at hc
    rcases hc with hc | rfl
    · exact hname c hc
    · decide

theorem not_mem_of_isHostname {t : Text} (h : isHostname t = true) {c : Char}
    (hc : isHostnameChar c = false) : c ∉ t :=
  fun hmem => Bool.eq_false_iff.mp hc (isHostnameChar_of_isHostname h c hmem)

theorem plain_of_isHostnameChar {c : Char} (h : isHostnameChar c = true) :
    Text.isBlank c = false ∧ isSeparator c = false := by
  have hlt : c.toNat < 128 := by
    unfold isHostnameChar at h
    rw [Bool.or_eq_true, Bool.or_eq_true, decide_eq_true_eq, decide_eq_true_eq] at h
    rcases h with (h | rfl) | rfl
    · exact toNat_lt_of_isLabelChar h
    · decide
    · decide
  exact Text.of_toNat_lt (P := fun c => isHostnameChar c = true →
    Text.isBlank c = false ∧ isSeparator c = false) (by decide +kernel) hlt h

/-- A hostname has a character that is neither a digit nor a point. -/
theorem exists_mem_of_isHostname {t : Text} (h : isHostname t = true) :
    ∃ c ∈ t, c.isDigit = false ∧ c ≠ '.' := by
  obtain ⟨labels, hlabels⟩ := isHostname_iff.mp h
  obtain ⟨l, hl, c, hc, hdigit⟩ := hlabels.noNumber
  have hl := List.mem_of_getLast? hl
  refine ⟨c, ?_, hdigit, ?_⟩
  · have hmem : c ∈ dropPoint t := by
      rw [← hlabels.pieces_dropPoint] at hl
      exact Text.mem_of_mem_pieces hl hc
    rcases dropPoint_cases t with heq | heq
    · exact heq ▸ hmem
    · rw [heq]
      exact List.mem_append_left _ hmem
  · rintro rfl
    exact (hlabels.label l hl).noPoint hc

/-- No hostname is an address: it has no colon, and not only digits and points. -/
theorem parse?_of_isHostname {t : Text} (h : isHostname t = true) : Address.parse? t = none := by
  have hv4 : Address.v4? t = none := by
    obtain ⟨c, hc, hdigit, hpoint⟩ := exists_mem_of_isHostname h
    refine Option.eq_none_iff_forall_ne_some.mpr fun n hn => ?_
    rcases Address.isDigit_of_v4? hn hc with hc | hc
    · exact hpoint hc
    · rw [hdigit] at hc
      cases hc
  have hcolon : ':' ∉ t := not_mem_of_isHostname h (by decide)
  unfold Address.parse?
  rw [hv4, Address.v6?_of_noColon hcolon]
  rfl

/-! ## Hostnames in a host list -/

variable {token : Text}

theorem parse_of_hostname (hname : isHostname (Text.trim token) = true)
    (hparts : rangeParts? (Text.trim token) = none) : parse token =
      .ok (hostname (Text.trim token) (Text.asciiLower (dropPoint (Text.trim token)))) := by
  obtain ⟨c, hc, hdigit, hpoint⟩ := exists_mem_of_isHostname hname
  have hslash : '/' ∉ Text.trim token := not_mem_of_isHostname hname (by decide)
  have hcolon : ':' ∉ Text.trim token := not_mem_of_isHostname hname (by decide)
  have hnumber : ((Text.trim token).all fun c => c.isDigit || c = '.') = false :=
    List.all_eq_false.mpr ⟨c, hc, by simp [hdigit, hpoint]⟩
  unfold parse
  simp only [hparts, parse?_of_isHostname hname, hnumber, hname, Bool.false_or, if_true]
  rw [if_neg (by simpa using List.ne_nil_of_mem hc), if_neg (by rwa [List.contains_iff_mem]),
    if_neg (by rwa [List.contains_iff_mem])]

/-- The tokens that are read as hostnames, and the names that are read. -/
theorem parse_eq_hostname_iff {text name : Text} : parse token = .ok (hostname text name) ↔
    isHostname (Text.trim token) = true ∧ rangeParts? (Text.trim token) = none ∧
      text = Text.trim token ∧ name = Text.asciiLower (dropPoint (Text.trim token)) := by
  constructor
  · intro h
    rcases parse_spec h with hblock | ⟨start, right, -, hrange⟩ | ⟨x, -, -, -, hspan⟩ | ⟨hname, heq⟩
    · obtain ⟨x, p, -, -, hspan⟩ := parseBlock_spec hblock
      cases hspan
    · obtain ⟨kind, last, -, -, hspan⟩ := parseRange_spec hrange
      cases hspan
    · cases hspan
    · cases heq
      refine ⟨hname, ?_, rfl, rfl⟩
      -- with an address before its first dash, the token would be read as a range
      rcases hparts : rangeParts? (Text.trim token) with _ | ⟨start, right⟩
      · rfl
      · have hslash : '/' ∉ Text.trim token := not_mem_of_isHostname hname (by decide)
        rw [parse_of_rangeParts? hslash hparts] at h
        obtain ⟨kind, last, -, -, hspan⟩ := parseRange_spec h
        cases hspan
  · rintro ⟨hname, hparts, rfl, rfl⟩
    exact parse_of_hostname hname hparts

/-- A hostname makes no range exactly if what stands before its first dash is no address. -/
theorem rangeParts?_of_isHostname {t : Text} (h : isHostname t = true) : rangeParts? t = none ↔
    ∀ front rest, t = front ++ '-' :: rest → '-' ∉ front → Address.parse? front = none := by
  have hdash : ∀ front rest, t = front ++ '-' :: rest → '-' ∉ front →
      (rangeParts? t = none ↔ Address.parse? front = none) := by
    rintro front rest rfl hfront
    have hplain : Text.trim front = front := Text.trim_of_noBlank fun c hc =>
      (plain_of_isHostnameChar (isHostnameChar_of_isHostname h c (List.mem_append_left _ hc))).1
    rw [rangeParts?_of_dash hfront, hplain, Option.map_eq_none_iff]
  constructor
  · intro hnone front rest ht hfront
    exact (hdash front rest ht hfront).mp hnone
  · intro hall
    by_cases hmem : '-' ∈ t
    · obtain ⟨front, rest, ht, hfront⟩ := List.eq_append_cons_of_mem hmem
      exact (hdash front rest ht hfront).mpr (hall front rest ht hfront)
    · exact rangeParts?_of_noDash hmem

/-! ## Identity of hostnames -/

/-- A token is a hostname exactly if it is labels joined by points, blanks around it left out, and no
address stands before its first dash. For a cap that is not below zero, one hostname contains another
one exactly if they are equal in lower case and without a point at the end; a cap below zero is
refused. -/
theorem hostname_spec :
    (∀ token, (∃ text name, parse token = .ok (hostname text name)) ↔
      (∃ labels, WritesHostname (Text.trim token) labels) ∧
        ∀ front rest, Text.trim token = front ++ '-' :: rest → '-' ∉ front →
          Address.parse? front = none) ∧
    ∀ h₁ h₂, (∃ text name, parse h₁ = .ok (hostname text name)) →
      (∃ text name, parse h₂ = .ok (hostname text name)) → ∀ cap : Int,
        (HostList.contains h₁ h₂ cap).value =
          if 0 ≤ cap then .ok (decide (Text.asciiLower (dropPoint (Text.trim h₁)) =
            Text.asciiLower (dropPoint (Text.trim h₂))))
          else .error ⟨cap⟩ := by
  constructor
  · intro token
    rw [← isHostname_iff]
    constructor
    · rintro ⟨text, name, h⟩
      obtain ⟨hname, hparts, -, -⟩ := parse_eq_hostname_iff.mp h
      exact ⟨hname, (rangeParts?_of_isHostname hname).mp hparts⟩
    · rintro ⟨hname, hall⟩
      exact ⟨_, _, parse_of_hostname hname ((rangeParts?_of_isHostname hname).mpr hall)⟩
  · rintro h₁ h₂ ⟨text₁, name₁, hread₁⟩ ⟨text₂, name₂, hread₂⟩ cap
    obtain ⟨hname₁, -, -, rfl⟩ := parse_eq_hostname_iff.mp hread₁
    obtain ⟨-, -, -, rfl⟩ := parse_eq_hostname_iff.mp hread₂
    have hlist := parseList_of_parse hread₁ fun c hc =>
      (plain_of_isHostnameChar (isHostnameChar_of_isHostname hname₁ c hc)).2
    split
    · next hcap =>
      rw [HostList.contains_of_parse hlist hread₂ rfl hcap]
      unfold HostList.denotes
      rw [List.any_cons, List.any_nil, Bool.or_false]
      exact congrArg Except.ok (beq_eq_decide _ _)
    · next hcap =>
      cases cap with
      | ofNat n => exact absurd (Int.natCast_nonneg n) hcap
      | negSucc n => rfl

theorem hostname_spec_of_case :
    (HostList.contains "Web-1.example".toList " wEB-1.Example. ".toList 0).value = .ok true := by
  have hread₁ : parse "Web-1.example".toList =
      .ok (.hostname "Web-1.example".toList "web-1.example".toList) := by
    decide +kernel
  have hread₂ : parse " wEB-1.Example. ".toList =
      .ok (.hostname "wEB-1.Example.".toList "web-1.example".toList) := by
    decide +kernel
  rw [hostname_spec.2 _ _ ⟨_, _, hread₁⟩ ⟨_, _, hread₂⟩ 0]
  decide +kernel

/-- Below zero, no cap is answered for: a hostname is not even found to contain itself. -/
theorem contains_hostname_of_negative_cap : ¬ ∀ h₁ h₂,
    (∃ text name, parse h₁ = .ok (.hostname text name)) →
      (∃ text name, parse h₂ = .ok (.hostname text name)) → ∀ cap : Int,
        ((HostList.contains h₁ h₂ cap).value = .ok true ↔
          Text.asciiLower (dropPoint (Text.trim h₁)) =
            Text.asciiLower (dropPoint (Text.trim h₂))) := by
  intro hall
  have hread : parse "gw".toList = .ok (.hostname "gw".toList "gw".toList) := by
    decide +kernel
  have hself := (hall "gw".toList "gw".toList ⟨_, _, hread⟩ ⟨_, _, hread⟩ (-1)).mpr rfl
  cases hself

end HostAtom

end ScanPolicy
