import Mathlib.Data.List.Basic
import ScanPolicy.Text.Case
import ScanPolicy.Text.Numeral

/-!
# Cutting texts at their marks

A rule text is put into upper case before it is cut. The upper case of a text has the
same marks as the text: the characters at which it is cut, and its blanks.

- `Text.pieces_intercalate`: joined pieces are cut apart again.
- `Text.words_of_noBlank`: a text without blanks is one word.
- `Text.mem_upper_of_isMark`: upper case makes no marks.
- `Text.toInt?_of_asciiNat?`: a numeral in ASCII digits, in upper case.
- `Text.toInt?_ofInt`: the text of an integer is a numeral for it.
-/

namespace ScanPolicy.Text

/-! ## Pieces -/

theorem pieces_of_not_mem {sep : Char} {t : Text} (h : sep ∉ t) : pieces sep t = [t] := by
  induction t with
  | nil => rfl
  | cons c rest ih =>
    obtain ⟨hc, hrest⟩ := List.ne_and_not_mem_of_not_mem_cons h
    unfold pieces
    rw [if_neg (Ne.symm hc), ih hrest]

theorem pieces_append (sep : Char) (t rest : Text) :
    pieces sep (t ++ sep :: rest) = pieces sep t ++ pieces sep rest := by
  induction t with
  | nil => exact if_pos rfl
  | cons c t ih =>
    rw [List.cons_append, pieces, pieces]
    split
    · rw [ih, List.cons_append]
    · rw [ih]
      cases hp : pieces sep t with
      | nil => exact absurd hp (pieces_ne_nil sep t)
      | cons p ps => rfl

theorem intercalate_singleton (sep : Char) (t : Text) : List.intercalate [sep] [t] = t :=
  List.append_nil t

theorem intercalate_cons_cons (sep : Char) (t u : Text) (more : List Text) :
    List.intercalate [sep] (t :: u :: more) = t ++ sep :: List.intercalate [sep] (u :: more) := rfl

/-- Pieces that are joined are cut apart again. -/
theorem pieces_intercalate {sep : Char} {ts : List Text} (hts : ts ≠ []) (h : ∀ t ∈ ts, sep ∉ t) :
    pieces sep (List.intercalate [sep] ts) = ts := by
  induction ts with
  | nil => exact absurd rfl hts
  | cons t rest ih =>
    have ht := h t List.mem_cons_self
    cases rest with
    | nil => rw [intercalate_singleton, pieces_of_not_mem ht]
    | cons u more =>
      rw [intercalate_cons_cons, pieces_append, pieces_of_not_mem ht, List.singleton_append,
        ih (List.cons_ne_nil _ _) fun x hx => h x (List.mem_cons_of_mem _ hx)]

theorem not_mem_of_mem_pieces {sep : Char} {t p : Text} (h : p ∈ pieces sep t) : sep ∉ p := by
  induction t generalizing p with
  | nil =>
    obtain rfl := List.mem_singleton.mp h
    exact List.not_mem_nil
  | cons c rest ih =>
    unfold pieces at h
    split at h
    · rcases List.mem_cons.mp h with rfl | h
      · exact List.not_mem_nil
      · exact ih h
    · next hc =>
      split at h
      · obtain rfl := List.mem_singleton.mp h
        exact List.not_mem_cons_of_ne_of_not_mem (Ne.symm hc) List.not_mem_nil
      · next q qs hq =>
        rw [hq] at ih
        rcases List.mem_cons.mp h with rfl | h
        · exact List.not_mem_cons_of_ne_of_not_mem (Ne.symm hc) (ih List.mem_cons_self)
        · exact ih (List.mem_cons_of_mem _ h)

theorem mem_of_mem_pieces {sep c : Char} {t p : Text} (h : p ∈ pieces sep t) (hc : c ∈ p) : c ∈ t := by
  induction t generalizing p with
  | nil =>
    rw [List.mem_singleton.mp h] at hc
    exact hc
  | cons d rest ih =>
    unfold pieces at h
    split at h
    · rcases List.mem_cons.mp h with rfl | h
      · cases hc
      · exact List.mem_cons_of_mem _ (ih h hc)
    · split at h
      · rw [List.mem_singleton.mp h] at hc
        exact List.mem_singleton.mp hc ▸ List.mem_cons_self
      · next q qs hq =>
        rw [hq] at ih
        rcases List.mem_cons.mp h with rfl | h
        · rcases List.mem_cons.mp hc with rfl | hc
          · exact List.mem_cons_self
          · exact List.mem_cons_of_mem _ (ih List.mem_cons_self hc)
        · exact List.mem_cons_of_mem _ (ih (List.mem_cons_of_mem _ h) hc)

/-- A text with exactly one piece is that piece. -/
theorem eq_of_pieces_eq {sep : Char} {t p : Text} (h : pieces sep t = [p]) : t = p := by
  have hjoin := intercalate_pieces sep t
  rw [h] at hjoin
  simpa using hjoin.symm

/-- A text is cut behind a beginning without the separator. -/
theorem cut_append_of_not_mem {sep : Char} {s : Text} (h : sep ∉ s) (t : Text) :
    cut sep (s ++ t) = (s ++ (cut sep t).1, (cut sep t).2) := by
  induction s with
  | nil => rfl
  | cons c s ih =>
    obtain ⟨hc, hs⟩ := List.ne_and_not_mem_of_not_mem_cons h
    rw [List.cons_append, cut, if_neg (Ne.symm hc), ih hs]
    rfl

theorem cut_append {sep : Char} {t : Text} (h : sep ∉ t) (rest : Text) :
    cut sep (t ++ sep :: rest) = (t, some rest) := by
  rw [cut_append_of_not_mem h, cut, if_pos rfl, List.append_nil]

theorem cut_of_not_mem {sep : Char} {t : Text} (h : sep ∉ t) : cut sep t = (t, none) := by
  have hcut := cut_append_of_not_mem h []
  rw [List.append_nil] at hcut
  rw [hcut]
  exact congrArg (·, none) (List.append_nil t)

theorem cut_none {sep : Char} {t before : Text} (h : cut sep t = (before, none)) :
    before = t ∧ sep ∉ t := by
  have hmem : sep ∉ t := by
    intro hmem
    obtain ⟨s, u, rfl, hs⟩ := List.eq_append_cons_of_mem hmem
    rw [cut_append hs] at h
    cases h
  rw [cut_of_not_mem hmem] at h
  cases h
  exact ⟨rfl, hmem⟩

theorem not_mem_of_cut {sep : Char} {t before : Text} {after : Option Text}
    (h : cut sep t = (before, after)) : sep ∉ before := by
  induction t generalizing before with
  | nil =>
    cases h
    exact List.not_mem_nil
  | cons c rest ih =>
    unfold cut at h
    split at h
    · cases h
      exact List.not_mem_nil
    · next hc =>
      cases h
      exact List.not_mem_cons_of_ne_of_not_mem (Ne.symm hc) (ih rfl)

/-! ## Words -/

theorem wordsFrom_of_noBlank {t : Text} (h : ∀ c ∈ t, isBlank c = false) (run : Text) :
    wordsFrom run t = if (t.reverse ++ run).isEmpty then [] else [(t.reverse ++ run).reverse] := by
  induction t generalizing run with
  | nil => rfl
  | cons c rest ih =>
    unfold wordsFrom
    rw [h c List.mem_cons_self, if_neg Bool.false_ne_true,
      ih (fun x hx => h x (List.mem_cons_of_mem _ hx)), List.reverse_cons, List.append_assoc]
    rfl

/-- A text without blanks is one word. -/
theorem words_of_noBlank {t : Text} (h : ∀ c ∈ t, isBlank c = false) (hne : t ≠ []) :
    words t = [t] := by
  have hreverse : (t.reverse ++ []).isEmpty = false := by
    rw [List.append_nil, List.isEmpty_eq_false_iff]
    exact fun hnil => hne (List.reverse_eq_nil_iff.mp hnil)
  unfold words
  rw [wordsFrom_of_noBlank h, hreverse, if_neg Bool.false_ne_true, List.append_nil,
    List.reverse_reverse]

theorem mem_of_mem_trim {c : Char} {t : Text} (h : c ∈ trim t) : c ∈ t := by
  unfold trim dropEndWhile at h
  have hmem := (List.dropWhile_sublist _).subset (List.mem_reverse.mp h)
  exact (List.dropWhile_sublist _).subset (List.mem_reverse.mp hmem)

theorem trim_of_noBlank {t : Text} (h : ∀ c ∈ t, isBlank c = false) : trim t = t := by
  have hdrop : ∀ {u : Text}, (∀ c ∈ u, isBlank c = false) → u.dropWhile isBlank = u := by
    intro u hu
    cases u with
    | nil => rfl
    | cons c rest => exact List.dropWhile_cons_of_neg (by rw [hu c List.mem_cons_self]; simp)
  unfold trim dropEndWhile
  rw [hdrop h, hdrop fun c hc => h c (List.mem_reverse.mp hc), List.reverse_reverse]

/-! ## Marks -/

/-- The code points of the marks: those of the blanks, of the colon and the semicolon, and of
the equals sign; and those of the small letters whose upper case is in ASCII. -/
def markRanges : List (Nat × Nat) := [
  (9, 13), (28, 32), (58, 59), (61, 61), (0x85, 0x85), (0xA0, 0xA0), (0x1680, 0x1680),
  (0x2000, 0x200A), (0x2028, 0x2029), (0x202F, 0x202F), (0x205F, 0x205F), (0x3000, 0x3000),
  (97, 122), (0xDF, 0xDF), (0x131, 0x131), (0x17F, 0x17F), (0xFB00, 0xFB06)]

/-- Whether a code point is the one of a mark. -/
def isMarkCode (n : Nat) : Bool := markRanges.any fun (low, high) => low ≤ n && n ≤ high

/-- Whether a rule text is cut at a character, or a character is a small letter. -/
def isMark (c : Char) : Bool := isMarkCode c.toNat

theorem isMark_of_isBlank {c : Char} (h : isBlank c = true) : isMark c = true := by
  unfold isBlank at h
  unfold isMark isMarkCode markRanges
  simp only [List.any_cons, List.any_nil, Bool.or_eq_true, Bool.and_eq_true, decide_eq_true_eq,
    beq_iff_eq, Bool.or_false] at h ⊢
  omega

/-- What holds of the characters with the first code points, one by one. -/
theorem of_toNat_lt {P : Char → Prop} {bound : Nat} (h : ∀ n < bound, P (Char.ofNat n)) {c : Char}
    (hc : c.toNat < bound) : P c := by
  have hP := h c.toNat hc
  rwa [Char.ofNat_toNat] at hP

theorem upperChar_ascii {c d : Char} (h : c.toNat < 128) (hmark : isMark d = true)
    (hd : d = c.toUpper) : d = c := by
  rw [hd] at hmark ⊢
  exact of_toNat_lt (P := fun c => isMark c.toUpper = true → c.toUpper = c) (by decide) h hmark

theorem ofNat_isMark {n : Nat} (h : isMark (Char.ofNat n) = true) : isMarkCode n = true := by
  unfold isMark Char.ofNat at h
  by_cases hvalid : n.isValidChar
  · rw [dif_pos hvalid] at h
    exact h
  · rw [dif_neg hvalid] at h
    exact absurd h (by decide)

/-- No character becomes several ones with a mark. -/
theorem upperSpecials_noMark : upperSpecials.all (fun (_, ns) => ns.all fun n => !isMarkCode n) = true := by
  decide +kernel

/-- No run of characters moves onto a mark. -/
theorem upperRuns_noMark : upperRuns.all (fun r => markRanges.all fun (low, high) =>
    decide ((r.last : Int) + r.shift < low) || decide ((high : Int) < r.first + r.shift)) = true := by
  decide +kernel

theorem moveBy_noMark {n : Nat} (h : isMarkCode (moveBy upperRuns n) = true) :
    moveBy upperRuns n = n := by
  unfold moveBy at h ⊢
  cases hfind : upperRuns.find? fun r => r.first ≤ n && n ≤ r.last && (n - r.first) % r.step == 0 with
  | none => rfl
  | some r =>
    rw [hfind] at h
    have hr := List.all_eq_true.mp upperRuns_noMark r (List.mem_of_find?_eq_some hfind)
    have hin := List.find?_some hfind
    simp only [Bool.and_eq_true, decide_eq_true_eq, beq_iff_eq] at hin
    obtain ⟨⟨low, high⟩, hmem, hrange⟩ := List.any_eq_true.mp h
    have hfree := List.all_eq_true.mp hr _ hmem
    simp only [Bool.and_eq_true, Bool.or_eq_true, decide_eq_true_eq] at hrange hfree
    have hlow : low ≠ 0 := by
      have hall : ∀ p ∈ markRanges, p.1 ≠ 0 := by decide
      exact hall _ hmem
    omega

/-- The upper case of a character has no mark unless it is that mark. -/
theorem eq_of_mem_upperChar {c d : Char} (hd : d ∈ upperChar c) (hmark : isMark d = true) : d = c := by
  unfold upperChar at hd
  split at hd
  · next h => exact upperChar_ascii h hmark (List.mem_singleton.mp hd)
  split at hd
  · next ns hns =>
    obtain ⟨n, hn, rfl⟩ := List.mem_map.mp hd
    obtain ⟨l₁, l₂, heq, -⟩ := List.lookup_eq_some_iff.mp hns
    have hmem : (c.toNat, ns) ∈ upperSpecials := by
      rw [heq]
      exact List.mem_append_right _ List.mem_cons_self
    have hnone := List.all_eq_true.mp (List.all_eq_true.mp upperSpecials_noMark _ hmem) n hn
    rw [ofNat_isMark hmark] at hnone
    cases hnone
  · rw [List.mem_singleton.mp hd] at hmark ⊢
    rw [moveBy_noMark (ofNat_isMark hmark), Char.ofNat_toNat]

/-- Upper case makes no marks. -/
theorem mem_upper_of_isMark {c : Char} {t : Text} (h : c ∈ upper t) (hmark : isMark c = true) :
    c ∈ t := by
  obtain ⟨d, hd, hc⟩ := List.mem_flatMap.mp h
  rw [eq_of_mem_upperChar hc hmark]
  exact hd

theorem upper_append (s t : Text) : upper (s ++ t) = upper s ++ upper t := List.flatMap_append

theorem upper_cons (c : Char) (t : Text) : upper (c :: t) = upperChar c ++ upper t :=
  List.flatMap_cons

/-- Joined pieces are put into upper case one by one. -/
theorem upper_intercalate {sep : Char} (hsep : upperChar sep = [sep]) (ts : List Text) :
    upper (List.intercalate [sep] ts) = List.intercalate [sep] (ts.map upper) := by
  induction ts with
  | nil => rfl
  | cons t rest ih =>
    cases rest with
    | nil => rw [intercalate_singleton, List.map_singleton, intercalate_singleton]
    | cons u more =>
      rw [intercalate_cons_cons, upper_append, upper_cons, hsep, ih]
      rfl

theorem mem_intercalate {c sep : Char} {ts : List Text} (h : c ∈ List.intercalate [sep] ts) :
    c = sep ∨ ∃ t ∈ ts, c ∈ t := by
  induction ts with
  | nil => cases h
  | cons t rest ih =>
    cases rest with
    | nil =>
      rw [intercalate_singleton] at h
      exact .inr ⟨t, List.mem_cons_self, h⟩
    | cons u more =>
      rw [intercalate_cons_cons, List.mem_append, List.mem_cons] at h
      rcases h with h | h | h
      · exact .inr ⟨t, List.mem_cons_self, h⟩
      · exact .inl h
      · rcases ih h with h | ⟨v, hv, h⟩
        · exact .inl h
        · exact .inr ⟨v, List.mem_cons_of_mem _ hv, h⟩

/-! ## Numerals in ASCII digits -/

theorem digit_bounds {c : Char} (h : c.isDigit = true) : 48 ≤ c.toNat ∧ c.toNat ≤ 57 := by
  simp only [Char.isDigit, Bool.and_eq_true, decide_eq_true_eq] at h
  exact ⟨UInt32.le_iff_toNat_le.mp h.1, UInt32.le_iff_toNat_le.mp h.2⟩

theorem digit?_of_isDigit {c : Char} (h : c.isDigit = true) : digit? c = some (c.toNat - 48) := by
  obtain ⟨hlow, hhigh⟩ := digit_bounds h
  have hfirst : (decide (48 ≤ c.toNat) && decide (c.toNat < 48 + 10)) = true := by
    simp only [Bool.and_eq_true, decide_eq_true_eq]
    omega
  unfold digit? digitZeros
  rw [List.findSome?_cons, if_pos hfirst]

theorem digitsFrom_of_all {t : Text} (h : t.all Char.isDigit = true) (hne : t ≠ []) (after : Bool) :
    digitsFrom after t = some (t.map fun c => c.toNat - 48) := by
  induction t generalizing after with
  | nil => exact absurd rfl hne
  | cons c rest ih =>
    obtain ⟨hc, hrest⟩ := Bool.and_eq_true_iff.mp h
    have hnot : c ≠ '_' := by
      rintro rfl
      exact absurd hc (by decide)
    unfold digitsFrom
    rw [if_neg hnot, digit?_of_isDigit hc]
    cases rest with
    | nil => rfl
    | cons d more =>
      dsimp only
      rw [ih hrest (List.cons_ne_nil _ _)]
      rfl

theorem isBlank_of_isDigit {c : Char} (h : c.isDigit = true) : isBlank c = false := by
  have hbounds := digit_bounds h
  unfold isBlank
  simp only [Bool.or_eq_false_iff, Bool.and_eq_false_iff, decide_eq_false_iff_not,
    beq_eq_false_iff_ne, ne_eq]
  omega

theorem not_mem_of_all_isDigit {t : Text} (h : t.all Char.isDigit = true) {c : Char}
    (hc : c.isDigit = false) : c ∉ t :=
  fun hmem => Bool.eq_false_iff.mp hc (List.all_eq_true.mp h c hmem)

theorem upper_of_all_isDigit {t : Text} (h : t.all Char.isDigit = true) : upper t = t := by
  refine (List.flatMap_congr fun c hc => ?_).trans (List.flatMap_singleton' t)
  obtain ⟨hlow, hhigh⟩ := digit_bounds (List.all_eq_true.mp h c hc)
  exact of_toNat_lt (P := fun c => 48 ≤ c.toNat → upperChar c = [c]) (by decide)
    (Nat.lt_succ_of_le hhigh) hlow

theorem all_isDigit_of_asciiNat? {t : Text} {n : Nat} (h : asciiNat? t = some n) :
    t.all Char.isDigit = true := by
  unfold asciiNat? at h
  split at h
  · next hdigits => exact (Bool.and_eq_true_iff.mp hdigits).2
  · cases h

theorem unsigned?_of_asciiNat? {t : Text} {n : Nat} (h : asciiNat? t = some n)
    (hlength : t.length ≤ numeralLimit) : unsigned? t = some n := by
  have hall := all_isDigit_of_asciiNat? h
  have hne : t ≠ [] := by
    rintro rfl
    cases h
  unfold unsigned? digits?
  rw [digitsFrom_of_all hall hne]
  dsimp only
  rw [List.length_map, if_pos hlength, ← h]
  unfold ofDigits asciiNat?
  rw [List.foldl_map, if_pos (by simp [hall, hne])]

/-- A numeral in ASCII digits is its own upper case, and an integer. -/
theorem toInt?_of_asciiNat? {t : Text} {n : Nat} (h : asciiNat? t = some n)
    (hlength : t.length ≤ numeralLimit) : toInt? (upper t) = some n := by
  have hall := all_isDigit_of_asciiNat? h
  have htrim : trim t = t :=
    trim_of_noBlank fun c hc => isBlank_of_isDigit (List.all_eq_true.mp hall c hc)
  unfold toInt?
  rw [upper_of_all_isDigit hall, htrim]
  split
  · exact absurd (List.all_eq_true.mp hall _ List.mem_cons_self) (by decide)
  · exact absurd (List.all_eq_true.mp hall _ List.mem_cons_self) (by decide)
  · rw [unsigned?_of_asciiNat? h hlength]
    rfl

/-! ## The digits of an integer -/

theorem asciiNat?_ofNat (n : Nat) : asciiNat? (ofNat n) = some n := by
  have hdigits : ∀ c ∈ ofNat n, c.isDigit = true := fun c hc =>
    Nat.isDigit_of_mem_toDigits (by decide) (by decide) hc
  have hne : ofNat n ≠ [] := Nat.toDigits_ne_nil
  have hstep : (fun (n : Nat) (c : Char) => n * 10 + (c.toNat - 48)) =
      fun n c => 10 * n + (c.toNat - '0'.toNat) := by
    funext n c
    rw [Nat.mul_comm]
    rfl
  unfold asciiNat?
  rw [if_pos (by simpa [hne] using hdigits), hstep, ← Nat.ofDigitChars_eq_foldl]
  exact congrArg some Nat.ofDigitChars_ten_toDigits

/-- The text of an integer denotes it if its digits are as few as those of a numeral. -/
theorem toInt?_ofInt {n : Int} (hlength : (ofNat n.natAbs).length ≤ numeralLimit) :
    toInt? (ofInt n) = some n := by
  cases n with
  | ofNat n =>
    have h := toInt?_of_asciiNat? (asciiNat?_ofNat n) hlength
    rwa [upper_of_all_isDigit (all_isDigit_of_asciiNat? (asciiNat?_ofNat n))] at h
  | negSucc n =>
    have hall := all_isDigit_of_asciiNat? (asciiNat?_ofNat (n + 1))
    have htrim : trim (ofInt (.negSucc n)) = '-' :: ofNat (n + 1) := by
      refine trim_of_noBlank (List.forall_mem_cons.mpr ⟨by decide, fun c hc => ?_⟩)
      exact isBlank_of_isDigit (List.all_eq_true.mp hall c hc)
    have hunsigned := unsigned?_of_asciiNat? (asciiNat?_ofNat (n + 1)) hlength
    unfold toInt?
    simp only [htrim, hunsigned]
    rfl

end ScanPolicy.Text
