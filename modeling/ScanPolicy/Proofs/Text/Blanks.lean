import Mathlib.Data.List.DropRight
import ScanPolicy.Proofs.Text.Marks

/-!
# Blanks of a text

A text is trimmed at its two ends and cut into words at its blanks. If it has no blanks at its ends,
then each blank in it stands between two words, and it is one word only if it has no blanks.

- `Text.exists_trim`, `Text.trim_append_cons`: what is left of a text that is trimmed.
- `Text.Bare`: no blanks at the ends; of a trimmed text, in upper case, of joined texts.
- `Text.words_append`: the words of a text with a blank in it.
- `Text.Bare.noBlank_of_words`: texts of one word.
-/

namespace ScanPolicy.Text

/-! ## Trimmed texts -/

section Trim

variable {c : Char} (t : Text)

theorem trim_eq_rdropWhile : trim t = (t.dropWhile isBlank).rdropWhile isBlank := rfl

theorem trim_cons_of_isBlank (h : isBlank c = true) : trim (c :: t) = trim t := by
  rw [trim_eq_rdropWhile, trim_eq_rdropWhile, List.dropWhile_cons_of_pos h]

theorem trim_concat_of_isBlank (h : isBlank c = true) : trim (t ++ [c]) = trim t := by
  rw [trim_eq_rdropWhile, trim_eq_rdropWhile, List.dropWhile_append]
  split
  · next hall =>
    rw [List.isEmpty_iff.mp hall, List.dropWhile_cons_of_pos h]
    rfl
  · exact List.rdropWhile_concat_pos _ _ _ h

/-- A text is what is left of it when it is trimmed, with blanks before and after. -/
theorem exists_trim : ∃ before after : Text, (∀ c ∈ before, isBlank c = true) ∧
    (∀ c ∈ after, isBlank c = true) ∧ t = before ++ (trim t ++ after) := by
  refine ⟨t.takeWhile isBlank, (t.dropWhile isBlank).rtakeWhile isBlank,
    fun c hc => List.mem_takeWhile_imp hc, fun c hc => List.mem_rtakeWhile_imp hc, ?_⟩
  rw [trim_eq_rdropWhile, List.rdropWhile_append_rtakeWhile, List.takeWhile_append_dropWhile]

/-- A text that is trimmed stays as it is. -/
theorem trim_trim : trim (trim t) = trim t := by
  have hstart : (trim t).dropWhile isBlank = trim t := by
    rw [List.dropWhile_eq_self_iff]
    intro hpos
    have hbegins : trim t <+: t.dropWhile isBlank := List.rdropWhile_prefix _ _
    rw [hbegins.getElem hpos]
    exact List.dropWhile_eq_self_iff.mp (List.dropWhile_idempotent _ _) _
  rw [trim_eq_rdropWhile (trim t), hstart]
  exact List.rdropWhile_idempotent _ _

/-- Characters at the end of a text are dropped up to one that stays. -/
theorem rdropWhile_append_cons {p : Char → Bool} (hc : p c = false) (s t : Text) :
    (s ++ c :: t).rdropWhile p = s ++ c :: t.rdropWhile p := by
  induction t using List.reverseRecOn with
  | nil => exact List.rdropWhile_concat_neg _ _ _ (by rw [hc]; exact Bool.false_ne_true)
  | append_singleton t d ih =>
    rw [← List.cons_append, ← List.append_assoc]
    by_cases hd : p d = true
    · rw [List.rdropWhile_concat_pos _ _ _ hd, List.rdropWhile_concat_pos _ _ _ hd, ih]
    · rw [List.rdropWhile_concat_neg _ _ _ hd, List.rdropWhile_concat_neg _ _ _ hd, List.append_assoc,
        List.cons_append]

/-- Around a character that is not blank, a text is trimmed on either side. -/
theorem trim_append_cons (hc : isBlank c = false) (s : Text) :
    trim (s ++ c :: t) = s.dropWhile isBlank ++ c :: t.rdropWhile isBlank := by
  have hstart : (s ++ c :: t).dropWhile isBlank = s.dropWhile isBlank ++ c :: t := by
    rw [List.dropWhile_append]
    split
    · next hall =>
      rw [List.isEmpty_iff.mp hall, List.nil_append]
      exact List.dropWhile_cons_of_neg (by rw [hc]; exact Bool.false_ne_true)
    · rfl
  rw [trim_eq_rdropWhile, hstart, rdropWhile_append_cons hc]

theorem trim_append_of_allBlank {s : Text} (hs : ∀ c ∈ s, isBlank c = true) :
    trim (t ++ s) = trim t := by
  induction s using List.reverseRecOn with
  | nil => rw [List.append_nil]
  | append_singleton s c ih =>
    rw [← List.append_assoc, trim_concat_of_isBlank _ (hs c (by simp))]
    exact ih fun d hd => hs d (List.mem_append_left _ hd)

/-- Blanks at one end of a text do not matter when it is trimmed. -/
theorem trim_dropWhile : trim (t.dropWhile isBlank) = trim t := by
  rw [trim_eq_rdropWhile, trim_eq_rdropWhile, List.dropWhile_idempotent]

theorem trim_rdropWhile : trim (t.rdropWhile isBlank) = trim t := by
  have h := trim_append_of_allBlank (t.rdropWhile isBlank) (s := t.rtakeWhile isBlank)
    fun c hc => List.mem_rtakeWhile_imp hc
  rw [List.rdropWhile_append_rtakeWhile] at h
  exact h.symm

variable {t}

theorem mem_trim_iff (hc : isBlank c = false) : c ∈ trim t ↔ c ∈ t := by
  obtain ⟨before, after, hbefore, hafter, ht⟩ := exists_trim t
  constructor
  · exact mem_of_mem_trim
  · intro hmem
    rw [ht, List.mem_append, List.mem_append] at hmem
    rcases hmem with hmem | hmem | hmem
    · exact absurd (hbefore c hmem) (by rw [hc]; exact Bool.false_ne_true)
    · exact hmem
    · exact absurd (hafter c hmem) (by rw [hc]; exact Bool.false_ne_true)

theorem allBlank_append_cons (hc : isBlank c = false) (s : Text) : allBlank (s ++ c :: t) = false :=
  List.all_eq_false.mpr ⟨c, List.mem_append_right _ List.mem_cons_self,
    by rw [hc]; exact Bool.false_ne_true⟩

/-- A text that is cut in two is not blank. -/
theorem allBlank_of_cut {before after : Text} (hc : isBlank c = false)
    (h : cut c t = (before, some after)) : allBlank t = false := by
  rw [cut_some h]
  exact allBlank_append_cons hc before

theorem trim_eq_nil_iff : trim t = [] ↔ allBlank t = true := by
  unfold allBlank
  rw [List.all_eq_true]
  constructor
  · intro h
    obtain ⟨before, after, hbefore, hafter, ht⟩ := exists_trim t
    rw [h, List.nil_append] at ht
    intro c hc
    rw [ht] at hc
    exact (List.mem_append.mp hc).elim (hbefore c) (hafter c)
  · intro h
    rw [trim_eq_rdropWhile, List.dropWhile_eq_nil_iff.mpr h, List.rdropWhile_nil]

end Trim

/-! ## Texts without blanks at the ends -/

/-- A text that neither begins nor ends with a blank. -/
structure Bare (t : Text) : Prop where
  head : ∀ c ∈ t.head?, isBlank c = false
  last : ∀ c ∈ t.getLast?, isBlank c = false

theorem bare_trim (t : Text) : (trim t).Bare := by
  refine ⟨fun c hc => ?_, fun c hc => ?_⟩
  · have hbegins : trim t <+: t.dropWhile isBlank := List.rdropWhile_prefix _ _
    have hstart := List.head?_dropWhile_not isBlank t
    obtain ⟨more, hmore⟩ := hbegins
    rw [← hmore, List.head?_append_of_ne_nil _ (List.ne_nil_of_mem (List.mem_of_head? hc)),
      show (trim t).head? = some c from hc] at hstart
    exact hstart
  · have hne : trim t ≠ [] := List.ne_nil_of_mem (List.mem_of_getLast? hc)
    rw [List.getLast?_eq_some_getLast hne] at hc
    have hend := List.rdropWhile_last_not isBlank (t.dropWhile isBlank) hne
    rw [← Option.some.inj hc]
    exact Bool.eq_false_iff.mpr hend

/-- Texts that are joined at a character that is no blank. -/
theorem Bare.join {s t : Text} {c : Char} (hs : s.Bare) (ht : t.Bare) (hc : isBlank c = false) :
    Bare (s ++ c :: t) := by
  refine ⟨fun d hd => ?_, fun d hd => ?_⟩
  · cases s with
    | nil =>
      obtain rfl : c = d := Option.some.inj hd
      exact hc
    | cons e s => exact hs.head d hd
  · rw [List.getLast?_append_cons] at hd
    cases t with
    | nil =>
      obtain rfl : c = d := Option.some.inj hd
      exact hc
    | cons e t => exact ht.last d (by rwa [List.getLast?_cons_cons] at hd)

theorem bare_intercalate {ts : List Text} (h : ∀ t ∈ ts, Bare t) {sep : Char}
    (hsep : isBlank sep = false) : Bare (List.intercalate [sep] ts) := by
  induction ts with
  | nil => exact ⟨nofun, nofun⟩
  | cons t rest ih =>
    obtain ⟨ht, hrest⟩ := List.forall_mem_cons.mp h
    cases rest with
    | nil =>
      rw [intercalate_singleton]
      exact ht
    | cons u more =>
      rw [intercalate_cons_cons]
      exact ht.join (ih hrest) hsep

theorem upperChar_ne_nil (c : Char) : upperChar c ≠ [] := by
  have hspecials : upperSpecials.all (fun special => !special.2.isEmpty) = true := by decide +kernel
  unfold upperChar
  split
  · exact List.cons_ne_nil _ _
  split
  · next ns hns =>
    obtain ⟨l₁, l₂, heq, -⟩ := List.lookup_eq_some_iff.mp hns
    have hmem : (c.toNat, ns) ∈ upperSpecials := by
      rw [heq]
      exact List.mem_append_right _ List.mem_cons_self
    have hns := List.all_eq_true.mp hspecials _ hmem
    rintro hnil
    rw [List.map_eq_nil_iff.mp hnil] at hns
    cases hns
  · exact List.cons_ne_nil _ _

/-- The upper case of a character is blank only if the character is. -/
theorem isBlank_of_mem_upperChar {c d : Char} (hd : d ∈ upperChar c) (hc : isBlank c = false) :
    isBlank d = false := by
  cases hblank : isBlank d with
  | false => rfl
  | true =>
    rw [eq_of_mem_upperChar hd (isMark_of_isBlank hblank), hc] at hblank
    cases hblank

theorem Bare.upper {t : Text} (h : t.Bare) : (upper t).Bare := by
  refine ⟨fun d hd => ?_, fun d hd => ?_⟩
  · cases t with
    | nil => cases hd
    | cons c t =>
      rw [upper_cons, List.head?_append_of_ne_nil _ (upperChar_ne_nil c)] at hd
      exact isBlank_of_mem_upperChar (List.mem_of_head? hd) (h.head c rfl)
  · rcases List.eq_nil_or_concat' t with rfl | ⟨s, c, rfl⟩
    · cases hd
    · rw [upper_append, upper_cons, List.getLast?_append_of_ne_nil _ fun hnil =>
        upperChar_ne_nil c (List.append_eq_nil_iff.mp hnil).1] at hd
      have hmem := List.mem_of_getLast? hd
      rw [show Text.upper [] = [] from rfl, List.append_nil] at hmem
      exact isBlank_of_mem_upperChar hmem (h.last c List.getLast?_concat)

/-! ## Words -/

/-- A blank ends the word that is being read. -/
theorem wordsFrom_append {b : Char} (hb : isBlank b = true) (run u v : Text) :
    wordsFrom run (u ++ b :: v) = wordsFrom run u ++ words v := by
  induction u generalizing run with
  | nil =>
    rw [List.nil_append, wordsFrom.eq_2, wordsFrom.eq_1, if_pos hb]
    split <;> rfl
  | cons c u ih =>
    rw [List.cons_append, wordsFrom, wordsFrom]
    split
    · split
      · exact ih []
      · rw [ih, List.cons_append]
    · exact ih (c :: run)

theorem words_append {b : Char} (hb : isBlank b = true) (u v : Text) :
    words (u ++ b :: v) = words u ++ words v := wordsFrom_append hb [] u v

/-- The words of a text have its characters that are no blanks. -/
theorem flatten_wordsFrom (run t : Text) :
    (wordsFrom run t).flatten = run.reverse ++ t.filter fun c => !isBlank c := by
  induction t generalizing run with
  | nil =>
    rw [wordsFrom]
    cases run with
    | nil => rfl
    | cons c run => simp
  | cons c t ih =>
    rw [wordsFrom]
    cases hblank : isBlank c with
    | true =>
      rw [List.filter_cons_of_neg (by simp [hblank]), if_pos rfl]
      cases run with
      | nil => exact ih []
      | cons d run => simp [ih]
    | false =>
      rw [List.filter_cons_of_pos (by simp [hblank]), if_neg Bool.false_ne_true, ih]
      simp

theorem words_ne_nil {c : Char} {t : Text} (hmem : c ∈ t) (hc : isBlank c = false) : words t ≠ [] := by
  intro hnil
  have hflat := flatten_wordsFrom [] t
  rw [show wordsFrom [] t = [] from hnil] at hflat
  have hkept : c ∈ t.filter fun c => !isBlank c := List.mem_filter.mpr ⟨hmem, by simp [hc]⟩
  rw [show (t.filter fun c => !isBlank c) = [] from hflat.symm] at hkept
  cases hkept

/-- A text of one word has no blanks, but for those at its ends. -/
theorem Bare.noBlank_of_words {t w : Text} (h : t.Bare) (hwords : words t = [w]) :
    ∀ c ∈ t, isBlank c = false := by
  intro b hmem
  cases hb : isBlank b with
  | false => rfl
  | true =>
    -- a blank in the text has a word before it and a word after it
    obtain ⟨u, v, rfl⟩ := List.append_of_mem hmem
    have hu : words u ≠ [] := by
      cases u with
      | nil => exact absurd hb (Bool.eq_false_iff.mp (h.head b rfl))
      | cons c u => exact words_ne_nil List.mem_cons_self (h.head c rfl)
    have hv : words v ≠ [] := by
      have hlast := h.last
      rw [List.getLast?_append_cons] at hlast
      rcases List.eq_nil_or_concat' v with rfl | ⟨s, c, rfl⟩
      · exact absurd hb (Bool.eq_false_iff.mp (hlast b rfl))
      · refine words_ne_nil (c := c) (by simp) (hlast c ?_)
        rw [← List.cons_append, List.getLast?_concat]
        rfl
    rw [words_append hb] at hwords
    have hlength := congrArg List.length hwords
    rw [List.length_append, List.length_singleton] at hlength
    have hu := List.length_pos_iff.mpr hu
    have hv := List.length_pos_iff.mpr hv
    omega

end ScanPolicy.Text
