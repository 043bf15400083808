import ScanPolicy.Proofs.Text.Marks

/-!
# Texts in upper case

A text whose upper case is in ASCII is its own upper case, if it was put into upper case
before.

- `Text.upper_upper_of_ascii`: upper case a second time.
-/

namespace ScanPolicy.Text

/-! ## Upper case a second time -/

/-- If one character becomes several ASCII characters, it is a small letter. -/
theorem upperSpecials_small : upperSpecials.all (fun (n, ns) =>
    isMarkCode n || ns.any fun k => 128 ≤ (Char.ofNat k).toNat) = true := by
  decide +kernel

/-- If a run of characters moves into ASCII, they are small letters. -/
theorem upperRuns_small : upperRuns.all (fun r => markRanges.any (fun (low, high) =>
      decide (low ≤ r.first) && decide (r.last ≤ high)) ||
    (decide (128 ≤ (r.first : Int) + r.shift) &&
      (decide ((r.last : Int) + r.shift < 0xD800) || (decide (0xDFFF < (r.first : Int) + r.shift) &&
        decide ((r.last : Int) + r.shift < 0x110000))))) = true := by
  decide +kernel

theorem toNat_ofNat {n : Nat} (h : n < 0xD800 ∨ (0xDFFF < n ∧ n < 0x110000)) :
    (Char.ofNat n).toNat = n := by
  unfold Char.ofNat
  rw [dif_pos (show n.isValidChar from h)]
  rfl

theorem ofNat_moveBy_small {n : Nat} (hvalid : n < 0xD800 ∨ (0xDFFF < n ∧ n < 0x110000))
    (hn : 128 ≤ n) (h : (Char.ofNat (moveBy upperRuns n)).toNat < 128) : isMarkCode n = true := by
  unfold moveBy at h
  cases hfind : upperRuns.find? fun r => r.first ≤ n && n ≤ r.last && (n - r.first) % r.step == 0 with
  | none =>
    rw [hfind] at h
    dsimp only at h
    rw [toNat_ofNat hvalid] at h
    omega
  | some r =>
    rw [hfind] at h
    dsimp only at h
    have hr := List.all_eq_true.mp upperRuns_small r (List.mem_of_find?_eq_some hfind)
    have hin := List.find?_some hfind
    simp only [Bool.and_eq_true, decide_eq_true_eq, beq_iff_eq] at hin
    rcases Bool.or_eq_true_iff.mp hr with hmark | hmoved
    · obtain ⟨⟨low, high⟩, hmem, hrange⟩ := List.any_eq_true.mp hmark
      simp only [Bool.and_eq_true, decide_eq_true_eq] at hrange
      refine List.any_eq_true.mpr ⟨(low, high), hmem, ?_⟩
      simp only [Bool.and_eq_true, decide_eq_true_eq]
      omega
    · simp only [Bool.and_eq_true, Bool.or_eq_true, decide_eq_true_eq] at hmoved
      rw [toNat_ofNat (by omega)] at h
      omega

/-- If a character that is not in ASCII becomes ASCII characters, it is a small letter. -/
theorem isMark_of_upperChar {d : Char} (hd : 128 ≤ d.toNat)
    (h : ∀ c ∈ upperChar d, c.toNat < 128) : isMark d = true := by
  unfold upperChar at h
  rw [if_neg (Nat.not_lt.mpr hd)] at h
  split at h
  · next ns hns =>
    obtain ⟨l₁, l₂, heq, -⟩ := List.lookup_eq_some_iff.mp hns
    have hmem : (d.toNat, ns) ∈ upperSpecials := by
      rw [heq]
      exact List.mem_append_right _ List.mem_cons_self
    rcases Bool.or_eq_true_iff.mp (List.all_eq_true.mp upperSpecials_small _ hmem) with hmark | hany
    · exact hmark
    · obtain ⟨k, hk, hbeyond⟩ := List.any_eq_true.mp hany
      have hlt := h _ (List.mem_map_of_mem hk)
      rw [decide_eq_true_eq] at hbeyond
      omega
  · refine ofNat_moveBy_small d.valid hd ?_
    exact h _ List.mem_cons_self

/-- Upper case in ASCII is not changed by upper case. -/
theorem upper_upper_of_ascii {t : Text} (h : ∀ c ∈ upper (upper t), c.toNat < 128) :
    upper (upper t) = upper t := by
  refine (List.flatMap_congr fun d hd => ?_).trans (List.flatMap_singleton' (upper t))
  have hascii : ∀ c ∈ upperChar d, c.toNat < 128 := fun c hc =>
    h c (List.mem_flatMap.mpr ⟨d, hd, hc⟩)
  -- a small letter is in upper case only if its upper case is that letter
  have hown : isMark d = true → d ∈ upperChar d := by
    intro hmark
    obtain ⟨c, -, hc⟩ := List.mem_flatMap.mp hd
    rw [← eq_of_mem_upperChar hc hmark] at hc
    exact hc
  rcases Nat.lt_or_ge d.toNat 128 with hlt | hge
  · have hupper : upperChar d = [d.toUpper] := if_pos hlt
    rw [hupper] at hown ⊢
    cases hmark : isMark d with
    | true => rw [← List.mem_singleton.mp (hown hmark)]
    | false =>
      have hsame : isMark d = false → d.toUpper = d :=
        of_toNat_lt (P := fun c => isMark c = false → c.toUpper = c) (by decide) hlt
      rw [hsame hmark]
  · have hlt := hascii d (hown (isMark_of_upperChar hge hascii))
    omega

end ScanPolicy.Text
