import ScanPolicy.Proofs.Host.Tokens

/-!
# Joining host lists

Two host lists that are joined by a separator are read one after the other: the atoms of the first
one, then those of the second one, or what is wrong with the first of the two that cannot be read.
How many separators and blanks stand between two tokens does not matter.

- `HostAtom.isGap`: separators and blanks.
- `HostAtom.trimmedTokens_append`: the tokens of two lists; `trimmedTokens_gap_append`,
  `trimmedTokens_append_gap` and `trimmedTokens_across` say that a gap holds no token.
- `HostAtom.parseList_join`: reading a joined list.
-/

namespace ScanPolicy

namespace HostAtom

/-- Whether a character is a separator or a blank. -/
def isGap (c : Char) : Bool := isSeparator c || Text.isBlank c

/-! ## The tokens of joined lists -/

/-- The tokens of two lists that are joined by a separator. All that follows about gaps rests on
this equation. -/
theorem trimmedTokens_append {sep : Char} (hsep : isSeparator sep = true) (s t : Text) :
    trimmedTokens (s ++ sep :: t) = trimmedTokens s ++ trimmedTokens t := by
  unfold trimmedTokens
  rw [tokens_append hsep, List.map_append, List.filter_append]

theorem trimmedTokens_cons_of_isGap {c : Char} (hc : isGap c = true) (t : Text) :
    trimmedTokens (c :: t) = trimmedTokens t := by
  unfold isGap at hc
  rcases (Bool.or_eq_true _ _).mp hc with hsep | hblank
  · exact trimmedTokens_append hsep [] t
  · exact trimmedTokens_cons_of_isBlank hblank t

theorem trimmedTokens_concat_of_isGap {c : Char} (hc : isGap c = true) (t : Text) :
    trimmedTokens (t ++ [c]) = trimmedTokens t := by
  unfold isGap at hc
  rcases (Bool.or_eq_true _ _).mp hc with hsep | hblank
  · rw [trimmedTokens_append hsep]
    exact List.append_nil _
  · exact trimmedTokens_concat_of_isBlank hblank t

variable {gap : Text}

/-- A gap before a list holds no token. -/
theorem trimmedTokens_gap_append (hgap : ∀ c ∈ gap, isGap c = true) (t : Text) :
    trimmedTokens (gap ++ t) = trimmedTokens t := by
  induction gap with
  | nil => rfl
  | cons c gap ih =>
    obtain ⟨hc, hgap⟩ := List.forall_mem_cons.mp hgap
    rw [List.cons_append, trimmedTokens_cons_of_isGap hc, ih hgap]

/-- A gap behind a list holds no token. -/
theorem trimmedTokens_append_gap (hgap : ∀ c ∈ gap, isGap c = true) (t : Text) :
    trimmedTokens (t ++ gap) = trimmedTokens t := by
  induction gap using List.reverseRecOn with
  | nil => rw [List.append_nil]
  | append_singleton gap c ih =>
    obtain ⟨hgap, hc⟩ := List.forall_mem_append.mp hgap
    rw [← List.append_assoc, trimmedTokens_concat_of_isGap (hc c List.mem_cons_self), ih hgap]

/-- A gap with a separator in it does what the separator alone does. -/
theorem trimmedTokens_across (hgap : ∀ c ∈ gap, isGap c = true) {sep : Char}
    (hsep : isSeparator sep = true) (hmem : sep ∈ gap) (s t : Text) :
    trimmedTokens (s ++ (gap ++ t)) = trimmedTokens s ++ trimmedTokens t := by
  obtain ⟨before, after, rfl⟩ := List.append_of_mem hmem
  obtain ⟨hbefore, hafter⟩ := List.forall_mem_append.mp hgap
  have hregroup : s ++ (before ++ sep :: after ++ t) = (s ++ before) ++ sep :: (after ++ t) := by
    simp only [List.append_assoc, List.cons_append]
  rw [hregroup, trimmedTokens_append hsep, trimmedTokens_append_gap hbefore,
    trimmedTokens_gap_append (List.forall_mem_cons.mp hafter).2]

/-! ## Reading joined lists -/

/-- Reading the tokens of two lists one after the other stops at the first fault. -/
theorem mapM_parse_append (us vs : List Text) :
    (us ++ vs).mapM parse = match us.mapM parse, vs.mapM parse with
      | .ok as, .ok bs => .ok (as ++ bs)
      | .error e, _ => .error e
      | .ok _, .error e => .error e := by
  rw [List.mapM_append]
  cases us.mapM parse with
  | error e => rfl
  | ok as => cases vs.mapM parse <;> rfl

/-- Two lists that are joined by a comma or a line break give the atoms of the first one and then
those of the second one, if both can be read, or else the first fault. More separators and blanks
between two lists or around a list change nothing. -/
theorem parseList_join {sep : Char} (hsep : sep = ',' ∨ sep = '\r' ∨ sep = '\n') (s t : Text) :
    (parseList (s ++ sep :: t) = match parseList s, parseList t with
      | .ok as, .ok bs => .ok (as ++ bs)
      | .error e, _ => .error e
      | .ok _, .error e => .error e) ∧
    (∀ gap : Text, sep ∈ gap → (∀ c ∈ gap, isGap c = true) →
      parseList (s ++ (gap ++ t)) = parseList (s ++ sep :: t)) ∧
    ∀ before after : Text, (∀ c ∈ before ++ after, isGap c = true) →
      parseList (before ++ (s ++ after)) = parseList s := by
  have hseparates : isSeparator sep = true := by
    rcases hsep with rfl | rfl | rfl <;> rfl
  refine ⟨?_, fun gap hmem hgap => ?_, fun before after hgap => ?_⟩
  · rw [parseList_eq_mapM, trimmedTokens_append hseparates, mapM_parse_append, ← parseList_eq_mapM,
      ← parseList_eq_mapM]
  · rw [parseList_eq_mapM, parseList_eq_mapM, trimmedTokens_append hseparates,
      trimmedTokens_across hgap hseparates hmem]
  · obtain ⟨hbefore, hafter⟩ := List.forall_mem_append.mp hgap
    rw [parseList_eq_mapM, parseList_eq_mapM, trimmedTokens_gap_append hbefore,
      trimmedTokens_append_gap hafter]

/-- Only the first one of two faults of the second list is reported, whatever stands between the lists. -/
theorem parseList_join_of_two_faults :
    parseList ("gw, 10.0.0.1".toList ++ '\n' :: "10.0.0.300,,10.0.0.0/40".toList) =
      .error ⟨.malformedAddress, "10.0.0.300".toList⟩ ∧
    parseList ("gw, 10.0.0.1".toList ++ ("\t,\r\n ".toList ++ "10.0.0.300,,10.0.0.0/40".toList)) =
      .error ⟨.malformedAddress, "10.0.0.300".toList⟩ := by
  have hfirst : parseList "gw, 10.0.0.1".toList = .ok [.hostname "gw".toList "gw".toList,
      .span .address "10.0.0.1".toList .v4 167772161 167772161] := by
    decide +kernel
  have hsecond : parseList "10.0.0.300,,10.0.0.0/40".toList =
      .error ⟨.malformedAddress, "10.0.0.300".toList⟩ := by
    decide +kernel
  have hgap : "\t,\r\n ".toList.all isGap = true := by
    decide +kernel
  obtain ⟨hjoin, hgaps, -⟩ := parseList_join (.inr (.inr rfl)) "gw, 10.0.0.1".toList
    "10.0.0.300,,10.0.0.0/40".toList
  rw [hfirst, hsecond] at hjoin
  exact ⟨hjoin, (hgaps _ (by decide) (List.all_eq_true.mp hgap)).trans hjoin⟩

end HostAtom

end ScanPolicy
