import ScanPolicy.Proofs.Host.Reading
import ScanPolicy.Proofs.Outcome
import ScanPolicy.Proofs.Text.Blanks

/-!
# The tokens of a host list

A host list is cut at its separators before any token is read. Blank tokens and the blanks around
a token mean nothing, so a list is read from its tokens without their blanks.

- `HostAtom.tokens_append`: the tokens of two lists that are joined by a separator.
- `HostAtom.parseList_append`: two lists that can be read and are joined by a separator.
- `HostAtom.parseList_trim`: blanks around a list.
- `HostAtom.parseList_token`, `HostAtom.parseList_of_parse`: a text without separators is one token.
- `HostAtom.not_isSeparator_of_parseList`: the text of an atom of a list holds no separator.
-/

namespace ScanPolicy

namespace HostAtom

/-! ## Cutting at separators -/

theorem tokens_ne_nil (t : Text) : tokens t ≠ [] := by
  cases t with
  | nil => exact List.cons_ne_nil _ _
  | cons c rest =>
    unfold tokens
    split
    · exact List.cons_ne_nil _ _
    · split <;> exact List.cons_ne_nil _ _

/-- Of two texts that are joined, the last token of the first one and the first token of the second
one become one token. -/
theorem tokens_join (s : Text) : ∃ front last, tokens s = front ++ [last] ∧
    ∀ {t u : Text} {us : List Text}, tokens t = u :: us →
      tokens (s ++ t) = front ++ (last ++ u) :: us := by
  induction s with
  | nil => exact ⟨[], [], rfl, fun ht => ht⟩
  | cons c s ih =>
    obtain ⟨front, last, hs, hjoin⟩ := ih
    by_cases hc : isSeparator c = true
    · refine ⟨[] :: front, last, ?_, fun ht => ?_⟩
      · rw [tokens, if_pos hc, hs]
        rfl
      · rw [List.cons_append, tokens, if_pos hc, hjoin ht]
        rfl
    · cases front with
      | nil =>
        refine ⟨[], c :: last, ?_, fun ht => ?_⟩
        · rw [tokens, if_neg hc, hs]
          rfl
        · rw [List.cons_append, tokens, if_neg hc, hjoin ht]
          rfl
      | cons v vs =>
        refine ⟨(c :: v) :: vs, last, ?_, fun ht => ?_⟩
        · rw [tokens, if_neg hc, hs]
          rfl
        · rw [List.cons_append, tokens, if_neg hc, hjoin ht]
          rfl

/-- The tokens of two texts that are joined by a separator. -/
theorem tokens_append {sep : Char} (hsep : isSeparator sep = true) (s t : Text) :
    tokens (s ++ sep :: t) = tokens s ++ tokens t := by
  obtain ⟨front, last, hs, hjoin⟩ := tokens_join s
  have ht : tokens (sep :: t) = [] :: tokens t := by rw [tokens, if_pos hsep]
  rw [hjoin ht, hs, List.append_nil, List.append_assoc]
  rfl

theorem tokens_of_noSeparator {t : Text} (h : ∀ c ∈ t, isSeparator c = false) : tokens t = [t] := by
  induction t with
  | nil => rfl
  | cons c t ih =>
    obtain ⟨hc, ht⟩ := List.forall_mem_cons.mp h
    rw [tokens, if_neg (by simp [hc]), ih ht]

/-- No token holds a separator. -/
theorem not_isSeparator_of_mem_tokens {c : Char} {t u : Text} (hu : u ∈ tokens t) (hc : c ∈ u) :
    isSeparator c = false := by
  induction t generalizing u with
  | nil =>
    rw [List.mem_singleton.mp hu] at hc
    cases hc
  | cons d t ih =>
    unfold tokens at hu
    split at hu
    · rcases List.mem_cons.mp hu with rfl | hu
      · cases hc
      · exact ih hu hc
    · next hd =>
      cases ht : tokens t with
      | nil => exact absurd ht (tokens_ne_nil t)
      | cons v vs =>
        rw [ht] at hu ih
        rcases List.mem_cons.mp hu with rfl | hu
        · rcases List.mem_cons.mp hc with rfl | hc
          · simpa using hd
          · exact ih List.mem_cons_self hc
        · exact ih (List.mem_cons_of_mem _ hu) hc

/-! ## Reading tokens -/

/-- Tokens with the same text between their blanks are read in the same way. -/
theorem parse_congr {s t : Text} (htrim : Text.trim s = Text.trim t)
    (hs : Text.allBlank s = false) : parse s = parse t := by
  have hne : (Text.trim t).isEmpty = false := by
    rw [← htrim, List.isEmpty_eq_false_iff, Ne, Text.trim_eq_nil_iff, hs]
    exact Bool.false_ne_true
  unfold parse
  simp only [htrim, hne, Bool.false_eq_true, if_false]

/-- The text of an atom is its token without the blanks around it. -/
theorem text_of_parse {token : Text} {a : HostAtom} (h : parse token = .ok a) :
    a.text = Text.trim token := by
  rcases parse_spec h with hblock | ⟨start, right, -, hrange⟩ | ⟨x, -, -, -, rfl⟩ | ⟨-, rfl⟩
  · obtain ⟨x, p, -, -, rfl⟩ := parseBlock_spec hblock
    rfl
  · obtain ⟨kind, last, -, -, rfl⟩ := parseRange_spec hrange
    rfl
  · rfl
  · rfl

/-- A fault shows the token, with the blanks around it at most taken away. -/
theorem trim_token_of_parse_error {token : Text} {e : HostError} (h : parse token = .error e) :
    Text.trim e.token = Text.trim token := by
  unfold parse at h
  dsimp only at h
  split at h
  · cases h
    rfl
  split at h
  · rw [token_of_parseBlock_error h, Text.trim_trim]
  split at h
  · rw [token_of_parseRange_error h, Text.trim_trim]
  split at h
  · cases h
  split at h
  · cases h
    exact Text.trim_trim token
  split at h <;> cases h
  exact Text.trim_trim token

/-- A blank token is no atom. -/
theorem not_allBlank_of_parse {token : Text} {a : HostAtom} (h : parse token = .ok a) :
    Text.allBlank token = false := by
  cases hblank : Text.allBlank token with
  | false => rfl
  | true =>
    unfold parse at h
    rw [Text.trim_eq_nil_iff.mpr hblank] at h
    cases h

/-! ## Reading a list -/

/-- The tokens of a list without the blanks around them, blank ones left out. -/
def trimmedTokens (t : Text) : List Text := ((tokens t).map Text.trim).filter fun u => !u.isEmpty

/-- A list is read from its tokens without their blanks. -/
theorem parseList_eq_mapM (t : Text) : parseList t = (trimmedTokens t).mapM parse := by
  have hblank : ((fun u : Text => !u.isEmpty) ∘ Text.trim) = fun u => !Text.allBlank u := by
    funext u
    rw [Function.comp_apply, Bool.eq_iff_iff, Bool.not_eq_true', Bool.not_eq_true',
      List.isEmpty_eq_false_iff, Ne, Text.trim_eq_nil_iff, Bool.not_eq_true]
  unfold parseList trimmedTokens
  rw [List.filter_map, List.mapM_map, hblank]
  refine mapM_congr fun u hu => (parse_congr ?_ ?_)
  · exact (Text.trim_trim u).symm
  · simpa using (List.mem_filter.mp hu).2

theorem trimmedTokens_cons_of_isBlank {c : Char} (hc : Text.isBlank c = true) (t : Text) :
    trimmedTokens (c :: t) = trimmedTokens t := by
  unfold trimmedTokens
  rw [tokens]
  split
  · rfl
  · cases ht : tokens t with
    | nil => exact absurd ht (tokens_ne_nil t)
    | cons u us => rw [List.map_cons, List.map_cons, Text.trim_cons_of_isBlank u hc]

theorem trimmedTokens_concat_of_isBlank {c : Char} (hc : Text.isBlank c = true) (t : Text) :
    trimmedTokens (t ++ [c]) = trimmedTokens t := by
  obtain ⟨front, last, ht, hjoin⟩ := tokens_join t
  unfold trimmedTokens
  by_cases hsep : isSeparator c = true
  · rw [tokens_append hsep, List.map_append, List.filter_append]
    exact List.append_nil _
  · have hone : tokens [c] = [[c]] := by
      rw [tokens, if_neg hsep]
      rfl
    rw [hjoin hone, ht, List.map_append, List.map_append, List.map_singleton, List.map_singleton,
      Text.trim_concat_of_isBlank last hc]

theorem trimmedTokens_between {before after : Text} (hbefore : ∀ c ∈ before, Text.isBlank c = true)
    (hafter : ∀ c ∈ after, Text.isBlank c = true) (t : Text) :
    trimmedTokens (before ++ (t ++ after)) = trimmedTokens t := by
  induction before with
  | cons c before ih =>
    rw [List.cons_append, trimmedTokens_cons_of_isBlank (hbefore c List.mem_cons_self)]
    exact ih fun x hx => hbefore x (List.mem_cons_of_mem _ hx)
  | nil =>
    induction after using List.reverseRecOn with
    | nil => rw [List.append_nil, List.nil_append]
    | append_singleton after c ih =>
      rw [List.nil_append, ← List.append_assoc,
        trimmedTokens_concat_of_isBlank (hafter c (by simp))]
      exact ih fun x hx => hafter x (List.mem_append_left _ hx)

/-- Blanks around a list change nothing. -/
theorem parseList_trim (t : Text) : parseList (Text.trim t) = parseList t := by
  obtain ⟨before, after, hbefore, hafter, ht⟩ := Text.exists_trim t
  have h := trimmedTokens_between hbefore hafter (Text.trim t)
  rw [← ht] at h
  rw [parseList_eq_mapM, parseList_eq_mapM t, h]

/-- Two lists that are joined by a separator give the atoms of both. -/
theorem parseList_append {sep : Char} (hsep : isSeparator sep = true) {s t : Text}
    {as bs : List HostAtom} (hs : parseList s = .ok as) (ht : parseList t = .ok bs) :
    parseList (s ++ sep :: t) = .ok (as ++ bs) := by
  unfold parseList at hs ht ⊢
  rw [tokens_append hsep, List.filter_append, List.mapM_append, hs, ht]
  rfl

/-- The token of a text without separators is the text. -/
theorem parseList_token {t : Text} (h : ∀ c ∈ t, isSeparator c = false) {a : HostAtom}
    (ha : parse t = .ok a) : parseList t = .ok [a] := by
  unfold parseList
  rw [tokens_of_noSeparator h, List.filter_cons_of_pos (by simp [not_allBlank_of_parse ha])]
  rw [List.filter_nil, List.mapM_cons, ha]
  rfl

/-- A token with no separator between its blanks is a list of one atom. -/
theorem parseList_of_parse {t : Text} {a : HostAtom} (ha : parse t = .ok a)
    (h : ∀ c ∈ Text.trim t, isSeparator c = false) : parseList t = .ok [a] := by
  have htrim : parse (Text.trim t) = .ok a := by
    rw [← ha]
    exact (parse_congr (Text.trim_trim t).symm (not_allBlank_of_parse ha)).symm
  rw [← parseList_trim]
  exact parseList_token h htrim

/-- The text of an atom of a list holds no separator. -/
theorem not_isSeparator_of_parseList {t : Text} {as : List HostAtom} (h : parseList t = .ok as)
    {a : HostAtom} (ha : a ∈ as) {c : Char} (hc : c ∈ a.text) : isSeparator c = false := by
  refine forall_of_mapM_ok (P := fun a : HostAtom => ∀ c ∈ a.text, isSeparator c = false) h
    (fun u hu b hb c hc => ?_) a ha c hc
  rw [text_of_parse hb] at hc
  exact not_isSeparator_of_mem_tokens (List.mem_filter.mp hu).1 (Text.mem_of_mem_trim hc)

end HostAtom

end ScanPolicy
