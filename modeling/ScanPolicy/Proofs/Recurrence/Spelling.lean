import Mathlib.Data.List.Forall2
import ScanPolicy.Recurrence.RuleText
import ScanPolicy.Proofs.Outcome
import ScanPolicy.Proofs.Text.Blanks

/-!
# The two names of the weekdays

A rule text may give its weekdays under one of two names. A text of which one part is renamed from
the one name to the other is cut in the same places, whichever way it is cut, so that it is read in
the same way, or refused where the text is refused.

- `RuleText.Respells`: texts that differ in the name of a part; `Respells.split`,
  `Respells.pieces`, `Respells.words`, `Respells.cut`: how they are cut.
- `Fault.BothRefuse`: faults that differ in what is wrong with a rule.
- `RuleText.addPart_respells`, `RuleText.readRule_respells`, `RuleText.readPieces_respells`: how they
  are read, part by part, rule by rule and piece by piece.
- `RuleText.rulesOf`: the rules of several pieces, as they are sorted.
- `RuleText.read_respells`: how they are read as a whole.
-/

namespace ScanPolicy

/-- The same fault, or two faults of rules. -/
inductive Fault.BothRefuse : Fault → Fault → Prop
  | refl (e : Fault) : BothRefuse e e
  | rule (why why' : RuleFault) : BothRefuse (.rule why) (.rule why')

namespace RuleText

/-! ## Texts with a renamed part -/

/-- The name of the part that gives weekdays. -/
def weekdaysName : Text := "BYDAY".toList

/-- The other name of this part. -/
def weekdaysAlias : Text := "BYWEEKDAY".toList

/-- A text behind which a part may begin. -/
def EndsPart (before : Text) : Prop := before = [] ∨ ∃ t, before = t ++ [';']

/-- A text, and the text with the weekdays of one part under their other name, or the same text. -/
inductive Respells : Text → Text → Prop
  | refl (t : Text) : Respells t t
  | part {before : Text} (h : EndsPart before) (after : Text) :
      Respells (before ++ (weekdaysName ++ '=' :: after)) (before ++ (weekdaysAlias ++ '=' :: after))

/-- A text without a certain character, or its first one. -/
theorem first_cases (p : Char → Bool) (t : Text) : (∀ c ∈ t, p c = false) ∨
    ∃ u c v, t = u ++ c :: v ∧ p c = true ∧ ∀ d ∈ u, p d = false := by
  cases h : t.find? p with
  | none => exact .inl fun c hc => Bool.eq_false_iff.mpr (List.find?_eq_none.mp h c hc)
  | some c =>
    obtain ⟨hc, u, v, rfl, hu⟩ := List.find?_eq_some_iff_append.mp h
    exact .inr ⟨u, c, v, rfl, hc, fun d hd => by simpa using hu d hd⟩

theorem EndsPart.of_append {u v : Text} {c : Char} (h : EndsPart (u ++ c :: v)) : EndsPart v := by
  rcases h with h | ⟨t, ht⟩
  · exact absurd (List.append_eq_nil_iff.mp h).2 (List.cons_ne_nil _ _)
  · rcases List.eq_nil_or_concat' v with rfl | ⟨v, d, rfl⟩
    · exact .inl rfl
    · rw [← List.cons_append, ← List.append_assoc] at ht
      exact .inr ⟨v, by rw [List.append_inj_right' ht rfl]⟩

/-- Whether a character belongs to neither name. -/
def IsSeparator (p : Char → Bool) : Prop := ∀ c ∈ weekdaysName ++ weekdaysAlias ++ ['='], p c = false

/-- Texts that differ in the name of a part are cut at one separator into such texts again. -/
theorem Respells.split {t t' : Text} (h : Respells t t') {p : Char → Bool} (hp : IsSeparator p) :
    ((∀ c ∈ t, p c = false) ∧ ∀ c ∈ t', p c = false) ∨
      ∃ u u' c v v', t = u ++ c :: v ∧ t' = u' ++ c :: v' ∧ p c = true ∧
        (∀ d ∈ u, p d = false) ∧ (∀ d ∈ u', p d = false) ∧ Respells u u' ∧ Respells v v' := by
  cases h with
  | refl =>
    rcases first_cases p t with hnone | ⟨u, c, v, rfl, hc, hu⟩
    · exact .inl ⟨hnone, hnone⟩
    · exact .inr ⟨u, u, c, v, v, rfl, rfl, hc, hu, hu, .refl u, .refl v⟩
  | @part before hbefore after =>
    have hnamed : ∀ {s : Text}, (∀ d ∈ before, p d = false) → (∀ d ∈ s, p d = false) →
        (∀ d ∈ before ++ (weekdaysName ++ '=' :: s), p d = false) ∧
          ∀ d ∈ before ++ (weekdaysAlias ++ '=' :: s), p d = false := by
      intro s hb hs
      have hname : ∀ d ∈ weekdaysName, p d = false := fun d hd => hp d (by simp [hd])
      have halias : ∀ d ∈ weekdaysAlias, p d = false := fun d hd => hp d (by simp [hd])
      have hequals : p '=' = false := hp '=' (by simp)
      simp only [List.forall_mem_append, List.forall_mem_cons]
      exact ⟨⟨hb, hname, hequals, hs⟩, hb, halias, hequals, hs⟩
    rcases first_cases p before with hb | ⟨u, c, v, rfl, hc, hu⟩
    · rcases first_cases p after with ha | ⟨u, c, v, rfl, hc, hu⟩
      · exact .inl (hnamed hb ha)
      · -- the separator is behind the name
        obtain ⟨h, h'⟩ := hnamed hb hu
        exact .inr ⟨_, _, c, v, v, by simp only [List.append_assoc, List.cons_append],
          by simp only [List.append_assoc, List.cons_append], hc, h, h', .part hbefore u, .refl v⟩
    · -- the separator is before the name
      exact .inr ⟨u, u, c, _, _, by simp only [List.append_assoc, List.cons_append],
        by simp only [List.append_assoc, List.cons_append], hc, hu, hu, .refl u,
        .part hbefore.of_append after⟩

section Cut

variable {t t' : Text} (h : Respells t t')

include h

theorem Respells.eq_nil_iff : t = [] ↔ t' = [] := by
  cases h with
  | refl => exact Iff.rfl
  | part _ after =>
    have hne : ∀ s u : Text, s ++ (u ++ '=' :: after) ≠ [] := fun s u =>
      List.append_ne_nil_of_right_ne_nil _ (List.append_ne_nil_of_right_ne_nil _ (List.cons_ne_nil _ _))
    exact iff_of_false (hne _ _) (hne _ _)

/-- Texts that differ in the name of a part are the same, or have an equals sign. -/
theorem Respells.eq_or_mem : t' = t ∨ '=' ∈ t ∧ '=' ∈ t' := by
  cases h with
  | refl => exact .inl rfl
  | part _ after => simp

/-- Of two texts without an end of a part, the one begins with the name if they are not the same. -/
theorem Respells.cases_of_part (hend : ';' ∉ t) : t' = t ∨
    ∃ v, t = weekdaysName ++ '=' :: v ∧ t' = weekdaysAlias ++ '=' :: v := by
  cases h with
  | refl => exact .inl rfl
  | part hbefore after =>
    rcases hbefore with rfl | ⟨u, rfl⟩
    · exact .inr ⟨after, rfl, rfl⟩
    · simp at hend

/-- Cutting at the first place of one separator. -/
theorem Respells.split_at {sep : Char} (hsep : sep ∉ weekdaysName ++ weekdaysAlias ++ ['=']) :
    (sep ∉ t ∧ sep ∉ t') ∨ ∃ u u' v v', t = u ++ sep :: v ∧ t' = u' ++ sep :: v' ∧
      sep ∉ u ∧ sep ∉ u' ∧ Respells u u' ∧ Respells v v' := by
  have hseparator : IsSeparator (· == sep) := fun _ hc =>
    beq_eq_false_iff_ne.mpr fun heq => hsep (heq ▸ hc)
  have hnot : ∀ {u : Text}, (∀ d ∈ u, (d == sep) = false) → sep ∉ u := fun hu hmem =>
    absurd (hu sep hmem) (by simp)
  rcases h.split hseparator with ⟨ht, ht'⟩ | ⟨u, u', c, v, v', rfl, rfl, hc, hu, hu', huu, hvv⟩
  · exact .inl ⟨hnot ht, hnot ht'⟩
  · obtain rfl : c = sep := beq_iff_eq.mp hc
    exact .inr ⟨u, u', v, v', rfl, rfl, hnot hu, hnot hu', huu, hvv⟩

/-- The pieces at a separator differ in the name of a part, too. -/
theorem Respells.pieces (sep : Char) (hsep : sep ∉ weekdaysName ++ weekdaysAlias ++ ['=']) :
    List.Forall₂ Respells (Text.pieces sep t) (Text.pieces sep t') := by
  -- on the length: what is behind the first separator is any shorter text, not the tail of a list
  induction hn : t.length using Nat.strongRecOn generalizing t t' with
  | ind n ih =>
    rcases h.split_at hsep with ⟨ht, ht'⟩ | ⟨u, u', v, v', rfl, rfl, hu, hu', huu, hvv⟩
    · rw [Text.pieces_of_not_mem ht, Text.pieces_of_not_mem ht']
      exact .cons h .nil
    · rw [Text.pieces_append, Text.pieces_append, Text.pieces_of_not_mem hu,
        Text.pieces_of_not_mem hu']
      refine .cons huu (ih v.length ?_ hvv rfl)
      rw [← hn, List.length_append, List.length_cons]
      omega

/-- The words differ in the name of a part, too. -/
theorem Respells.words : List.Forall₂ Respells (Text.words t) (Text.words t') := by
  have hword : ∀ {u u' : Text}, Respells u u' → (∀ d ∈ u, Text.isBlank d = false) →
      (∀ d ∈ u', Text.isBlank d = false) →
        List.Forall₂ Respells (Text.words u) (Text.words u') := by
    intro u u' huu hu hu'
    by_cases hnil : u = []
    · rw [hnil, huu.eq_nil_iff.mp hnil]
      exact .nil
    · rw [Text.words_of_noBlank hu hnil, Text.words_of_noBlank hu' (mt huu.eq_nil_iff.mpr hnil)]
      exact .cons huu .nil
  induction hn : t.length using Nat.strongRecOn generalizing t t' with
  | ind n ih =>
    have hblank : IsSeparator Text.isBlank := fun c hc => by
      simpa using List.all_eq_true.mp (show ((weekdaysName ++ weekdaysAlias ++ ['=']).all fun c =>
        !Text.isBlank c) = true by decide) c hc
    rcases h.split hblank with
      ⟨ht, ht'⟩ | ⟨u, u', _, v, v', rfl, rfl, hc, hu, hu', huu, hvv⟩
    · exact hword h ht ht'
    · rw [Text.words_append hc, Text.words_append hc]
      refine List.rel_append (hword huu hu hu') (ih v.length ?_ hvv rfl)
      rw [← hn, List.length_append, List.length_cons]
      omega

/-- The two sides of a cut differ in the name of a part, too. -/
theorem Respells.cut (sep : Char) (hsep : sep ∉ weekdaysName ++ weekdaysAlias ++ ['=']) :
    Respells (Text.cut sep t).1 (Text.cut sep t').1 ∧
      Option.Rel Respells (Text.cut sep t).2 (Text.cut sep t').2 := by
  rcases h.split_at hsep with ⟨ht, ht'⟩ | ⟨u, u', v, v', rfl, rfl, hu, hu', huu, hvv⟩
  · rw [Text.cut_of_not_mem ht, Text.cut_of_not_mem ht']
    exact ⟨h, .none⟩
  · rw [Text.cut_append hu, Text.cut_append hu']
    exact ⟨huu, .some hvv⟩

end Cut

/-! ## Reading -/

/-- The two names set the same field of a draft. -/
theorem setPart?_alias (value : Text) (d : Draft) :
    setPart? (String.ofList weekdaysAlias) value d = setPart? (String.ofList weekdaysName) value d := by
  rw [show String.ofList weekdaysAlias = "BYWEEKDAY" from String.ofList_toList,
    show String.ofList weekdaysName = "BYDAY" from String.ofList_toList]
  rfl

theorem addPart_respells {t t' : Text} (h : Respells t t') (hend : ';' ∉ t) (d : Draft) :
    Corresponds Fault.BothRefuse Eq (addPart d t) (addPart d t') := by
  rcases h.cases_of_part hend with rfl | ⟨v, rfl, rfl⟩
  · exact .of_eq .refl rfl
  · -- the name is in the faults, so that only the kind of a fault is the same
    have hname : '=' ∉ weekdaysName ∧ '=' ∉ weekdaysAlias := by decide
    unfold addPart
    rw [Text.pieces_append, Text.pieces_append, Text.pieces_of_not_mem hname.1,
      Text.pieces_of_not_mem hname.2, List.singleton_append, List.singleton_append]
    cases hv : Text.pieces '=' v with
    | nil => exact absurd hv (Text.pieces_ne_nil _ _)
    | cons value more =>
      cases more with
      | nil =>
        dsimp only
        rw [setPart?_alias]
        cases setPart? (String.ofList weekdaysName) value d with
        | none => exact .error (.rule _ _)
        | some d' =>
          cases d' with
          | none => exact .error (.rule _ _)
          | some d' => exact .ok rfl
      | cons value' more => exact .of_eq .refl rfl

theorem readParts_respells {t t' : Text} (h : Respells t t') :
    Corresponds Fault.BothRefuse Eq (readParts t) (readParts t') := by
  have hpieces := h.pieces ';' (by decide)
  have hends : ∀ u ∈ Text.pieces ';' t, ';' ∉ u := fun u => Text.not_mem_of_mem_pieces
  unfold readParts
  refine Corresponds.foldlM (R := fun u u' => ';' ∉ u ∧ Respells u u') ?_
    (fun d u u' hu => addPart_respells hu.2 hu.1 d) {}
  exact (List.forall₂_and_left _ _).mpr ⟨hends, hpieces⟩

theorem readRule_respells {t t' : Text} (h : Respells t t') (anchor : Moment) :
    Corresponds Fault.BothRefuse Eq (readRule anchor t) (readRule anchor t') := by
  have hbody : ∀ {u u' : Text}, Respells u u' → Corresponds Fault.BothRefuse Eq
      (readParts u >>= fun d => d.toRule anchor) (readParts u' >>= fun d => d.toRule anchor) :=
    fun hu => (readParts_respells hu).bind fun d d' hd => .of_eq .refl (by rw [hd])
  have hpieces := h.pieces ':' (by decide)
  unfold readRule
  generalize Text.pieces ':' t = us, Text.pieces ':' t' = us' at hpieces
  cases hpieces with
  | nil => exact .error (.refl _)
  | cons hfirst hrest =>
    cases hrest with
    | nil => exact hbody hfirst
    | cons hsecond hmore =>
      cases hmore with
      | nil =>
        rcases hfirst.eq_or_mem with rfl | ⟨hmem, hmem'⟩
        · dsimp only
          split
          · exact hbody hsecond
          · exact .error (.refl _)
        · -- a name with an equals sign is not that of the property
          have hne : ∀ {u : Text}, '=' ∈ u → u ≠ "RRULE".toList := by
            rintro _ hu rfl
            exact absurd hu (by decide)
          dsimp only
          rw [if_neg (hne hmem), if_neg (hne hmem')]
          exact .error (.refl _)
      | cons _ _ => exact .error (.refl _)

/-! ## Several rules -/

/-- Pieces that stand for the same, with texts that differ in the name of a part. -/
inductive Piece.Respells : Piece → Piece → Prop
  | rule {body body' : Text} (h : RuleText.Respells body body') : Respells (.rule body) (.rule body')
  | excludedRule {body body' : Text} (h : RuleText.Respells body body') :
      Respells (.excludedRule body) (.excludedRule body')
  | dates {body body' : Text} (h : RuleText.Respells body body') :
      Respells (.dates body) (.dates body')

/-- What a text stands for behind the name of a property. -/
def behind? (name : Text) : Option (Text → Piece) :=
  [("RRULE".toList, Piece.rule), ("EXRULE".toList, .excludedRule), ("RDATE".toList, .dates)].lookup name

theorem readPiece_of_cut_none {t name : Text} (hcut : Text.cut ':' t = (name, none)) :
    readPiece t = .ok (.rule t) := by
  unfold readPiece
  rw [hcut]
  rfl

theorem behind?_cases {name : Text} {f : Text → Piece} (h : behind? name = some f) :
    name = "RRULE".toList ∧ f = .rule ∨ name = "EXRULE".toList ∧ f = .excludedRule ∨
      name = "RDATE".toList ∧ f = .dates := by
  obtain ⟨l₁, l₂, heq, -⟩ := List.lookup_eq_some_iff.mp h
  have hmem : (name, f) ∈ [("RRULE".toList, Piece.rule), ("EXRULE".toList, .excludedRule),
      ("RDATE".toList, .dates)] := heq ▸ List.mem_append_right _ List.mem_cons_self
  simpa only [List.mem_cons, List.not_mem_nil, or_false, Prod.mk.injEq] using hmem

theorem readPiece_of_behind {t name body : Text} {f : Text → Piece}
    (hcut : Text.cut ':' t = (name, some body)) (hf : behind? name = some f) :
    readPiece t = .ok (f body) := by
  unfold readPiece
  rw [hcut]
  rcases behind?_cases hf with ⟨rfl, rfl⟩ | ⟨rfl, rfl⟩ | ⟨rfl, rfl⟩ <;> rfl

/-- A piece with another name is refused. -/
theorem readPiece_refused {t name body : Text} (hcut : Text.cut ':' t = (name, some body))
    (hname : behind? name = none) : ∃ why, readPiece t = .error (.rule why) := by
  unfold readPiece
  rw [hcut]
  dsimp only
  split
  · exact ⟨_, rfl⟩
  · next property parameters hpieces =>
    have hknown : ∀ {s : String}, String.ofList property = s → parameters = [] → name = s.toList := by
      rintro s rfl rfl
      rw [String.toList_ofList]
      exact Text.eq_of_pieces_eq hpieces
    split
    · next h => cases hknown h rfl ▸ hname
    · next h => cases hknown h rfl ▸ hname
    · next h => cases hknown h rfl ▸ hname
    all_goals exact ⟨_, rfl⟩

theorem readPiece_respells {t t' : Text} (h : Respells t t') :
    Corresponds Fault.BothRefuse Piece.Respells (readPiece t) (readPiece t') := by
  obtain ⟨hname, hbody⟩ := h.cut ':' (by decide)
  cases hcut : Text.cut ':' t with
  | mk name body =>
    cases hcut' : Text.cut ':' t' with
    | mk name' body' =>
      rw [hcut, hcut'] at hname hbody
      cases hbody with
      | none =>
        rw [readPiece_of_cut_none hcut, readPiece_of_cut_none hcut']
        exact .ok (.rule h)
      | some hbody =>
        have hrefused : behind? name = none → behind? name' = none →
            Corresponds Fault.BothRefuse Piece.Respells (readPiece t) (readPiece t') := by
          intro hnone hnone'
          obtain ⟨why, hwhy⟩ := readPiece_refused hcut hnone
          obtain ⟨why', hwhy'⟩ := readPiece_refused hcut' hnone'
          rw [hwhy, hwhy']
          exact .error (.rule why why')
        rcases hname.eq_or_mem with rfl | ⟨hmem, hmem'⟩
        · cases hf : behind? name' with
          | none => exact hrefused hf hf
          | some f =>
            rw [readPiece_of_behind hcut hf, readPiece_of_behind hcut' hf]
            rcases behind?_cases hf with ⟨-, rfl⟩ | ⟨-, rfl⟩ | ⟨-, rfl⟩
            · exact .ok (.rule hbody)
            · exact .ok (.excludedRule hbody)
            · exact .ok (.dates hbody)
        · -- no known name has an equals sign
          have hnone : ∀ {name : Text}, '=' ∈ name → behind? name = none := by
            intro name hmem
            cases hf : behind? name with
            | none => rfl
            | some f =>
              rcases behind?_cases hf with ⟨rfl, -⟩ | ⟨rfl, -⟩ | ⟨rfl, -⟩ <;>
                exact absurd hmem (by decide)
          exact hrefused (hnone hmem) (hnone hmem')

/-- The text of a piece that is a rule. -/
def Piece.rule? : Piece → Option Text
  | .rule body => some body
  | _ => none

/-- The text of a piece that is an excluded rule. -/
def Piece.excludedRule? : Piece → Option Text
  | .excludedRule body => some body
  | _ => none

/-- The text of a piece that is a list of dates. -/
def Piece.dates? : Piece → Option Text
  | .dates body => some body
  | _ => none

/-- Several rules, with the excluded ones, from texts of their own. -/
def severalOf (anchor : Moment) (rules excluded dates : List Text) : Except Fault Rules := do
  let rules ← rules.mapM (readRule anchor)
  match dates with
  | body :: _ => throw (.rule (.unknownDateForm body))
  | [] => return .several rules (← excluded.mapM (readRule anchor))

/-- The rules that texts give, or the only one of them. -/
def rulesOf (anchor : Moment) (rules excluded dates : List Text) : Except Fault Rules :=
  match rules, excluded, dates with
  | [body], [], [] => return .single (← readRule anchor body)
  | _, _, _ => severalOf anchor rules excluded dates

theorem readPieces_eq (anchor : Moment) (pieces : List Text) :
    readPieces anchor pieces = pieces.mapM readPiece >>= fun ps =>
      rulesOf anchor (ps.filterMap Piece.rule?) (ps.filterMap Piece.excludedRule?)
        (ps.filterMap Piece.dates?) := rfl

section Several

variable {rules rules' excluded excluded' dates dates' : List Text}
  (hrules : List.Forall₂ Respells rules rules') (hexcluded : List.Forall₂ Respells excluded excluded')
  (hdates : List.Forall₂ Respells dates dates') (anchor : Moment)

include hrules hexcluded hdates

theorem severalOf_respells : Corresponds Fault.BothRefuse Eq (severalOf anchor rules excluded dates)
    (severalOf anchor rules' excluded' dates') := by
  have hread : ∀ {us us' : List Text}, List.Forall₂ Respells us us' →
      Corresponds Fault.BothRefuse Eq (us.mapM (readRule anchor)) (us'.mapM (readRule anchor)) := by
    intro us us' hus
    have hmapM := Corresponds.mapM hus fun u u' hu => readRule_respells hu anchor
    rw [List.forall₂_eq_eq_eq] at hmapM
    exact hmapM
  unfold severalOf
  refine (hread hrules).bind fun rs rs' hrs => ?_
  cases hdates with
  | nil => exact (hread hexcluded).bind fun exs exs' hexs => .ok (by rw [hrs, hexs])
  | cons _ _ => exact .error (.rule _ _)

theorem rulesOf_respells : Corresponds Fault.BothRefuse Eq (rulesOf anchor rules excluded dates)
    (rulesOf anchor rules' excluded' dates') := by
  have hseveral := severalOf_respells hrules hexcluded hdates anchor
  cases hrules with
  | nil => exact hseveral
  | cons hfirst hmore =>
    cases hmore with
    | cons _ _ => exact hseveral
    | nil =>
      cases hexcluded with
      | cons _ _ => exact hseveral
      | nil =>
        cases hdates with
        | cons _ _ => exact hseveral
        | nil => exact (readRule_respells hfirst anchor).bind fun r r' hr => .ok (by rw [hr])

end Several

theorem readPieces_respells {ts ts' : List Text} (h : List.Forall₂ Respells ts ts')
    (anchor : Moment) :
    Corresponds Fault.BothRefuse Eq (readPieces anchor ts) (readPieces anchor ts') := by
  rw [readPieces_eq, readPieces_eq]
  refine (Corresponds.mapM h fun t t' ht => readPiece_respells ht).bind fun ps ps' hps => ?_
  refine rulesOf_respells ?_ ?_ ?_ anchor <;> refine List.rel_filterMap (fun p p' hp => ?_) hps <;>
    cases hp <;> first | exact .some ‹_› | exact .none

/-- Whether a text is read as one rule, by its first colon. -/
theorem isOneRule_iff_cut (t : Text) : (!t.contains ':' || Text.startsWith "RRULE:".toList t) = true ↔
    (Text.cut ':' t).2 = none ∨ (Text.cut ':' t).1 = "RRULE".toList := by
  cases hcut : Text.cut ':' t with
  | mk name body =>
    cases body with
    | none =>
      obtain ⟨-, hnot⟩ := Text.cut_none hcut
      rw [List.contains_eq_mem, decide_eq_false hnot]
      simp
    | some body =>
      have ht := Text.cut_some hcut
      have hmem : ':' ∈ t := ht ▸ List.mem_append_right _ List.mem_cons_self
      rw [List.contains_eq_mem, decide_eq_true hmem, Bool.not_true, Bool.false_or]
      unfold Text.startsWith
      rw [List.isPrefixOf_iff_prefix]
      refine ⟨?_, ?_⟩
      · rintro ⟨more, hmore⟩
        have hcut' : Text.cut ':' ("RRULE".toList ++ ':' :: more) = ("RRULE".toList, some more) :=
          Text.cut_append (by decide) more
        rw [← hmore] at hcut
        exact .inr (Prod.mk.inj (hcut.symm.trans hcut')).1
      · rintro (h | rfl)
        · cases h
        · exact ⟨body, ht.symm⟩

/-- A text with a renamed part gives the same rules, or is refused where the text is refused. -/
theorem read_respells {text text' : Text} (h : Respells (Text.upper text) (Text.upper text'))
    (anchor : Moment) : Corresponds Fault.BothRefuse Eq (read anchor text) (read anchor text') := by
  have hone : (!(Text.upper text).contains ':' ||
        Text.startsWith "RRULE:".toList (Text.upper text)) =
      (!(Text.upper text').contains ':' || Text.startsWith "RRULE:".toList (Text.upper text')) := by
    obtain ⟨hname, hbody⟩ := h.cut ':' (by decide)
    have hnone : ∀ {a b : Option Text}, Option.Rel Respells a b → (a = none ↔ b = none) := by
      intro a b hab
      cases hab <;> simp
    have hmark : (Text.cut ':' (Text.upper text)).1 = "RRULE".toList ↔
        (Text.cut ':' (Text.upper text')).1 = "RRULE".toList := by
      rcases hname.eq_or_mem with heq | ⟨hmem, hmem'⟩
      · rw [heq]
      · constructor <;> intro heq
        · exact absurd (heq ▸ hmem) (by decide)
        · exact absurd (heq ▸ hmem') (by decide)
    rw [Bool.eq_iff_iff, isOneRule_iff_cut, isOneRule_iff_cut, hnone hbody, hmark]
  have hwords := h.words
  unfold read
  dsimp only
  rw [hone]
  generalize Text.words (Text.upper text) = ts, Text.words (Text.upper text') = ts' at hwords ⊢
  cases hwords with
  | nil => exact .error (.refl _)
  | cons hfirst hmore =>
    cases hmore with
    | cons hsecond hrest => exact readPieces_respells (.cons hfirst (.cons hsecond hrest)) anchor
    | nil =>
      dsimp only
      split
      · exact (readRule_respells hfirst anchor).bind fun r r' hr => .ok (by rw [hr])
      · exact readPieces_respells (.cons hfirst .nil) anchor

end RuleText

end ScanPolicy
