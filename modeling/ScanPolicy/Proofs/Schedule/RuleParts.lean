import ScanPolicy.Schedule.Next
import ScanPolicy.Proofs.Recurrence.Drafts
import ScanPolicy.Proofs.Schedule.Parsed
import ScanPolicy.Proofs.Text.Blanks
import ScanPolicy.Proofs.Text.Upper

/-!
# The parts of a rule text

The text of a rule is cut into its parts, which are put together again without the last
moment and in upper case. If what is read then is one word without a colon, then it gives
one rule, which is completed from these parts.

- `RuleText.IsOneRule`: the texts that give one rule, not several.
- `Component.IsCut`: how a name and a value are cut out of a text.
- `Component.IsOneWord`: parts that are one word without a colon.
- `Component.read_eq_of_isOneWord`, `Component.read_of_isOneWord`: how such parts are read, and
  the rule that they give.
- `Component.isOneWord_of_isSpecified`: parts with specified names.
-/

namespace ScanPolicy

namespace RuleText

/-! ## Texts that give one rule -/

/-- The name of the property of rules, as it may stand before the parts. -/
def propertyMark : Text := "RRULE:".toList

/-- A text in upper case that is one word and has no colon, or begins with the name of the property. -/
structure IsOneRule (t : Text) : Prop where
  noBlank : ∀ c ∈ t, Text.isBlank c = false
  colon : ':' ∉ t ∨ Text.startsWith propertyMark t = true

/-- How a text is read that gives one rule. -/
theorem read_of_isOneRule {text : Text} (h : IsOneRule (Text.upper text))
    (hne : Text.upper text ≠ []) (anchor : Moment) :
    read anchor text = Rules.single <$> readRule anchor (Text.upper text) := by
  unfold read
  dsimp only
  rw [Text.words_of_noBlank h.noBlank hne]
  dsimp only
  rw [if_pos]
  · rfl
  · rcases h.colon with hcolon | hmark
    · rw [List.contains_eq_mem, decide_eq_false hcolon]
      rfl
    · exact Bool.or_eq_true_iff.mpr (.inr hmark)

end RuleText

namespace Component

/-! ## The parts of a text -/

theorem keys_setPart (key value : Text) (acc : List (Text × Text)) :
    (setPart key value acc).map Prod.fst =
      if key ∈ acc.map Prod.fst then acc.map Prod.fst else acc.map Prod.fst ++ [key] := by
  induction acc with
  | nil => rfl
  | cons p rest ih =>
    obtain ⟨k, v⟩ := p
    unfold setPart
    by_cases hk : k = key
    · rw [if_pos hk, List.map_cons, List.map_cons, if_pos (List.mem_cons.mpr (.inl hk.symm))]
    · rw [if_neg hk, List.map_cons, ih, List.map_cons]
      by_cases hmem : key ∈ rest.map Prod.fst
      · rw [if_pos hmem, if_pos (List.mem_cons_of_mem _ hmem)]
      · rw [if_neg hmem, if_neg (List.not_mem_cons_of_ne_of_not_mem (Ne.symm hk) hmem)]
        rfl

theorem mem_setPart {key value : Text} {acc : List (Text × Text)} {p : Text × Text}
    (h : p ∈ setPart key value acc) : p = (key, value) ∨ p ∈ acc := by
  induction acc with
  | nil => exact .inl (List.mem_singleton.mp h)
  | cons q rest ih =>
    unfold setPart at h
    split at h
    · next hk =>
      rcases List.mem_cons.mp h with rfl | h
      · exact .inl (by rw [← hk])
      · exact .inr (List.mem_cons_of_mem _ h)
    · rcases List.mem_cons.mp h with rfl | h
      · exact .inr List.mem_cons_self
      · exact (ih h).imp_right (List.mem_cons_of_mem _)

/-- A part with a new name comes last. -/
theorem setPart_of_not_mem {key : Text} (value : Text) {acc : List (Text × Text)}
    (h : key ∉ acc.map Prod.fst) : setPart key value acc = acc ++ [(key, value)] := by
  induction acc with
  | nil => rfl
  | cons p rest ih =>
    obtain ⟨k, v⟩ := p
    obtain ⟨hk, hrest⟩ := List.ne_and_not_mem_of_not_mem_cons h
    unfold setPart
    rw [if_neg (Ne.symm hk), ih hrest, List.cons_append]

theorem partsFrom_append (acc : List (Text × Text)) (raws more : List Text) :
    partsFrom acc (raws ++ more) = partsFrom acc raws >>= fun all => partsFrom all more := by
  induction raws generalizing acc with
  | nil => rfl
  | cons raw rest ih =>
    rw [List.cons_append, partsFrom, partsFrom]
    split
    · exact ih acc
    · split
      · rfl
      · exact ih _

/-- A text with one more part, with a new name, has it in the last place. -/
theorem parts_append {value part key v : Text} {all : List (Text × Text)}
    (hall : parts value = .ok all) (hsep : ';' ∉ part) (hcut : Text.cut '=' part = (key, some v))
    (hnot : Text.upper (Text.trim key) ∉ all.map Prod.fst) :
    parts (value ++ ';' :: part) = .ok (all ++ [(Text.upper (Text.trim key), Text.trim v)]) := by
  have hblank : Text.allBlank part = false := Text.allBlank_of_cut (by decide) hcut
  unfold parts
  rw [Text.pieces_append, Text.pieces_of_not_mem hsep, partsFrom_append,
    show partsFrom [] (Text.pieces ';' value) = .ok all from hall]
  show partsFrom all [part] = _
  unfold partsFrom
  rw [hblank, if_neg Bool.false_ne_true, hcut]
  dsimp only
  rw [setPart_of_not_mem _ hnot]
  rfl

/-- No name comes twice among the parts, and each part is cut out of a piece of the text. -/
theorem partsFrom_spec {P : Text × Text → Prop} {acc all : List (Text × Text)} {raws : List Text}
    (hnodup : (acc.map Prod.fst).Nodup) (hacc : ∀ p ∈ acc, P p)
    (hraws : ∀ raw ∈ raws, ∀ key value, Text.cut '=' raw = (key, some value) →
      P (Text.upper (Text.trim key), Text.trim value)) (h : partsFrom acc raws = .ok all) :
    (all.map Prod.fst).Nodup ∧ ∀ p ∈ all, P p := by
  induction raws generalizing acc with
  | nil =>
    cases h
    exact ⟨hnodup, hacc⟩
  | cons raw rest ih =>
    have hrest := fun r hr => hraws r (List.mem_cons_of_mem raw hr)
    unfold partsFrom at h
    split at h
    · exact ih hnodup hacc hrest h
    split at h
    · cases h
    · next key value hcut =>
      refine ih ?_ (fun p hp => ?_) hrest h
      · rw [keys_setPart]
        split
        · exact hnodup
        · next hnot =>
          refine List.nodup_append.mpr ⟨hnodup, List.pairwise_singleton _ _, fun a ha b hb hab => hnot ?_⟩
          rw [← List.mem_singleton.mp hb, ← hab]
          exact ha
      · rcases mem_setPart hp with rfl | hp
        · exact hraws raw List.mem_cons_self key value hcut
        · exact hacc p hp

/-- How a name and a value are cut out of a text. -/
structure IsCut (text : Text) (p : Text × Text) : Prop where
  name_eq : ∃ t, p.1 = Text.upper t
  name : ';' ∉ p.1 ∧ '=' ∉ p.1
  value : ';' ∉ p.2
  colon : ':' ∉ text → ':' ∉ p.1 ∧ ':' ∉ p.2

theorem isCut_of_cut {text raw key value : Text} (hraw : raw ∈ Text.pieces ';' text)
    (hcut : Text.cut '=' raw = (key, some value)) :
    IsCut text (Text.upper (Text.trim key), Text.trim value) := by
  have heq := Text.cut_some hcut
  have hname : ∀ {c : Char}, Text.isMark c = true → c ∈ Text.upper (Text.trim key) → c ∈ raw := by
    intro c hc hmem
    rw [heq]
    exact List.mem_append_left _ (Text.mem_of_mem_trim (Text.mem_upper_of_isMark hmem hc))
  have hvalue : ∀ {c : Char}, c ∈ Text.trim value → c ∈ raw := by
    intro c hmem
    rw [heq]
    exact List.mem_append_right _ (List.mem_cons_of_mem _ (Text.mem_of_mem_trim hmem))
  have hsep := Text.not_mem_of_mem_pieces hraw
  refine ⟨⟨_, rfl⟩, ⟨fun h => hsep (hname (by decide) h), fun h => ?_⟩, fun h => hsep (hvalue h),
    fun hcolon => ?_⟩
  · exact Text.not_mem_of_cut hcut (Text.mem_of_mem_trim (Text.mem_upper_of_isMark h (by decide)))
  · constructor
    · exact fun h => hcolon (Text.mem_of_mem_pieces hraw (hname (by decide) h))
    · exact fun h => hcolon (Text.mem_of_mem_pieces hraw (hvalue h))

theorem parts_spec {value : Text} {all : List (Text × Text)} (h : parts value = .ok all) :
    (all.map Prod.fst).Nodup ∧ ∀ p ∈ all, IsCut value p :=
  @partsFrom_spec (IsCut value) [] all _ List.nodup_nil (fun _ hp => absurd hp List.not_mem_nil)
    (fun _ hraw _ _ => isCut_of_cut hraw) h

theorem mem_of_part? {all : List (Text × Text)} {name : String} {v : Text}
    (h : part? all name = some v) : (name.toList, v) ∈ all := by
  obtain ⟨l₁, l₂, rfl, -⟩ := List.lookup_eq_some_iff.mp h
  exact List.mem_append_right _ List.mem_cons_self

theorem part?_of_mem {all : List (Text × Text)} (hnodup : (all.map Prod.fst).Nodup) {name : String}
    {v : Text} (h : (name.toList, v) ∈ all) : part? all name = some v := by
  unfold part?
  induction all with
  | nil => cases h
  | cons p rest ih =>
    obtain ⟨hp, hrest⟩ := List.pairwise_cons.mp hnodup
    rcases List.mem_cons.mp h with rfl | h
    · exact List.lookup_cons_self
    · have hne : (name.toList == p.1) = false :=
        beq_eq_false_iff_ne.mpr (hp _ (List.mem_map_of_mem h)).symm
      rw [List.lookup_cons, hne]
      exact ih hrest h

theorem not_mem_of_part? {all : List (Text × Text)} {name : String} (h : part? all name = none) :
    name.toList ∉ all.map Prod.fst := by
  rintro hmem
  obtain ⟨p, hp, heq⟩ := List.mem_map.mp hmem
  have hne := List.lookup_eq_none_iff.mp h p hp
  rw [heq, bne_self_eq_false] at hne
  cases hne

/-- One more part does not give the value of another name. -/
theorem part?_append_of_ne (all : List (Text × Text)) {key : Text} (v : Text) {name : String}
    (hname : name.toList ≠ key) : part? (all ++ [(key, v)]) name = part? all name := by
  have hnone : List.lookup name.toList [(key, v)] = none :=
    List.lookup_eq_none_iff.mpr fun p hp => by
      rw [List.mem_singleton.mp hp]
      exact bne_iff_ne.mpr hname
  unfold part?
  rw [List.lookup_append, hnone, Option.or_none]

/-! ## Parts in upper case -/

/-- Parts in upper case. -/
def raised (ps : List (Text × Text)) : List (Text × Text) :=
  ps.map fun (k, v) => (Text.upper k, Text.upper v)

theorem mem_joinParts {ps : List (Text × Text)} {c : Char} (h : c ∈ joinParts ps) :
    c = ';' ∨ c = '=' ∨ ∃ p ∈ ps, c ∈ p.1 ∨ c ∈ p.2 := by
  rcases Text.mem_intercalate h with h | ⟨t, ht, h⟩
  · exact .inl h
  · obtain ⟨p, hp, rfl⟩ := List.mem_map.mp ht
    rcases List.mem_append.mp h with h | h
    · exact .inr (.inr ⟨p, hp, .inl h⟩)
    rcases List.mem_cons.mp h with h | h
    · exact .inr (.inl h)
    · exact .inr (.inr ⟨p, hp, .inr h⟩)

/-- The text of parts begins with the name of the first one. -/
theorem joinParts_cons (v : Text) (rest : List (Text × Text)) :
    ∃ more, ∀ k, joinParts ((k, v) :: rest) = k ++ '=' :: more := by
  cases rest with
  | nil => exact ⟨v, fun k => Text.intercalate_singleton _ _⟩
  | cons q rest =>
    refine ⟨v ++ ';' :: joinParts (q :: rest), fun k => ?_⟩
    show (k ++ '=' :: v) ++ ';' :: joinParts (q :: rest) = _
    rw [List.append_assoc, List.cons_append]

theorem joinParts_ne_nil {qs : List (Text × Text)} (hne : qs ≠ []) : joinParts qs ≠ [] := by
  obtain ⟨⟨k, v⟩, rest, rfl⟩ := List.exists_cons_of_ne_nil hne
  obtain ⟨more, hmore⟩ := joinParts_cons v rest
  rw [hmore]
  exact List.append_ne_nil_of_right_ne_nil _ (List.cons_ne_nil _ _)

/-- A text of parts is cut into them again. -/
theorem pieces_joinParts {qs : List (Text × Text)} (hne : qs ≠ [])
    (h : ∀ q ∈ qs, ';' ∉ q.1 ∧ ';' ∉ q.2) :
    Text.pieces ';' (joinParts qs) = qs.map fun (k, v) => k ++ '=' :: v := by
  refine Text.pieces_intercalate (fun hnil => hne (List.map_eq_nil_iff.mp hnil)) fun t ht => ?_
  obtain ⟨q, hq, rfl⟩ := List.mem_map.mp ht
  obtain ⟨hname, hvalue⟩ := h q hq
  simp only [List.mem_append, List.mem_cons, hname, hvalue, or_false, false_or]
  decide

theorem upper_joinParts (ps : List (Text × Text)) :
    Text.upper (joinParts ps) = joinParts (raised ps) := by
  unfold joinParts raised
  rw [Text.upper_intercalate (by decide), List.map_map, List.map_map]
  congr 1
  refine List.map_congr_left fun p _ => ?_
  show Text.upper (p.1 ++ '=' :: p.2) = Text.upper p.1 ++ '=' :: Text.upper p.2
  rw [Text.upper_append, Text.upper_cons]
  rfl

section Cut

variable {text : Text} {ps : List (Text × Text)}

theorem pieces_joinParts_raised (hne : ps ≠ []) (hcut : ∀ p ∈ ps, IsCut text p) :
    Text.pieces ';' (joinParts (raised ps)) = (raised ps).map fun (k, v) => k ++ '=' :: v := by
  refine pieces_joinParts (fun hnil => hne (List.map_eq_nil_iff.mp hnil)) fun q hq => ?_
  obtain ⟨p, hp, rfl⟩ := List.mem_map.mp hq
  have hp := hcut p hp
  exact ⟨fun h => hp.name.1 (Text.mem_upper_of_isMark h (by decide)),
    fun h => hp.value (Text.mem_upper_of_isMark h (by decide))⟩

/-! ## One word -/

/-- In upper case the parts are one word without a colon. -/
def IsOneWord (ps : List (Text × Text)) : Prop :=
  ∀ c ∈ joinParts (raised ps), Text.isBlank c = false ∧ c ≠ ':'

-- by the members of the list, not by all characters
instance (ps : List (Text × Text)) : Decidable (IsOneWord ps) :=
  List.decidableBAll (p := fun c => _ ∧ c ≠ ':') (joinParts (raised ps))

section OneWord

variable (hne : ps ≠ []) (hcut : ∀ p ∈ ps, IsCut text p) (hword : IsOneWord ps)

include hne hcut hword

/-- Parts that are one word are read as one rule, part by part. -/
theorem read_eq_of_isOneWord (start : Moment) : RuleText.read start (joinParts ps) =
    Rules.single <$> (((raised ps).map fun (k, v) => k ++ '=' :: v).foldlM RuleText.addPart {} >>=
      fun d => d.toRule start) := by
  have hpieces := pieces_joinParts_raised hne hcut
  have hcolon : ':' ∉ joinParts (raised ps) := fun hmem => (hword _ hmem).2 rfl
  have hnonempty : joinParts (raised ps) ≠ [] :=
    joinParts_ne_nil fun hnil => hne (List.map_eq_nil_iff.mp hnil)
  have hone : RuleText.IsOneRule (joinParts (raised ps)) :=
    ⟨fun c hc => (hword c hc).1, .inl hcolon⟩
  rw [← upper_joinParts] at hone hnonempty
  rw [RuleText.read_of_isOneRule hone hnonempty, upper_joinParts]
  unfold RuleText.readRule RuleText.readParts
  rw [Text.pieces_of_not_mem hcolon, ← hpieces]
  rfl

omit hne hword in
/-- What the parts of a text set one after the other. -/
theorem reads_of_raised {draft : RuleText.Draft}
    (h : ((raised ps).map fun (k, v) => k ++ '=' :: v).foldlM RuleText.addPart {} = .ok draft) :
    RuleText.Reads {} (raised ps) draft := by
  refine RuleText.reads_of_foldlM (fun q hq hmem => ?_) h
  obtain ⟨p, hp, rfl⟩ := List.mem_map.mp hq
  exact (hcut p hp).name.2 (Text.mem_upper_of_isMark hmem (by decide))

/-- Parts that are one word give one rule. -/
theorem read_of_isOneWord {start : Moment} {rules : Rules}
    (h : RuleText.read start (joinParts ps) = .ok rules) :
    ∃ draft rule, RuleText.Reads {} (raised ps) draft ∧ draft.toRule start = .ok rule ∧
      rules = .single rule := by
  rw [read_eq_of_isOneWord hne hcut hword] at h
  obtain ⟨rule, hrule, rfl⟩ := map_eq_ok_iff.mp h
  obtain ⟨draft, hdraft, hrule⟩ := bind_eq_ok_iff.mp hrule
  exact ⟨draft, rule, reads_of_raised hcut hdraft, hrule, rfl⟩

end OneWord

end Cut

/-! ## Specified names -/

/-- The names of the parts that are specified, but for the count. -/
def specifiedNames : List Text :=
  ["FREQ", "INTERVAL", "UNTIL", "WKST", "BYDAY", "BYMONTHDAY", "BYMONTH", "BYHOUR", "BYMINUTE",
    "BYSECOND", "BYYEARDAY", "BYWEEKNO", "BYSETPOS"].map String.toList

/-- The parts of a text have specified names, their values have no blanks and no colons, and no
day of a month is zero. -/
structure IsSpecified (all : List (Text × Text)) : Prop where
  names : ∀ p ∈ all, p.1 ∈ specifiedNames
  values : ∀ p ∈ all, ∀ c ∈ p.2, Text.isBlank c = false ∧ c ≠ ':'
  monthDays : ∀ v ds, part? all "BYMONTHDAY" = some v → RuleText.ints? (Text.upper v) = some ds →
    (0 : Int) ∉ ds

theorem specifiedNames_spec : ∀ name ∈ specifiedNames, Text.upper name = name ∧
    (∀ c ∈ name, Text.isMark c = false) ∧ name ≠ "BYWEEKDAY".toList ∧
      name ≠ "COUNT".toList ∧ name ≠ "BYEASTER".toList := by
  have hmarks : specifiedNames.all (fun name => name.all fun c => !Text.isMark c) = true := by decide
  have hnames : ∀ name ∈ specifiedNames, Text.upper name = name ∧ name ≠ "BYWEEKDAY".toList ∧
      name ≠ "COUNT".toList ∧ name ≠ "BYEASTER".toList := by decide
  intro name hname
  obtain ⟨hupper, hother⟩ := hnames name hname
  have hmark := List.all_eq_true.mp (List.all_eq_true.mp hmarks name hname)
  exact ⟨hupper, fun c hc => by simpa using hmark c hc, hother⟩

/-- Parts with specified names are one word. -/
theorem isOneWord_of_isSpecified {ps : List (Text × Text)} (hps : ∀ p ∈ ps, p.1 ∈ specifiedNames)
    (hvalues : ∀ p ∈ ps, ∀ c ∈ p.2, Text.isBlank c = false ∧ c ≠ ':') : IsOneWord ps := by
  intro c hc
  rw [← upper_joinParts] at hc
  cases hc' : Text.isMark c with
  | true =>
    rcases mem_joinParts (Text.mem_upper_of_isMark hc hc') with rfl | rfl | ⟨p, hp, h | h⟩
    · decide
    · decide
    · rw [(specifiedNames_spec _ (hps p hp)).2.1 c h] at hc'
      cases hc'
    · exact hvalues p hp c h
  | false =>
    constructor
    · cases hblank : Text.isBlank c with
      | false => rfl
      | true =>
        rw [Text.isMark_of_isBlank hblank] at hc'
        cases hc'
    · rintro rfl
      cases hc'

end Component

end ScanPolicy
