import ScanPolicy.Proofs.Recurrence.Spelling
import ScanPolicy.Proofs.Schedule.RedundantSecond

/-!
# Schedules with renamed parts

The weekdays of a rule may be given under either of two names. If the one name is replaced by the
other in the rules of a schedule, the rules stay the same. But a component keeps the names of its
parts, and if its rule is moved to a later start, the names tell which parts the rule takes from the
start: of the two names only one counts as choosing days.

- `Component.Respells`: rule texts with the one name and with the other; `Component.parse_respells`.
- `Descriptor.respelled`: the schedule with the other name; `Descriptor.parse_respells`.
- `Component.KeepsWeekdays`: when a component may have the other name.
- `Schedule.next_respelled`: the next occurrences of the two schedules.
-/

namespace ScanPolicy

/-- The same fault, or two texts that cannot be read. -/
inductive Fault.BothUnreadable : Fault → Fault → Prop
  | refl (e : Fault) : BothUnreadable e e
  | unreadable (why why' : Unreadable) : BothUnreadable (.unreadable why) (.unreadable why')

namespace Component

open RuleText (weekdaysName weekdaysAlias)

/-! ## Rule texts -/

/-- The name of the part that a piece of a rule text gives. -/
def partName? (raw : Text) : Option Text :=
  match Text.cut '=' raw with
  | (key, some _) => some (Text.upper (Text.trim key))
  | (_, none) => none

/-- Whether a rule text gives a part with a name. -/
def NamesPart (value name : Text) : Prop := ∃ raw ∈ Text.pieces ';' value, partName? raw = some name

instance (value name : Text) : Decidable (NamesPart value name) :=
  inferInstanceAs (Decidable (∃ raw ∈ Text.pieces ';' value, partName? raw = some name))

/-- A piece of a rule text, with the other name of the weekdays if it gives the weekdays. -/
inductive RespellsPiece : Text → Text → Prop
  | weekdays {raw raw' key key' v : Text} (hcut : Text.cut '=' raw = (key, some v))
      (hcut' : Text.cut '=' raw' = (key', some v))
      (hkey : Text.upper (Text.trim key) = weekdaysName)
      (hkey' : Text.upper (Text.trim key') = weekdaysAlias) : RespellsPiece raw raw'
  | other {raw : Text} (h : partName? raw ≠ some weekdaysName) : RespellsPiece raw raw

/-- A rule text, and the text with the weekdays under their other name. -/
def Respells (value value' : Text) : Prop :=
  List.Forall₂ RespellsPiece (Text.pieces ';' value) (Text.pieces ';' value')

/-- The other name of the weekdays; each other name stays as it is. -/
def respellName (name : Text) : Text := if name = weekdaysName then weekdaysAlias else name

/-- A part under its other name. -/
def respellPart (p : Text × Text) : Text × Text := (respellName p.1, p.2)

theorem respellName_of_ne {name : Text} (h : name ≠ weekdaysName) : respellName name = name :=
  if_neg h

theorem respellName_eq_iff {name key : Text} (hname : name ≠ weekdaysName) (halias : name ≠ weekdaysAlias) :
    respellName key = name ↔ key = name := by
  unfold respellName
  split
  · next hkey => exact iff_of_false (Ne.symm halias) fun h => hname (h ▸ hkey)
  · exact Iff.rfl

theorem respellName_injective {k key : Text} (hk : k ≠ weekdaysAlias) (hkey : key ≠ weekdaysAlias) :
    respellName k = respellName key ↔ k = key := by
  by_cases h : key = weekdaysName
  · rw [h]
    unfold respellName
    rw [if_pos rfl]
    split
    · next hk' => exact iff_of_true rfl hk'
    · next hk' => exact iff_of_false hk hk'
  · rw [respellName_of_ne h]
    exact respellName_eq_iff h hkey

/-- A text of a rule without the one name stays as it is. -/
theorem Respells.eq {value value' : Text} (h : Respells value value')
    (hnot : ¬ NamesPart value weekdaysName) : value' = value := by
  have hpieces : ∀ {raws raws' : List Text}, List.Forall₂ RespellsPiece raws raws' →
      (∀ raw ∈ raws, partName? raw ≠ some weekdaysName) → raws' = raws := by
    intro raws raws' hraws hnames
    induction hraws with
    | nil => rfl
    | @cons raw raw' rest rest' hraw _ ih =>
      obtain ⟨hname, hmore⟩ := List.forall_mem_cons.mp hnames
      cases hraw with
      | weekdays hcut _ hkey _ =>
        refine absurd ?_ hname
        unfold partName?
        rw [hcut, ← hkey]
      | other _ => rw [ih hmore]
  have heq := hpieces h fun raw hraw hname => hnot ⟨raw, hraw, hname⟩
  rw [← Text.intercalate_pieces ';' value, ← Text.intercalate_pieces ';' value', heq]

theorem setPart_respelled {key : Text} (value : Text) {acc : List (Text × Text)}
    (hkey : key ≠ weekdaysAlias) (hacc : weekdaysAlias ∉ acc.map Prod.fst) :
    setPart (respellName key) value (acc.map respellPart) =
      (setPart key value acc).map respellPart := by
  induction acc with
  | nil => rfl
  | cons p rest ih =>
    obtain ⟨k, v⟩ := p
    obtain ⟨hk, hrest⟩ := List.ne_and_not_mem_of_not_mem_cons hacc
    rw [List.map_cons]
    unfold respellPart setPart
    dsimp only
    by_cases heq : k = key
    · rw [if_pos heq, if_pos (congrArg respellName heq)]
      rfl
    · rw [if_neg heq, if_neg (mt (respellName_injective (Ne.symm hk) hkey).mp heq)]
      exact congrArg _ (ih hrest)

/-- The parts of a rule text without the other name are renamed one by one. -/
theorem partsFrom_respells {raws raws' : List Text} (h : List.Forall₂ RespellsPiece raws raws')
    (hraws : ∀ raw ∈ raws, partName? raw ≠ some weekdaysAlias) {acc : List (Text × Text)}
    (hacc : weekdaysAlias ∉ acc.map Prod.fst) :
    partsFrom (acc.map respellPart) raws' = List.map respellPart <$> partsFrom acc raws := by
  induction h generalizing acc with
  | nil => rfl
  | @cons raw raw' rest rest' hraw _ ih =>
    obtain ⟨hname, hmore⟩ := List.forall_mem_cons.mp hraws
    have hset : ∀ {key : Text} (v : Text), key ≠ weekdaysAlias →
        partsFrom (setPart (respellName key) v (acc.map respellPart)) rest' =
          List.map respellPart <$> partsFrom (setPart key v acc) rest := by
      intro key v hkey
      rw [setPart_respelled v hkey hacc]
      refine ih hmore ?_
      rw [keys_setPart]
      split
      · exact hacc
      · rw [List.mem_append, List.mem_singleton, not_or]
        exact ⟨hacc, Ne.symm hkey⟩
    have hequals : Text.isBlank '=' = false := by decide
    cases hraw with
    | @weekdays _ key key' v hcut hcut' hkey hkey' =>
      have hrenamed := hset (Text.trim v) (show weekdaysName ≠ weekdaysAlias by decide)
      rw [show respellName weekdaysName = weekdaysAlias from if_pos rfl] at hrenamed
      rw [partsFrom, partsFrom, Text.allBlank_of_cut hequals hcut, Text.allBlank_of_cut hequals hcut',
        if_neg Bool.false_ne_true, if_neg Bool.false_ne_true, hcut, hcut']
      dsimp only
      rw [hkey, hkey']
      exact hrenamed
    | other hother =>
      rw [partsFrom, partsFrom]
      split
      · exact ih hmore hacc
      · cases hcut : Text.cut '=' raw with
        | mk key v =>
          unfold partName? at hname hother
          rw [hcut] at hname hother
          cases v with
          | none => rfl
          | some v =>
            have hsame := hset (Text.trim v) fun heq => hname (congrArg some heq)
            rw [respellName_of_ne fun heq => hother (congrArg some heq)] at hsame
            exact hsame

/-- Each name of a part is that of a piece of the text. -/
theorem namesPart_of_mem {value : Text} {all : List (Text × Text)} (hall : parts value = .ok all) :
    ∀ p ∈ all, NamesPart value p.1 := by
  refine (@partsFrom_spec (fun p => NamesPart value p.1) [] all _ List.nodup_nil
    (fun _ hp => absurd hp List.not_mem_nil) ?_ hall).2
  intro raw hraw key v hcut
  refine ⟨raw, hraw, ?_⟩
  unfold partName?
  rw [hcut]

/-! ## What is read again -/

/-- Where the name of a part stands in the joined text of parts. -/
theorem exists_joinParts (l₁ : List (Text × Text)) (v : Text) (l₂ : List (Text × Text)) :
    ∃ before after, RuleText.EndsPart before ∧
      ∀ key, joinParts (l₁ ++ (key, v) :: l₂) = before ++ (key ++ '=' :: after) := by
  induction l₁ with
  | nil =>
    obtain ⟨more, hmore⟩ := joinParts_cons v l₂
    exact ⟨[], more, .inl rfl, hmore⟩
  | cons p l₁ ih =>
    obtain ⟨before, after, hbefore, hjoin⟩ := ih
    refine ⟨(p.1 ++ '=' :: p.2) ++ ';' :: before, after, ?_, fun key => ?_⟩
    · rcases hbefore with rfl | ⟨t, rfl⟩
      · exact .inr ⟨_, rfl⟩
      · exact .inr ⟨(p.1 ++ '=' :: p.2) ++ ';' :: t, by simp only [List.append_assoc, List.cons_append]⟩
    · have hfirst : joinParts (p :: (l₁ ++ (key, v) :: l₂)) =
          (p.1 ++ '=' :: p.2) ++ ';' :: joinParts (l₁ ++ (key, v) :: l₂) := by
        cases l₁ <;> rfl
      rw [List.cons_append, hfirst, hjoin]
      simp only [List.append_assoc, List.cons_append]

theorem respellPart_of_not_mem {ps : List (Text × Text)} (h : weekdaysName ∉ ps.map Prod.fst) :
    ps.map respellPart = ps := by
  refine (List.map_congr_left fun p hp => ?_).trans (List.map_id ps)
  exact Prod.ext (respellName_of_ne fun heq => h (heq ▸ List.mem_map_of_mem hp)) rfl

/-- The parts are joined to texts that differ in the name of a part. -/
theorem upper_joinParts_respells {ps : List (Text × Text)} (hnodup : (ps.map Prod.fst).Nodup) :
    RuleText.Respells (Text.upper (joinParts ps)) (Text.upper (joinParts (ps.map respellPart))) := by
  by_cases hmem : weekdaysName ∈ ps.map Prod.fst
  · obtain ⟨⟨_, v⟩, hp, rfl⟩ := List.mem_map.mp hmem
    obtain ⟨l₁, l₂, rfl⟩ := List.append_of_mem hp
    -- the name comes only once
    rw [List.map_append, List.map_cons] at hnodup
    obtain ⟨-, h₂, hdisjoint⟩ := List.nodup_append.mp hnodup
    have h₁ : weekdaysName ∉ l₁.map Prod.fst := fun h => hdisjoint _ h _ List.mem_cons_self rfl
    have h₂ : weekdaysName ∉ l₂.map Prod.fst := (List.nodup_cons.mp h₂).1
    obtain ⟨before, after, hbefore, hjoin⟩ := exists_joinParts (raised l₁) (Text.upper v) (raised l₂)
    have hraised : ∀ key : Text, Text.upper (joinParts (l₁ ++ (key, v) :: l₂)) =
        before ++ (Text.upper key ++ '=' :: after) := by
      intro key
      rw [upper_joinParts, ← hjoin]
      unfold raised
      rw [List.map_append, List.map_cons]
    have hname : Text.upper weekdaysName = weekdaysName := by decide
    have halias : Text.upper weekdaysAlias = weekdaysAlias := by decide
    rw [List.map_append, List.map_cons, respellPart_of_not_mem h₁, respellPart_of_not_mem h₂,
      show respellPart (weekdaysName, v) = (weekdaysAlias, v) from rfl, hraised, hraised, hname, halias]
    exact .part hbefore after
  · rw [respellPart_of_not_mem hmem]
    exact .refl _

theorem withoutUntil_respelled (all : List (Text × Text)) :
    withoutUntil (all.map respellPart) = (withoutUntil all).map respellPart := by
  unfold withoutUntil
  rw [List.filter_map]
  congr 1
  refine List.filter_congr fun p _ => ?_
  have hiff : respellName p.1 = "UNTIL".toList ↔ p.1 = "UNTIL".toList :=
    respellName_eq_iff (by decide) (by decide)
  rw [Bool.eq_iff_iff]
  simpa only [Function.comp_apply, respellPart, bne_iff_ne, ne_eq, not_iff_not] using hiff

theorem part?_respelled {name : String} (hname : name.toList ≠ weekdaysName)
    (halias : name.toList ≠ weekdaysAlias) (all : List (Text × Text)) :
    part? (all.map respellPart) name = part? all name := by
  unfold part?
  induction all with
  | nil => rfl
  | cons p rest ih =>
    obtain ⟨key, v⟩ := p
    have hiff : respellName key = name.toList ↔ key = name.toList := respellName_eq_iff hname halias
    have hkey : (name.toList == respellName key) = (name.toList == key) := by
      rw [Bool.eq_iff_iff, beq_iff_eq, beq_iff_eq, eq_comm, hiff, eq_comm]
    rw [List.map_cons, show respellPart (key, v) = (respellName key, v) from rfl, List.lookup_cons, hkey,
      ih, List.lookup_cons]

/-! ## Components -/

/-- A component whose weekdays are given under their other name. -/
def respelled (c : Component) : Component := { c with expanders := c.expanders.map respellName }

theorem startsWith_respellName (key : Text) :
    Text.startsWith "BY".toList (respellName key) = Text.startsWith "BY".toList key := by
  unfold respellName
  split
  · next h =>
    rw [h]
    rfl
  · rfl

/-- The names of the expanding parts. -/
theorem filter_respelled (ps : List (Text × Text)) :
    ((ps.map respellPart).map Prod.fst).filter (Text.startsWith "BY".toList) =
      ((ps.map Prod.fst).filter (Text.startsWith "BY".toList)).map respellName := by
  rw [List.map_map, show Prod.fst ∘ respellPart = respellName ∘ Prod.fst from rfl, ← List.map_map,
    List.filter_map]
  exact congrArg _ (List.filter_congr fun key _ => startsWith_respellName key)

theorem respelled_of_not_mem {c : Component} (h : weekdaysName ∉ c.expanders) : c.respelled = c := by
  have heq : c.expanders.map respellName = c.expanders :=
    (List.map_congr_left fun e he => respellName_of_ne fun hname => h (hname ▸ he)).trans
      (List.map_id _)
  unfold respelled
  rw [heq]

/-- Refused rules are texts that cannot be read. -/
theorem refuse_corresponds {α : Type} {x y : Except Fault α} (h : Corresponds Fault.BothRefuse Eq x y)
    (value value' : Text) :
    Corresponds Fault.BothUnreadable Eq (refuse value x) (refuse value' y) := by
  cases h with
  | ok h => exact .ok h
  | error h =>
    cases h with
    | rule why why' => exact .error (.unreadable _ _)
    | refl e =>
      unfold refuse
      split
      · next why heq =>
        cases heq
        exact .error (.unreadable _ _)
      · exact .error (.refl _)

section Parse

variable {value value' : Text} {start : Moment} {clock : Clock}

/-- The last step of reading a rule. -/
theorem assemble_respells {all : List (Text × Text)} (hnodup : (all.map Prod.fst).Nodup)
    (f : Frequency) (interval : Nat) (count : Option Nat) (bound : Option Moment) :
    Corresponds Fault.BothUnreadable (fun c c' => c' = c.respelled)
      (assemble value start all f interval count bound)
      (assemble value' start (all.map respellPart) f interval count bound) := by
  have hkept : ((withoutUntil all).map Prod.fst).Nodup :=
    hnodup.sublist (List.filter_sublist.map _)
  have hread := RuleText.read_respells (upper_joinParts_respells hkept) start
  unfold assemble
  split
  · exact .error (.unreadable _ _)
  · dsimp only
    rw [show List.filter _ (all.map respellPart) = _ from withoutUntil_respelled all]
    refine (refuse_corresponds (hread.bind fun rs rs' hrs => ?_) value value').bind
      fun rules rules' hrules => .ok ?_
    · exact .of_eq .refl (by rw [hrs])
    · rw [hrules, filter_respelled]
      rfl

/-- A rule text with the other name of the weekdays gives the same component, but for the names of its
parts. -/
theorem parse_respells (h : Respells value value')
    (hboth : ¬ (NamesPart value weekdaysName ∧ NamesPart value weekdaysAlias)) :
    Corresponds Fault.BothUnreadable (fun c c' => c' = c.respelled) (parse value start clock)
      (parse value' start clock) := by
  by_cases hname : NamesPart value weekdaysName
  · have halias : ¬ NamesPart value weekdaysAlias := fun halias => hboth ⟨hname, halias⟩
    have hparts : parts value' = List.map respellPart <$> parts value :=
      @partsFrom_respells _ _ h (fun raw hraw heq => halias ⟨raw, hraw, heq⟩) [] List.not_mem_nil
    cases hall : parts value with
    | error e =>
      rw [hall] at hparts
      unfold parse
      rw [hall, hparts]
      exact .error (.refl e)
    | ok all =>
      rw [hall] at hparts
      have hpart : ∀ {name : String}, name.toList ≠ weekdaysName → name.toList ≠ weekdaysAlias →
          part? (all.map respellPart) name = part? all name := fun hn hn' => part?_respelled hn hn' all
      have hcount : countOf (all.map respellPart) = countOf all := by
        unfold countOf
        rw [hpart (by decide) (by decide)]
      have hbound : boundOf (all.map respellPart) clock = boundOf all clock := by
        unfold boundOf
        rw [hpart (by decide) (by decide)]
      rw [parse_eq hall, parse_eq (show parts value' = .ok (all.map respellPart) from hparts),
        hpart (by decide) (by decide), hpart (by decide) (by decide), hcount, hbound]
      split
      · exact .error (.refl _)
      · refine (Corresponds.of_eq .refl rfl).bind fun interval _ hinterval => ?_
        refine (Corresponds.of_eq .refl rfl).bind fun count _ hcount => ?_
        refine (Corresponds.of_eq .refl rfl).bind fun bound _ hbound => ?_
        rw [← hinterval, ← hcount, ← hbound]
        exact assemble_respells (parts_spec hall).1 _ interval count bound
  · -- the text is the same, and a component of it has nothing to rename
    rw [h.eq hname]
    cases hc : parse value start clock with
    | error e => exact .error (.refl e)
    | ok c =>
      obtain ⟨all, hall, hread⟩ := isRead_of_parse hc
      refine .ok (respelled_of_not_mem fun hmem => hname ?_).symm
      rw [hread.expanders_eq] at hmem
      obtain ⟨p, hp, heq⟩ := List.mem_map.mp (List.mem_filter.mp hmem).1
      rw [← heq]
      exact namesPart_of_mem hall p (mem_of_mem_withoutUntil hp)

end Parse

end Component

/-! ## Schedules -/

/-- A property, with the weekdays under their other name if it gives a rule. -/
inductive Property.Respells : Property → Property → Prop
  | rule {p : Property} {value' : Text} (hname : p.isNamed "RRULE" = true)
      (h : Component.Respells p.value value') : Respells p { p with value := value' }
  | other {p : Property} (hname : p.isNamed "RRULE" = false) : Respells p p

theorem Property.Respells.sameButRule {p p' : Property} (h : p.Respells p') : p.SameButRule p' := by
  cases h with
  | rule hname _ => exact .inr ⟨hname, hname⟩
  | other _ => exact .inl rfl

theorem Property.Respells.isNamed_eq {p p' : Property} (h : p.Respells p') (name : String) :
    p'.isNamed name = p.isNamed name := by
  cases h <;> rfl

/-- Whether a rule gives the weekdays under both of their names. -/
def Property.NamesBoth (p : Property) : Prop := p.isNamed "RRULE" = true ∧
  Component.NamesPart p.value RuleText.weekdaysName ∧
    Component.NamesPart p.value RuleText.weekdaysAlias

instance (p : Property) : Decidable p.NamesBoth := inferInstanceAs (Decidable (_ ∧ _ ∧ _))

namespace Descriptor

/-- The schedule with the weekdays under their other name. -/
def respelled (d : Descriptor) : Descriptor :=
  { d with components := d.components.map Component.respelled }

section Parse

variable {ps ps' : List Property} (h : List.Forall₂ Property.Respells ps ps')

include h

theorem ruleProperties_respells :
    List.Forall₂ Property.Respells (ruleProperties ps) (ruleProperties ps') := by
  unfold ruleProperties
  induction h with
  | nil => exact .nil
  | @cons p p' _ _ hp _ ih =>
    rw [List.filter_cons, List.filter_cons, hp.isNamed_eq]
    split
    · exact .cons hp ih
    · exact ih

/-- The rules that are kept are the same but for the names of their parts. -/
theorem readComponents_respells (hboth : ∀ p ∈ ps, ¬ p.NamesBoth)
    (hrules : ∀ p ∈ ps, p.isNamed "RRULE" = true) (start : Moment) (clock : Clock) :
    Corresponds Fault.BothUnreadable (fun cs cs' => cs' = cs.map Component.respelled)
      (readComponents start clock ps).run.value (readComponents start clock ps').run.value := by
  induction h with
  | nil => exact .ok rfl
  | @cons p p' rest rest' hp _ ih =>
    obtain ⟨hp₁, hboth⟩ := List.forall_mem_cons.mp hboth
    obtain ⟨hp₂, hrules⟩ := List.forall_mem_cons.mp hrules
    have hrest := ih hboth hrules
    have hparse : Corresponds Fault.BothUnreadable (fun c c' => c' = c.respelled)
        (Component.parse p.value start clock) (Component.parse p'.value start clock) := by
      cases hp with
      | other hname =>
        rw [hp₂] at hname
        cases hname
      | rule _ hvalue => exact Component.parse_respells hvalue fun hnames => hp₁ ⟨hp₂, hnames⟩
    unfold readComponents
    generalize Component.parse p.value start clock = x,
      Component.parse p'.value start clock = y at hparse ⊢
    cases hparse with
    | ok hc =>
      dsimp only
      rw [run_bind, run_bind]
      exact hrest.bind fun cs cs' hcs => .ok (by rw [hc, hcs]; rfl)
    | @error e _ he =>
      cases he with
      | unreadable _ _ =>
        dsimp only
        rw [run_bind, run_bind]
        exact hrest
      | refl =>
        cases e with
        | unreadable _ =>
          dsimp only
          rw [run_bind, run_bind]
          exact hrest
        | _ => exact .error (.refl _)

/-- Of two texts that differ in the names of the weekdays, both or none give a schedule, which is the
same but for the names of its parts. -/
theorem parse_respells {text text' : Text} (hps : Property.ofEvent text = .ok ps)
    (hps' : Property.ofEvent text' = .ok ps') (hboth : ∀ p ∈ ps, ¬ p.NamesBoth)
    (zoneName : Option Text) :
    Corresponds Fault.BothUnreadable (fun d d' => d' = d.respelled) (parse text zoneName).run.value
      (parse text' zoneName).run.value := by
  have hsame : List.Forall₂ Property.SameButRule ps ps' := h.imp fun _ _ hp => hp.sameButRule
  have hrules := ruleProperties_respells h
  have hkept : ∀ start clock, Corresponds Fault.BothUnreadable
      (fun cs cs' => cs' = cs.map Component.respelled)
      (readComponents start clock (ruleProperties ps)).run.value
      (readComponents start clock (ruleProperties ps')).run.value :=
    readComponents_respells hrules (fun p hp => hboth p (List.mem_filter.mp hp).1)
      fun p hp => (List.mem_filter.mp hp).2
  have hempty : ∀ {qs qs' : List Property}, List.Forall₂ Property.Respells qs qs' →
      qs'.isEmpty = qs.isEmpty := by
    intro qs qs' hqs
    cases hqs <;> rfl
  rw [run_parse hps, run_parse hps', find?_of_sameButRule hsame (by decide)]
  split
  · exact .error (.refl _)
  · refine (Corresponds.of_eq .refl rfl).bind fun zone _ hzone => ?_
    rw [← hzone]
    refine (Corresponds.of_eq .refl rfl).bind fun start _ hstart => ?_
    rw [← hstart]
    refine (hkept start (clockOf zone)).bind fun kept _ hkept => ?_
    rw [hkept, hempty hrules, List.isEmpty_map]
    split
    · exact .error (.unreadable _ _)
    · rw [dateLists_of_sameButRule hsame]
      refine (Corresponds.of_eq .refl rfl).bind fun lists _ hlists => .ok ?_
      rw [← hlists]
      unfold respelled
      dsimp only
      rw [apply_ite (List.map Component.respelled)]
      rfl

end Parse

end Descriptor

/-! ## Moved rules -/

namespace Component

open RuleText (weekdaysName weekdaysAlias)

/-- When a component that gives its weekdays under their other name has the same dates after a moment.
Only a single rule is ever moved, if it has no count and two periods have passed; then only a rule
whose frequency is a week or longer takes its days from the start, and it takes none if another part
chooses them. A weekly rule may take the weekday of the start if it is the one that is given. -/
inductive KeepsWeekdays (c : Component) (start now : Moment) : Prop
  | unnamed (h : weekdaysName ∉ c.expanders)
  | chosen {name : Text} (h : name ∈ c.expanders) (hchooser : name ∈ Source.dayChoosers)
      (hne : name ≠ weekdaysName)
  | short {f : Frequency} (hf : c.freq = some f) (h : Rule.mayTakeDays f = false)
  | counted (h : c.count ≠ none)
  | several {rs exs : List Rule} (h : c.rules = some (.several rs exs))
  | startDay {r : Rule} (hf : c.freq = some .weekly) (hr : c.rules = some (.single r))
      (h : r.given.weekdays = some [⟨start.wall.weekday, none⟩])
  | early (h : ∀ f n, c.freq = some f → Plain.elapsedPeriods start c f now = .ok n → n ≤ 1)

end Component

namespace Source

open RuleText (weekdaysName weekdaysAlias)

/-- A source whose component has the other name of the weekdays. -/
def respelled : Source → Source
  | .rule c => .rule c.respelled
  | .dates => .dates

variable {c : Component} {start now : Moment} {r : Rule}

theorem isGiven_respelled {name : String} (hname : name.toList ≠ weekdaysName)
    (halias : name.toList ≠ weekdaysAlias) : isGiven c.respelled name = isGiven c name := by
  unfold isGiven Component.respelled
  rw [Bool.eq_iff_iff, List.contains_iff_mem, List.contains_iff_mem, List.mem_map]
  constructor
  · rintro ⟨key, hkey, heq⟩
    exact (Component.respellName_eq_iff hname halias).mp heq ▸ hkey
  · exact fun hmem => ⟨_, hmem, Component.respellName_of_ne hname⟩

/-- The other name does not count as one that chooses days. -/
theorem chooses_respelled (h : ∃ name ∈ c.expanders, name ∈ dayChoosers ∧ name ≠ weekdaysName) :
    (c.respelled.expanders.any fun e => dayChoosers.contains e) =
      c.expanders.any fun e => dayChoosers.contains e := by
  obtain ⟨name, hmem, hchooser, hne⟩ := h
  have hcontains : dayChoosers.contains name = true := List.contains_iff_mem.mpr hchooser
  rw [List.any_eq_true.mpr ⟨name, hmem, hcontains⟩]
  refine List.any_eq_true.mpr ⟨name, ?_, hcontains⟩
  exact List.mem_map.mpr ⟨name, hmem, Component.respellName_of_ne hne⟩

/-- The parts that are pinned under the other name are the same, if another part chooses days, or if no
days are taken from the start, or those that are given. -/
theorem pin_respelled {p : Parts}
    (h : (∃ name ∈ c.expanders, name ∈ dayChoosers ∧ name ≠ weekdaysName) ∨
      (∃ f, c.freq = some f ∧ Rule.mayTakeDays f = false) ∨
        c.freq = some .weekly ∧ p.weekdays = some [⟨start.wall.weekday, none⟩]) :
    pin start c.respelled p = pin start c p := by
  have hmonth : isGiven c.respelled "BYMONTH" = isGiven c "BYMONTH" :=
    isGiven_respelled (by decide) (by decide)
  have hhour : isGiven c.respelled "BYHOUR" = isGiven c "BYHOUR" :=
    isGiven_respelled (by decide) (by decide)
  have hminute : isGiven c.respelled "BYMINUTE" = isGiven c "BYMINUTE" :=
    isGiven_respelled (by decide) (by decide)
  have hsecond : isGiven c.respelled "BYSECOND" = isGiven c "BYSECOND" :=
    isGiven_respelled (by decide) (by decide)
  unfold pin
  dsimp only
  rw [hmonth, hhour, hminute, hsecond, show c.respelled.freq = c.freq from rfl]
  rcases h with hother | ⟨f, hf, hshort⟩ | ⟨hf, hdays⟩
  · rw [chooses_respelled hother]
  · rw [hf]
    cases f with
    | yearly | monthly | weekly => cases hshort
    -- no days are taken, chosen or not
    | daily | hourly | minutely => simp only [ite_self]
  · have hsame : { p with weekdays := some [⟨start.wall.weekday, none⟩] } = p := by rw [← hdays]
    rw [hf]
    dsimp only
    rw [hsame, ite_self, ite_self]

/-- A rule with the same pinned parts is moved in the same way. -/
theorem anchored_single_respelled (h : pin start c.respelled r.given = pin start c r.given) :
    anchored start c.respelled (.single r) now = anchored start c (.single r) now := by
  have hmove : ∀ anchor, r.reanchor anchor (pin start c.respelled) = r.reanchor anchor (pin start c) := by
    intro anchor
    unfold Rule.reanchor
    rw [h]
  unfold anchored
  simp only [hmove]
  rfl

/-- Under the other name of the weekdays the rules are moved in the same way, if the component keeps its
weekdays. -/
theorem anchored_respelled (h : c.KeepsWeekdays start now) {rules : Rules}
    (hrules : c.rules = some rules) :
    anchored start c.respelled rules now = anchored start c rules now := by
  have hpinned : (∀ r, c.rules = some (.single r) →
      pin start c.respelled r.given = pin start c r.given) →
        anchored start c.respelled rules now = anchored start c rules now := by
    intro hpin
    cases rules with
    | single r => exact anchored_single_respelled (hpin r hrules)
    | several rs exs => rfl
  cases h with
  | unnamed h => rw [Component.respelled_of_not_mem h]
  | chosen hmem hchooser hne => exact hpinned fun r _ => pin_respelled (.inl ⟨_, hmem, hchooser, hne⟩)
  | short hf hshort => exact hpinned fun r _ => pin_respelled (.inr (.inl ⟨_, hf, hshort⟩))
  | several h =>
    refine hpinned fun r hr => ?_
    rw [h] at hr
    cases hr
  | startDay hf hr h =>
    refine hpinned fun r' hr' => pin_respelled (.inr (.inr ⟨hf, ?_⟩))
    rw [hr] at hr'
    cases hr'
    exact h
  | counted h =>
    obtain ⟨n, hn⟩ := Option.ne_none_iff_exists'.mp h
    unfold anchored
    rw [show c.respelled.count = c.count from rfl, hn]
  | early h =>
    -- the rule is not moved yet
    unfold anchored
    rw [show c.respelled.count = c.count from rfl, show c.respelled.freq = c.freq from rfl]
    split
    · next f _ hf =>
      refine bind_congr_of_ok fun n hn => ?_
      have hindex : (n - 1).toNat = 0 := by
        have hle := h f n hf hn
        omega
      rw [hindex]
      rfl
    · rfl

/-- A component has the same dates under the other name, if it keeps its weekdays. -/
theorem nthAfter_respelled {d : Descriptor} (hkeeps : c.KeepsWeekdays d.start now)
    (hshape : c.expanders = [] ∨ c.expanders ≠ [] ∧ ∃ rules, c.rules = some rules) (k : Nat) :
    (Source.rule c.respelled).nthAfter d.respelled now k = (Source.rule c).nthAfter d now k := by
  rcases hshape with hplain | ⟨hexpanders, rules, hrules⟩
  · -- a plain rule gives no weekdays
    rw [Component.respelled_of_not_mem (hplain ▸ List.not_mem_nil)]
    rfl
  · have hexpanders' : c.respelled.expanders ≠ [] := mt List.map_eq_nil_iff.mp hexpanders
    rw [nthAfter_expanded hexpanders hrules, nthAfter_expanded hexpanders' hrules]
    unfold expandedNth
    rw [show d.respelled.start = d.start from rfl, anchored_respelled hkeeps hrules]
    rfl

end Source

namespace Descriptor

theorem sources_respelled (d : Descriptor) : d.respelled.sources = d.sources.map Source.respelled := by
  unfold sources respelled
  rw [List.map_append, List.map_map, List.map_map]
  dsimp only
  split <;> rfl

/-- The schedules have the same next occurrences, if each component keeps its weekdays. -/
theorem next_of_respelled {text : Text} {zoneName : Option Text} {d : Descriptor} {now : Moment}
    (h : (parse text zoneName).run.value = .ok d)
    (hkeeps : ∀ c ∈ d.components, c.KeepsWeekdays d.start now) (offset : Int) :
    d.respelled.next now offset = d.next now offset := by
  by_cases hoffset : offset < 0
  · unfold next
    rw [if_pos hoffset, if_pos hoffset]
    rfl
  · obtain ⟨k, rfl⟩ := Int.eq_ofNat_of_zero_le (not_lt.mp hoffset)
    refine next_relabel (sources_respelled d) (fun s hs k => ?_) k
    rcases source_of_parse h hs with rfl | ⟨c, hc, rfl, -, hshape⟩
    · rfl
    · exact Source.nthAfter_respelled (hkeeps c hc) (hshape.imp And.left id) k

end Descriptor

namespace Schedule

/-- If the weekdays of the rules of a text are given under their other name, then the text gives a
schedule with the same next occurrences, if no rule gives them under both names and each component
keeps its weekdays. -/
theorem next_respelled {text text' : Text} {ps ps' : List Property} {zoneName : Option Text}
    {now : Moment} (hps : Property.ofEvent text = .ok ps) (hps' : Property.ofEvent text' = .ok ps')
    (h : List.Forall₂ Property.Respells ps ps') (hboth : ∀ p ∈ ps, ¬ p.NamesBoth)
    (hkeeps : ∀ d, (Descriptor.parse text zoneName).run.value = .ok d →
      ∀ c ∈ d.components, c.KeepsWeekdays d.start now) :
    (∀ d, (Descriptor.parse text zoneName).run.value = .ok d →
      ∃ d', (Descriptor.parse text' zoneName).run.value = .ok d' ∧
        ∀ offset, d'.next now offset = d.next now offset) ∧
    ∀ offset, (next text' zoneName offset now).run.value =
      (next text zoneName offset now).run.value := by
  have hparse := Descriptor.parse_respells h hps hps' hboth zoneName
  have hnext := fun d hd => Descriptor.next_of_respelled (d := d) hd (hkeeps d hd)
  generalize hx : (Descriptor.parse text zoneName).run.value = x at hparse hnext ⊢
  generalize hy : (Descriptor.parse text' zoneName).run.value = y at hparse ⊢
  refine ⟨fun d hd => ?_, fun offset => ?_⟩
  · rw [hd] at hparse
    cases hparse with
    | ok hd' => exact ⟨_, rfl, hd' ▸ hnext d hd⟩
  · unfold next
    split
    · rfl
    · rw [ExceptT.run_mk, ExceptT.run_mk, Traced.value_bind, Traced.value_bind, hx, hy]
      cases hparse with
      | ok hd' =>
        rw [hd']
        exact hnext _ rfl offset
      | @error e _ he =>
        cases he with
        | unreadable _ _ => rfl
        | refl => cases e <;> rfl

set_option maxRecDepth 2000 in
/-- A weekly rule with the weekday of the start, a daily rule and a counted one. -/
theorem next_respelled_of_three_rules :
    (∃ d, (Descriptor.parse ("DTSTART:20240101T090000Z\nRRULE:FREQ=WEEKLY;BYDAY=MO\n" ++
      "RRULE:FREQ=DAILY;BYDAY=TU\nRRULE:FREQ=MONTHLY;COUNT=5;BYDAY=-1FR").toList none).run.value = .ok d ∧
      d.components.length = 3) ∧
    ∀ (now : Moment) (offset : Int),
      (next ("DTSTART:20240101T090000Z\nRRULE:FREQ=WEEKLY;BYWEEKDAY=MO\n" ++
        "RRULE:FREQ=DAILY;BYWEEKDAY=TU\nRRULE:FREQ=MONTHLY;COUNT=5;BYWEEKDAY=-1FR").toList none offset
          now).run.value =
      (next ("DTSTART:20240101T090000Z\nRRULE:FREQ=WEEKLY;BYDAY=MO\n" ++
        "RRULE:FREQ=DAILY;BYDAY=TU\nRRULE:FREQ=MONTHLY;COUNT=5;BYDAY=-1FR").toList none offset
          now).run.value := by
  obtain ⟨d, ps, ps', weekly, daily, monthly, r, hd, hps, hps', hrespells, hboth, hcomponents, hweekly,
      hrules, hday, hdaily, hmonthly⟩ : ∃ d ps ps' weekly daily monthly r,
      (Descriptor.parse ("DTSTART:20240101T090000Z\nRRULE:FREQ=WEEKLY;BYDAY=MO\n" ++
        "RRULE:FREQ=DAILY;BYDAY=TU\nRRULE:FREQ=MONTHLY;COUNT=5;BYDAY=-1FR").toList none).run.value =
          .ok d ∧
      Property.ofEvent ("DTSTART:20240101T090000Z\nRRULE:FREQ=WEEKLY;BYDAY=MO\n" ++
        "RRULE:FREQ=DAILY;BYDAY=TU\nRRULE:FREQ=MONTHLY;COUNT=5;BYDAY=-1FR").toList = .ok ps ∧
      Property.ofEvent ("DTSTART:20240101T090000Z\nRRULE:FREQ=WEEKLY;BYWEEKDAY=MO\n" ++
        "RRULE:FREQ=DAILY;BYWEEKDAY=TU\nRRULE:FREQ=MONTHLY;COUNT=5;BYWEEKDAY=-1FR").toList = .ok ps' ∧
      List.Forall₂ Property.Respells ps ps' ∧ (∀ p ∈ ps, ¬ p.NamesBoth) ∧
      d.components = [weekly, daily, monthly] ∧ weekly.freq = some .weekly ∧
      weekly.rules = some (.single r) ∧ r.given.weekdays = some [⟨d.start.wall.weekday, none⟩] ∧
      daily.freq = some .daily ∧ monthly.count = some 5 :=
    ⟨_, _, _, _, _, _, _, rfl, rfl, rfl,
      .cons (.other (by decide)) (.cons
        (.rule rfl (.cons (.other (by decide)) (.cons (.weekdays rfl rfl (by decide) (by decide)) .nil)))
        (.cons
          (.rule rfl (.cons (.other (by decide)) (.cons (.weekdays rfl rfl (by decide) (by decide)) .nil)))
          (.cons (.rule rfl (.cons (.other (by decide)) (.cons (.other (by decide))
            (.cons (.weekdays rfl rfl (by decide) (by decide)) .nil)))) .nil))),
      by decide +kernel, rfl, rfl, rfl, by decide +kernel, rfl, rfl⟩
  refine ⟨⟨d, hd, by rw [hcomponents]; rfl⟩, fun now => (next_respelled hps hps' hrespells hboth ?_).2⟩
  intro d' hd' c hc
  obtain rfl : d = d' := Except.ok.inj (hd.symm.trans hd')
  rw [hcomponents] at hc
  simp only [List.mem_cons, List.not_mem_nil, or_false] at hc
  rcases hc with rfl | rfl | rfl
  · exact .startDay hweekly hrules hday
  · exact .short hdaily rfl
  · exact .counted (by rw [hmonthly]; nofun)

/-- Two weeks after the start the rule on Wednesdays is moved, and gives Mondays, the weekday of the
start, if the weekdays are given under their other name. -/
theorem next_not_respelled : ∃ ps ps' now m m',
    Property.ofEvent "DTSTART:20240101T000000Z\nRRULE:FREQ=WEEKLY;BYDAY=WE".toList = .ok ps ∧
    Property.ofEvent "DTSTART:20240101T000000Z\nRRULE:FREQ=WEEKLY;BYWEEKDAY=WE".toList = .ok ps' ∧
    List.Forall₂ Property.Respells ps ps' ∧
    WallTime.ofFields? ⟨2024, 2, 1⟩ 0 0 0 0 = some now ∧
    (next "DTSTART:20240101T000000Z\nRRULE:FREQ=WEEKLY;BYDAY=WE".toList none 0
      (.universal now)).run.value = .ok (some m) ∧
    (next "DTSTART:20240101T000000Z\nRRULE:FREQ=WEEKLY;BYWEEKDAY=WE".toList none 0
      (.universal now)).run.value = .ok (some m') ∧
    m.wall.date = ⟨2024, 2, 7⟩ ∧ m'.wall.date = ⟨2024, 2, 5⟩ := by
  obtain ⟨ps, ps', now, hps, hps', hrespells, hnow, hgiven, hrenamed⟩ : ∃ ps ps' now,
      Property.ofEvent "DTSTART:20240101T000000Z\nRRULE:FREQ=WEEKLY;BYDAY=WE".toList = .ok ps ∧
      Property.ofEvent "DTSTART:20240101T000000Z\nRRULE:FREQ=WEEKLY;BYWEEKDAY=WE".toList = .ok ps' ∧
      List.Forall₂ Property.Respells ps ps' ∧
      WallTime.ofFields? ⟨2024, 2, 1⟩ 0 0 0 0 = some now ∧
      ((next "DTSTART:20240101T000000Z\nRRULE:FREQ=WEEKLY;BYDAY=WE".toList none 0
        (.universal now)).run.value.toOption.join.any fun m =>
          decide (m.wall.date = ⟨2024, 2, 7⟩)) = true ∧
      ((next "DTSTART:20240101T000000Z\nRRULE:FREQ=WEEKLY;BYWEEKDAY=WE".toList none 0
        (.universal now)).run.value.toOption.join.any fun m =>
          decide (m.wall.date = ⟨2024, 2, 5⟩)) = true :=
    ⟨_, _, _, rfl, rfl,
      .cons (.other (by decide)) (.cons (.rule rfl (.cons (.other (by decide))
        (.cons (.weekdays rfl rfl (by decide) (by decide)) .nil))) .nil),
      rfl, by decide +kernel, by decide +kernel⟩
  obtain ⟨m, hm, hdate⟩ := (Option.any_eq_true _ _).mp hgiven
  obtain ⟨m', hm', hdate'⟩ := (Option.any_eq_true _ _).mp hrenamed
  exact ⟨ps, ps', now, m, m', hps, hps', hrespells, hnow,
    ok_of_toOption (Option.join_eq_some_iff.mp hm), ok_of_toOption (Option.join_eq_some_iff.mp hm'),
    of_decide_eq_true hdate, of_decide_eq_true hdate'⟩

end Schedule

end ScanPolicy
