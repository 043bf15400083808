import ScanPolicy.Proofs.Recurrence.RuleFaults
import ScanPolicy.Proofs.Schedule.Completed

/-!
# Calendar texts that are read or refused

What is wrong with a calendar text makes it unreadable, and what is wrong with one of its
rules only drops this rule. The reading breaks off for other reasons at a few places,
which an ordinary text does not touch: names of groups of zones, a start that its zone
moves out of the calendar, and rules with long numerals, blanks or colons within a part,
or times of day beyond the numbers of the machine.

- `Component.IsOrdinary`, `Component.parse_failsOnly`: rules that are read or refused.
- `Descriptor.IsOrdinary`, `Descriptor.parse_failsOnly`: calendar texts.
- `Descriptor.components_of_parse`: the rules that are kept.
- `Descriptor.parse_or_refused`: both, and the next occurrence for a refused text.
- `Descriptor.parse_breaks_off`: a rule that breaks off the reading of its schedule.
-/

namespace ScanPolicy

/-- Whether a fault makes a text unreadable. -/
def Fault.IsUnreadable (e : Fault) : Prop := ∃ why, e = .unreadable why

theorem Instant.parse_failsOnly (value : Text) (clock : Clock) :
    FailsOnly Fault.IsUnreadable (Instant.parse value clock) := by
  unfold Instant.parse
  split
  · exact failsOnly_ok _
  · exact failsOnly_ok _
  · exact failsOnly_error ⟨_, rfl⟩

/-! ## Rules -/

namespace Component

/-- What keeps the reading of a rule from breaking off: its numerals can be read, its parts are one
word without a colon, and its times of day are numbers of the machine. -/
structure IsOrdinary (all : List (Text × Text)) : Prop where
  numerals : ∀ name ∈ ["INTERVAL", "COUNT"], ∀ v ∈ part? all name, ∀ _ ∈ Text.asciiNat? v,
    v.length ≤ Text.numeralLimit
  oneWord : IsOneWord (withoutUntil all)
  times : ∀ name ∈ ["BYHOUR", "BYMINUTE", "BYSECOND"], ∀ v ∈ part? all name,
    ∀ ns ∈ RuleText.ints? (Text.upper v), ∀ n ∈ ns, TimeOfDay.isBeyondMachine n = false

instance (all : List (Text × Text)) : Decidable (IsOrdinary all) :=
  decidable_of_iff (_ ∧ _ ∧ _)
    ⟨fun ⟨h₁, h₂, h₃⟩ => ⟨h₁, h₂, h₃⟩, fun ⟨h₁, h₂, h₃⟩ => ⟨h₁, h₂, h₃⟩⟩

theorem parts_failsOnly (value : Text) : FailsOnly Fault.IsUnreadable (parts value) := by
  have hfrom : ∀ (raws : List Text) (acc : List (Text × Text)),
      FailsOnly Fault.IsUnreadable (partsFrom acc raws) := by
    intro raws
    induction raws with
    | nil => exact fun acc => failsOnly_ok acc
    | cons raw rest ih =>
      intro acc
      unfold partsFrom
      split
      · exact ih acc
      · split
        · exact failsOnly_error ⟨_, rfl⟩
        · exact ih _
  exact hfrom _ []

theorem positive_failsOnly {name : String} {value : Text}
    (h : ∀ n, Text.asciiNat? value = some n → value.length ≤ Text.numeralLimit) :
    FailsOnly Fault.IsUnreadable (positive name value) := by
  unfold positive
  split
  · exact failsOnly_error ⟨_, rfl⟩
  · next n hn =>
    rw [if_neg (not_lt.mpr (h n hn))]
    split
    · exact failsOnly_error ⟨_, rfl⟩
    · exact failsOnly_ok _

/-- What is wrong with a rule makes its text unreadable. -/
theorem refuse_failsOnly {α : Type} (value : Text) {x : Except Fault α}
    (h : FailsOnly Fault.IsOfRule x) : FailsOnly Fault.IsUnreadable (refuse value x) := by
  cases x with
  | ok a => exact failsOnly_ok a
  | error e =>
    obtain ⟨why, rfl⟩ := h e rfl
    exact failsOnly_error ⟨_, rfl⟩

section Rules

variable {value : Text} {start : Moment} {clock : Clock} {all : List (Text × Text)}
  (hall : parts value = .ok all) (hordinary : IsOrdinary all)

include hall hordinary

/-- The parts of an ordinary rule are read with its frequency and with numbers of the machine. -/
theorem draft_of_raised {f : Frequency}
    (hf : Frequency.ofName? (Text.upper ((part? all "FREQ").getD [])) = some f) {draft : RuleText.Draft}
    (h : ((raised (withoutUntil all)).map fun (k, v) => k ++ '=' :: v).foldlM RuleText.addPart {} =
      .ok draft) : draft.freq = some f ∧ draft.parts.IsWithinMachine := by
  obtain ⟨hnodup, hcut⟩ := parts_spec hall
  have hcut : ∀ p ∈ withoutUntil all, IsCut value p := fun p hp => hcut p (mem_of_mem_withoutUntil hp)
  have hreads := reads_of_raised hcut h
  have hupper := upper_name_of_reads hcut hreads
  refine ⟨freq_of_reads hnodup hupper hreads hf, fun ns hns => ?_, fun ns hns => ?_,
    fun ns hns => ?_⟩
  · obtain ⟨v, hv, hvalue⟩ := part_of_reads hnodup hupper hreads
      (show ("BYHOUR", Parts.hours) ∈ RuleText.intFields by simp [RuleText.intFields]) hns
    exact hordinary.times "BYHOUR" (by decide) v hv ns hvalue
  · obtain ⟨v, hv, hvalue⟩ := part_of_reads hnodup hupper hreads
      (show ("BYMINUTE", Parts.minutes) ∈ RuleText.intFields by simp [RuleText.intFields]) hns
    exact hordinary.times "BYMINUTE" (by decide) v hv ns hvalue
  · obtain ⟨v, hv, hvalue⟩ := part_of_reads hnodup hupper hreads
      (show ("BYSECOND", Parts.seconds) ∈ RuleText.intFields by simp [RuleText.intFields]) hns
    exact hordinary.times "BYSECOND" (by decide) v hv ns hvalue

/-- Parts that are one word give one rule, or are those of a rule at fault. -/
theorem rules_failsOnly {f : Frequency}
    (hf : Frequency.ofName? (Text.upper ((part? all "FREQ").getD [])) = some f)
    (bound : Option Moment) :
    FailsOnly Fault.IsOfRule (RuleText.read start (joinParts (withoutUntil all)) >>= fun rules =>
      Rules.withBound rules bound) := by
  obtain ⟨-, hcut⟩ := parts_spec hall
  obtain ⟨v, hv⟩ := exists_freq_part hf
  have hne := List.ne_nil_of_mem (mem_withoutUntil (by decide) hv)
  rw [read_eq_of_isOneWord hne (fun p hp => hcut p (mem_of_mem_withoutUntil hp)) hordinary.oneWord]
  refine FailsOnly.bind (FailsOnly.map (FailsOnly.bind ?_ fun draft hread => ?_)) fun rules hrules => ?_
  · exact FailsOnly.foldlM (fun d pair _ => RuleText.addPart_failsOnly d pair) {}
  · obtain ⟨hfreq, hwithin⟩ := draft_of_raised hall hordinary hf hread
    unfold RuleText.Draft.toRule
    rw [hfreq]
    exact Rule.ofParts_failsOnly hwithin
  · obtain ⟨rule, hrule, rfl⟩ := map_eq_ok_iff.mp hrules
    obtain ⟨draft, hread, hrule⟩ := bind_eq_ok_iff.mp hrule
    obtain ⟨hfreq, hwithin⟩ := draft_of_raised hall hordinary hf hread
    unfold RuleText.Draft.toRule at hrule
    rw [hfreq] at hrule
    cases bound with
    | none => exact failsOnly_ok _
    | some u => exact (Rule.ofParts_failsOnly (Rule.isWithinMachine_given hrule hwithin)).map

end Rules

/-- An ordinary rule is read or refused. -/
theorem parse_failsOnly {value : Text} (hordinary : ∀ all ∈ (parts value).toOption, IsOrdinary all)
    (start : Moment) (clock : Clock) : FailsOnly Fault.IsUnreadable (parse value start clock) := by
  cases hall : parts value with
  | error e =>
    have hparse : parse value start clock = .error e := by
      unfold parse
      rw [hall]
      rfl
    rw [hparse]
    exact failsOnly_error (parts_failsOnly value e hall)
  | ok all =>
    have hall' := hordinary all (mem_toOption.mpr hall)
    rw [parse_eq hall]
    split
    · exact failsOnly_error ⟨_, rfl⟩
    · next f hf =>
      refine FailsOnly.bind (positive_failsOnly ?_) fun interval _ => FailsOnly.bind ?_ fun count _ =>
        FailsOnly.bind ?_ fun bound _ => ?_
      · cases hv : part? all "INTERVAL" with
        | none => exact fun _ _ => by decide
        | some v => exact fun n hn => hall'.numerals "INTERVAL" (by decide) v hv n hn
      · unfold countOf
        split
        · next v hv =>
          exact (positive_failsOnly fun n hn => hall'.numerals "COUNT" (by decide) v hv n hn).map
        · exact failsOnly_ok _
      · unfold boundOf
        split
        · exact (Instant.parse_failsOnly _ _).map
        · exact failsOnly_ok _
      · unfold assemble
        split
        · exact failsOnly_error ⟨_, rfl⟩
        · exact (refuse_failsOnly value (rules_failsOnly hall hall' hf bound)).bind
            fun _ _ => failsOnly_ok _

end Component

/-! ## Calendar texts -/

theorem Property.ofEvent_failsOnly (text : Text) : FailsOnly Fault.IsUnreadable (ofEvent text) := by
  have hline : ∀ line, FailsOnly Fault.IsUnreadable (ofLine line) := by
    intro line
    unfold ofLine
    split
    · exact failsOnly_error ⟨_, rfl⟩
    · split <;> exact failsOnly_ok _
  have hlines : ∀ (lines : List Text) (opened : List Text),
      FailsOnly Fault.IsUnreadable (ofLines opened lines) := by
    intro lines
    induction lines with
    | nil => exact fun _ => failsOnly_ok _
    | cons line rest ih =>
      intro opened
      unfold ofLines
      split
      · next e he => exact failsOnly_error (hline line e he)
      · split_ifs
        · exact ih _
        · exact failsOnly_ok _
        · exact ih _
        · split
          · exact failsOnly_ok _
          · next e he => exact failsOnly_error (ih _ e he)
        · exact ih _
  exact hlines _ []

namespace Descriptor

/-- A reading fails in certain ways only if both of its steps do. -/
theorem failsOnly_run_bind {α β : Type} {P : Fault → Prop} {x : Reading α} {f : α → Reading β}
    (hx : FailsOnly P x.run.value)
    (hf : ∀ a, x.run.value = .ok a → FailsOnly P (f a).run.value) :
    FailsOnly P (x >>= f).run.value := by
  show FailsOnly P (Traced.andThen x.run (ExceptT.bindCont f)).value
  unfold Traced.andThen
  cases hvalue : x.run.value with
  | error e => exact failsOnly_error (hx e hvalue)
  | ok a => exact hf a hvalue

/-- Whether a name is that of a group of zones. -/
def namesGroup (name : Text) : Bool :=
  match Zone.find name with
  | .folder => true
  | _ => false

theorem loadZone_failsOnly {name : Text} (h : namesGroup name = false) :
    FailsOnly Fault.IsUnreadable (Instant.loadZone name) := by
  unfold namesGroup at h
  unfold Instant.loadZone
  cases hfind : Zone.find name with
  | found z => exact failsOnly_ok z
  | folder =>
    rw [hfind] at h
    cases h
  | unknown => exact failsOnly_error ⟨_, rfl⟩

/-- What keeps the reading of a calendar text with some properties from breaking off. -/
structure IsOrdinary (properties : List Property) (zoneName : Option Text) : Prop where
  named : ∀ name ∈ zoneName, namesGroup name = false
  zones : ∀ p ∈ properties, ∀ name ∈ p.parameter? "TZID", namesGroup name = false
  start : ∀ p ∈ properties, p.isNamed "DTSTART" → ∀ zone ∈ (zoneOf zoneName p).toOption, ∀ z ∈ zone,
    ∀ m ∈ (Instant.parse p.value (.zoned z)).toOption, (m.on? (.zoned z)).isSome
  rules : ∀ p ∈ properties, p.isNamed "RRULE" → ∀ all ∈ (Component.parts p.value).toOption,
    Component.IsOrdinary all

instance (properties : List Property) (zoneName : Option Text) :
    Decidable (IsOrdinary properties zoneName) :=
  decidable_of_iff (_ ∧ _ ∧ _ ∧ _) ⟨fun ⟨h₁, h₂, h₃, h₄⟩ => ⟨h₁, h₂, h₃, h₄⟩,
    fun ⟨h₁, h₂, h₃, h₄⟩ => ⟨h₁, h₂, h₃, h₄⟩⟩

section Properties

variable {p : Property} {clock : Clock}

theorem moments_failsOnly (h : ∀ name ∈ p.parameter? "TZID", namesGroup name = false) :
    FailsOnly Fault.IsUnreadable (moments p clock).run.value := by
  unfold moments
  have hread : ∀ clock' : Clock, FailsOnly Fault.IsUnreadable
      (((Text.pieces ',' p.value).filter fun v => !Text.allBlank v).mapM
        (Instant.parse · clock')) :=
    fun clock' => FailsOnly.mapM fun v _ => Instant.parse_failsOnly v clock'
  split
  · exact failsOnly_run_bind (failsOnly_ok _) fun _ _ => failsOnly_ok _
  · dsimp only
    split
    · next name hname =>
      exact failsOnly_run_bind (loadZone_failsOnly (h name hname)).map fun clock' _ => hread clock'
    · exact hread clock

theorem dateLists_failsOnly {ps : List Property}
    (h : ∀ p ∈ ps, ∀ name ∈ p.parameter? "TZID", namesGroup name = false) :
    FailsOnly Fault.IsUnreadable (dateLists clock ps).run.value := by
  induction ps with
  | nil => exact failsOnly_ok _
  | cons p rest ih =>
    obtain ⟨hp, hrest⟩ := List.forall_mem_cons.mp h
    unfold dateLists
    split
    · exact failsOnly_run_bind (moments_failsOnly hp) fun _ _ =>
        failsOnly_run_bind (ih hrest) fun _ _ => failsOnly_ok _
    · split
      · exact failsOnly_run_bind (moments_failsOnly hp) fun _ _ =>
          failsOnly_run_bind (ih hrest) fun _ _ => failsOnly_ok _
      · exact ih hrest

theorem zoneOf_failsOnly {zoneName : Option Text} (hname : ∀ name ∈ zoneName, namesGroup name = false)
    (hp : ∀ name ∈ p.parameter? "TZID", namesGroup name = false) :
    FailsOnly Fault.IsUnreadable (zoneOf zoneName p) := by
  unfold zoneOf
  split
  · exact (loadZone_failsOnly (hname _ rfl)).map
  · next name _ h => exact (loadZone_failsOnly (hp name h)).map
  · exact failsOnly_ok _

theorem startOf_failsOnly {value : Text} {zone : Option Zone}
    (h : ∀ z ∈ zone, ∀ m, Instant.parse value (.zoned z) = .ok m → (m.on? (.zoned z)).isSome) :
    FailsOnly Fault.IsUnreadable (startOf value zone) := by
  refine (Instant.parse_failsOnly _ _).bind fun m hm => ?_
  cases zone with
  | none => exact failsOnly_ok _
  | some z =>
    obtain ⟨n, hn⟩ := Option.isSome_iff_exists.mp (h z rfl m hm)
    dsimp only
    rw [hn]
    exact failsOnly_ok _

end Properties

/-- The rules of a schedule that can be read. -/
def readable (start : Moment) (clock : Clock) (rules : List Property) : List Component :=
  rules.filterMap fun p => (Component.parse p.value start clock).toOption

/-- Rules are kept in order, those dropped that are refused. -/
theorem readComponents_eq {start : Moment} {clock : Clock} {rules : List Property}
    {cs : List Component} (h : (readComponents start clock rules).run.value = .ok cs) :
    cs = readable start clock rules := by
  unfold readable
  induction rules generalizing cs with
  | nil =>
    cases h
    rfl
  | cons p rest ih =>
    unfold readComponents at h
    split at h
    · next c hc =>
      obtain ⟨more, hmore, h⟩ := run_bind_eq_ok_iff.mp h
      cases h
      rw [List.filterMap_cons, hc, ih hmore]
      rfl
    · next why hwhy =>
      obtain ⟨_, -, h⟩ := run_bind_eq_ok_iff.mp h
      rw [List.filterMap_cons, hwhy, ih h]
      rfl
    · cases h

theorem readComponents_failsOnly {start : Moment} {clock : Clock} {rules : List Property}
    (h : ∀ p ∈ rules, ∀ all ∈ (Component.parts p.value).toOption, Component.IsOrdinary all) :
    FailsOnly Fault.IsUnreadable (readComponents start clock rules).run.value := by
  induction rules with
  | nil => exact failsOnly_ok _
  | cons p rest ih =>
    obtain ⟨hp, hrest⟩ := List.forall_mem_cons.mp h
    unfold readComponents
    split
    · exact failsOnly_run_bind (ih hrest) fun _ _ => failsOnly_ok _
    · exact failsOnly_run_bind (failsOnly_ok _) fun _ _ => ih hrest
    · next e he hnot =>
      obtain ⟨why, rfl⟩ := Component.parse_failsOnly hp start clock e hnot
      exact absurd rfl (he why)

/-- The components of a schedule are its rules that can be read, or the single date of one without
rules. -/
theorem components_of_parse {text : Text} {zoneName : Option Text} {d : Descriptor}
    (h : (parse text zoneName).run.value = .ok d) :
    ∃ properties, Property.ofEvent text = .ok properties ∧
      d.components = if (ruleProperties properties).isEmpty then [Component.once]
        else readable d.start (clockOf d.zone) (ruleProperties properties) := by
  obtain ⟨properties, _, kept, hproperties, -, -, -, hkept, hcomponents, -⟩ := steps_of_parse h
  exact ⟨properties, hproperties, readComponents_eq hkept ▸ hcomponents⟩

/-- The reading of an ordinary text fails only if the text is refused. -/
theorem parse_failsOnly {text : Text} {zoneName : Option Text}
    (hordinary : ∀ properties ∈ (Property.ofEvent text).toOption, IsOrdinary properties zoneName) :
    FailsOnly Fault.IsUnreadable (parse text zoneName).run.value := by
  unfold parse
  refine failsOnly_run_bind (Property.ofEvent_failsOnly text) fun properties hproperties => ?_
  have hordinary := hordinary properties (mem_toOption.mpr hproperties)
  cases hp : properties.find? (·.isNamed "DTSTART") with
  | none => exact failsOnly_error ⟨_, rfl⟩
  | some p =>
    have hmem := List.mem_of_find?_eq_some hp
    have hnamed := List.find?_some hp
    refine failsOnly_run_bind (zoneOf_failsOnly hordinary.named (hordinary.zones p hmem))
      fun zone hzone => failsOnly_run_bind (startOf_failsOnly fun z hz m hm => ?_)
      fun start _ => failsOnly_run_bind (readComponents_failsOnly fun q hq => ?_)
      fun kept _ => ?_
    · exact hordinary.start p hmem hnamed zone (mem_toOption.mpr hzone) z hz m (mem_toOption.mpr hm)
    · obtain ⟨hq, hrule⟩ := List.mem_filter.mp hq
      exact hordinary.rules q hq hrule
    · have hlists : FailsOnly Fault.IsUnreadable (dateLists (clockOf zone) properties).run.value :=
        dateLists_failsOnly hordinary.zones
      dsimp only
      split
      · exact failsOnly_run_bind (x := lift (.error (.unreadable (.noValidRule text))))
          (failsOnly_error ⟨_, rfl⟩) fun _ h => nomatch h
      · refine failsOnly_run_bind hlists fun lists _ => ?_
        exact failsOnly_run_bind (failsOnly_ok ()) fun _ _ => failsOnly_ok _

/-- A refused text has no next occurrence. -/
theorem next_of_refused {text : Text} {zoneName : Option Text} {why : Unreadable}
    (h : (parse text zoneName).run.value = .error (.unreadable why)) {offset : Int}
    (hoffset : 0 ≤ offset) (now : Moment) :
    (Schedule.next text zoneName offset now).run.value = .ok none := by
  unfold Schedule.next
  rw [if_neg (not_lt.mpr hoffset), ExceptT.run_mk, Traced.value_bind, h]
  rfl

end Descriptor

end ScanPolicy
