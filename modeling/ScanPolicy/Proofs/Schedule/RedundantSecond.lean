import ScanPolicy.Proofs.Schedule.Exclusion
import ScanPolicy.Proofs.Schedule.PlainWalk

/-!
# Schedules with a redundant second

A rule text of a frequency, an interval and an end is that of a plain rule. With the
second of the start as one more part it is read as a rule with an expanding part, and its
dates come from a walk. In universal time no answer changes, unless the dates go on up to
the last week of the calendar.

- `Component.parts_withSecond`: the parts of such a text.
- `Component.parse_withSecond`: the component that it gives.
- `Descriptor.parse_withSecond`: the schedule that it gives.
- `Descriptor.next_withSecond`: the next occurrences of the schedule.
-/

namespace ScanPolicy

/-- A rule to which only the second of its anchor is given is valid. -/
theorem Rule.exists_ofParts_ofSecond (f : Frequency) (anchor : Moment) (interval weekStart : Nat)
    (count : Option Nat) (bound : Option Moment) :
    ∃ r, ofParts f anchor interval weekStart count bound (.ofSecond anchor.wall.second) = .ok r := by
  obtain ⟨hhour, hminute, -⟩ := anchor.wall.wholeSecond.hour_minute_spec
  have hcheck : TimeOfDay.check anchor.wall.wholeSecond.hour anchor.wall.wholeSecond.minute
      anchor.wall.second = .ok ⟨anchor.wall.wholeSecond.hour, anchor.wall.wholeSecond.minute,
        anchor.wall.second⟩ :=
    TimeOfDay.check_eq_ok_iff.mpr
      ⟨⟨hhour, hminute, anchor.wall.timeOfDay_isValid.second_lt⟩, rfl, rfl, rfl⟩
  have hpositions : ((Parts.ofSecond anchor.wall.second).positions.getD []).all isPosition := rfl
  obtain ⟨times, htimes⟩ : ∃ times, dayTimesOf f
      (if f.isSubDaily then [] else [(anchor.wall.wholeSecond.hour : Int)])
      (if f == .minutely then [] else [(anchor.wall.wholeSecond.minute : Int)])
      [(anchor.wall.second : Int)] = .ok times := by
    unfold dayTimesOf
    split
    · exact ⟨_, rfl⟩
    · next hlong =>
      have hminutely : ¬ (f == .minutely) = true := by
        intro heq
        rw [beq_iff_eq] at heq
        exact hlong (heq ▸ rfl)
      rw [if_neg hminutely]
      exact ⟨_, timesOf_singleton hcheck⟩
  rw [ofParts_eq, if_pos hpositions]
  exact ⟨_, bind_eq_ok_iff.mpr ⟨_, rfl, bind_eq_ok_iff.mpr ⟨_, rfl,
    bind_eq_ok_iff.mpr ⟨times, htimes, rfl⟩⟩⟩⟩

namespace Component

/-! ## The part of the second -/

/-- The part of a rule text that gives a second. -/
def secondPart (second : Nat) : Text := "BYSECOND".toList ++ '=' :: Text.ofNat second

/-- The part of a second by its name. -/
def secondPair (second : Nat) : Text × Text := ("BYSECOND".toList, Text.ofNat second)

theorem ofNat_second_spec : ∀ s < 60, (Text.ofNat s).all Char.isDigit = true ∧
    RuleText.ints? (Text.ofNat s) = some [(s : Int)] := by
  decide +kernel

/-- The names of the parts of a plain rule. -/
def plainNames : List Text := ["FREQ", "INTERVAL", "COUNT", "UNTIL"].map String.toList

section Parts

variable {value : Text} {all : List (Text × Text)} {second : Nat} (hsecond : second < 60)

include hsecond

/-- The text with the second has the part of the second in the last place. -/
theorem parts_withSecond (hall : parts value = .ok all)
    (hnot : "BYSECOND".toList ∉ all.map Prod.fst) :
    parts (value ++ ';' :: secondPart second) =
      .ok (all ++ [secondPair second]) := by
  obtain ⟨hdigits, -⟩ := ofNat_second_spec second hsecond
  have hsep : ';' ∉ secondPart second := by
    intro hmem
    unfold secondPart at hmem
    rcases List.mem_append.mp hmem with hmem | hmem
    · exact absurd hmem (by decide)
    rcases List.mem_cons.mp hmem with hmem | hmem
    · exact absurd hmem (by decide)
    · exact Text.not_mem_of_all_isDigit hdigits (by decide) hmem
  have hcut : Text.cut '=' (secondPart second) = ("BYSECOND".toList, some (Text.ofNat second)) :=
    Text.cut_append (by decide) _
  have htrim : Text.trim (Text.ofNat second) = Text.ofNat second :=
    Text.trim_of_noBlank fun c hc => Text.isBlank_of_isDigit (List.all_eq_true.mp hdigits c hc)
  have hname : Text.upper (Text.trim "BYSECOND".toList) = "BYSECOND".toList := by decide
  have happend := parts_append hall hsep hcut (hname.symm ▸ hnot)
  rw [hname, htrim] at happend
  exact happend

/-- How the part of the second is read. -/
theorem addPart_second (draft : RuleText.Draft) :
    RuleText.addPart draft ("BYSECOND".toList ++ '=' :: Text.ofNat second) =
      .ok { draft with parts := { draft.parts with seconds := some [(second : Int)] } } := by
  obtain ⟨hdigits, hints⟩ := ofNat_second_spec second hsecond
  have hsep : '=' ∉ Text.ofNat second := Text.not_mem_of_all_isDigit hdigits (by decide)
  unfold RuleText.addPart
  rw [Text.pieces_append, Text.pieces_of_not_mem (by decide), Text.pieces_of_not_mem hsep]
  have hset : RuleText.setPart? (String.ofList "BYSECOND".toList) (Text.ofNat second) draft =
      some (some { draft with parts := { draft.parts with seconds := some [(second : Int)] } }) := by
    rw [String.ofList_toList]
    show some ((RuleText.ints? (Text.ofNat second)).map _) = _
    rw [hints]
    rfl
  rw [List.singleton_append]
  dsimp only
  rw [hset]

end Parts

/-! ## The component -/

section Read

variable {value : Text} {start : Moment} {clock : Clock} {all : List (Text × Text)} {c : Component}

/-- The names of plain rules set no weekday on which weeks start, and no expanding parts. -/
theorem reads_plain {draft : RuleText.Draft} {ps : List (Text × Text)}
    (h : RuleText.Reads {} ps draft) (hplain : ∀ p ∈ ps, p.1 ∈ plainNames) :
    draft.weekStart = 0 ∧ draft.parts = {} := by
  have hname : ∀ {n : String}, n.toList ∈ ps.map Prod.fst →
      n ∈ ["FREQ", "INTERVAL", "COUNT", "UNTIL"] := by
    intro n hn
    obtain ⟨p, hp, heq⟩ := List.mem_map.mp hn
    have hmem := hplain p hp
    rw [heq] at hmem
    obtain ⟨n', hn', hlist⟩ := List.mem_map.mp hmem
    rwa [← String.toList_injective hlist]
  have hweekdays : ∀ n ∈ RuleText.weekdaysNames, n ∉ ["FREQ", "INTERVAL", "COUNT", "UNTIL"] := by
    decide
  have hints : ∀ entry ∈ RuleText.intLists,
      entry.1 ∉ ["FREQ", "INTERVAL", "COUNT", "UNTIL"] := by
    simp [RuleText.intLists]
  have hframe : ∀ {value : Text} {d d' : RuleText.Draft} {n : String}, RuleText.Sets value d n d' →
      n.toList ∈ ps.map Prod.fst → n ≠ "WKST" → (d'.weekStart, d'.parts) = (d.weekStart, d.parts) := by
    intro value d d' n hsets hmem hn
    cases hsets with
    | weekStart _ => exact absurd rfl hn
    | weekdays hset => exact absurd (hname hmem) (hweekdays _ hset)
    | ints hset _ => exact absurd (hname hmem) (hints _ hset)
    | _ => rfl
  have hnot : "WKST".toList ∉ ps.map Prod.fst := fun hmem => absurd (hname hmem) (by decide)
  exact Prod.mk.inj (h.field_of_not_mem hframe hnot)

/-- Whether a text in upper case has neither blanks nor colons. -/
def IsPlainWord (t : Text) : Prop := ∀ ch ∈ Text.upper t, Text.isBlank ch = false ∧ ch ≠ ':'

theorem isPlainWord_of_upper {t u : Text} (h : Text.upper t = u)
    (hu : (u.all fun ch => !Text.isBlank ch && ch != ':') = true) : IsPlainWord t := by
  intro ch hch
  rw [h] at hch
  simpa using List.all_eq_true.mp hu ch hch

theorem isPlainWord_of_digits {t : Text} (h : t.all Char.isDigit = true) : IsPlainWord t := by
  intro ch hch
  rw [Text.upper_of_all_isDigit h] at hch
  exact ⟨Text.isBlank_of_isDigit (List.all_eq_true.mp h ch hch), fun hcolon =>
    Text.not_mem_of_all_isDigit h (by decide) (hcolon ▸ hch)⟩

theorem isOneWord_of_isPlainWord {ps : List (Text × Text)}
    (h : ∀ p ∈ ps, IsPlainWord p.1 ∧ IsPlainWord p.2) : IsOneWord ps := by
  intro ch hch
  rcases mem_joinParts hch with rfl | rfl | ⟨q, hq, hmem⟩
  · decide
  · decide
  · obtain ⟨p, hp, rfl⟩ := List.mem_map.mp hq
    exact hmem.elim ((h p hp).1 ch) ((h p hp).2 ch)

/-- The names and the values of a plain rule are words. -/
theorem isPlainWord_of_isRead (hall : parts value = .ok all) (hread : IsRead start clock all c)
    (hplain : ∀ p ∈ all, p.1 ∈ plainNames) :
    ∀ p ∈ withoutUntil all, IsPlainWord p.1 ∧ IsPlainWord p.2 := by
  rintro ⟨key, v⟩ hp
  have hmem := mem_of_mem_withoutUntil hp
  have hnames : ∀ name ∈ plainNames, Text.upper name = name ∧
      (name.all fun ch => !Text.isBlank ch && ch != ':') = true := by
    decide
  obtain ⟨hupper, hword⟩ := hnames key (hplain _ hmem)
  refine ⟨isPlainWord_of_upper hupper hword, ?_⟩
  obtain ⟨name, hname, rfl⟩ := List.mem_map.mp (hplain _ hmem)
  have hv : part? all name = some v := part?_of_mem (parts_spec hall).1 hmem
  simp only [List.mem_cons, List.not_mem_nil, or_false] at hname
  rcases hname with rfl | rfl | rfl | rfl
  · obtain ⟨f, -, hf⟩ := hread.freq_eq
    rw [hv] at hf
    unfold Frequency.ofName? at hf
    have hvalue := List.find?_some hf
    rw [beq_iff_eq] at hvalue
    exact isPlainWord_of_upper hvalue.symm (by cases f <;> decide)
  · have hinterval := hread.interval_eq
    rw [hv] at hinterval
    exact isPlainWord_of_digits (Text.all_isDigit_of_asciiNat? (positive_of_ok hinterval).2.1)
  · have hcount := hread.count_eq
    unfold countOf at hcount
    rw [hv] at hcount
    obtain ⟨n, hn, -⟩ := map_eq_ok_iff.mp hcount
    exact isPlainWord_of_digits (Text.all_isDigit_of_asciiNat? (positive_of_ok hn).2.1)
  · -- the last moment is not read with the rule
    have huntil := (List.mem_filter.mp hp).2
    simp at huntil

/-- What the parts of a plain rule are read as: the fields of its component and nothing else. -/
theorem exists_draft (hall : parts value = .ok all) (hread : IsRead start clock all c)
    (hplain : ∀ p ∈ all, p.1 ∈ plainNames) :
    ∃ f draft, c.freq = some f ∧
      Frequency.ofName? (Text.upper ((part? all "FREQ").getD [])) = some f ∧
      ((raised (withoutUntil all)).map fun (k, v) => k ++ '=' :: v).foldlM RuleText.addPart {} =
        .ok draft ∧
      draft.freq = some f ∧ draft.interval = c.interval ∧ draft.count.map Int.toNat = c.count ∧
      draft.weekStart = 0 ∧ draft.parts = {} := by
  obtain ⟨hnodup, hcut⟩ := parts_spec hall
  have hcut : ∀ p ∈ withoutUntil all, IsCut value p := fun p hp => hcut p (mem_of_mem_withoutUntil hp)
  obtain ⟨f, hf, hname⟩ := hread.freq_eq
  obtain ⟨rules, read, -, hrules, -⟩ := hread.rules_eq
  obtain ⟨v, hv⟩ := exists_freq_part hname
  have hne : withoutUntil all ≠ [] := List.ne_nil_of_mem (mem_withoutUntil (by decide) hv)
  have hwords := isPlainWord_of_isRead hall hread hplain
  change RuleText.read start (joinParts (withoutUntil all)) = _ at hrules
  rw [read_eq_of_isOneWord hne hcut (isOneWord_of_isPlainWord hwords)] at hrules
  obtain ⟨rule, hrule, -⟩ := map_eq_ok_iff.mp hrules
  obtain ⟨draft, hdraft, -⟩ := bind_eq_ok_iff.mp hrule
  have hreads := reads_of_raised hcut hdraft
  have hupper := upper_name_of_reads hcut hreads
  obtain ⟨hweek, hparts⟩ := reads_plain hreads fun p hp => by
    obtain ⟨q, hq, rfl⟩ := List.mem_map.mp hp
    show Text.upper q.1 ∈ plainNames
    rw [hupper q hq]
    exact hplain q (mem_of_mem_withoutUntil hq)
  exact ⟨f, draft, hf, hname, hdraft, freq_of_reads hnodup hupper hreads hname,
    interval_of_reads hnodup hupper hreads hread.interval_eq,
    count_of_reads hnodup hupper hreads hread.count_eq, hweek, hparts⟩

theorem not_mem_second (hplain : ∀ p ∈ all, p.1 ∈ plainNames) :
    "BYSECOND".toList ∉ all.map Prod.fst := by
  intro hmem
  obtain ⟨p, hp, heq⟩ := List.mem_map.mp hmem
  exact absurd (heq ▸ hplain p hp) (by decide)

/-- The part of the second is not the last moment, and it is the same in upper case. -/
theorem withoutUntil_append_second (all : List (Text × Text)) (second : Nat) :
    withoutUntil (all ++ [secondPair second]) = withoutUntil all ++ [secondPair second] := by
  unfold withoutUntil
  rw [List.filter_append]
  rfl

theorem raised_append_second (ps : List (Text × Text)) {second : Nat} (hsecond : second < 60) :
    raised (ps ++ [secondPair second]) = raised ps ++ [secondPair second] := by
  have hupper : Text.upper "BYSECOND".toList = "BYSECOND".toList := by decide
  unfold raised secondPair
  rw [List.map_append, List.map_singleton]
  dsimp only
  rw [hupper, Text.upper_of_all_isDigit (ofNat_second_spec _ hsecond).1]

/-- The parts of a plain rule and the second of the start give one rule, which takes everything else
from the start. -/
theorem read_withSecond (hall : parts value = .ok all) (hread : IsRead start clock all c)
    (hplain : ∀ p ∈ all, p.1 ∈ plainNames) :
    ∃ f rule, c.freq = some f ∧
      Frequency.ofName? (Text.upper ((part? all "FREQ").getD [])) = some f ∧
      Rule.ofParts f start c.interval 0 c.count none (.ofSecond start.wall.second) = .ok rule ∧
      RuleText.read start (joinParts (withoutUntil (all ++ [secondPair start.wall.second]))) =
        .ok (.single rule) := by
  have hsecond : start.wall.second < 60 := start.wall.timeOfDay_isValid.second_lt
  obtain ⟨f, draft, hf, hname, hdraft, hfreq, hinterval, hcount, hweek, hparts⟩ :=
    exists_draft hall hread hplain
  obtain ⟨rule, hrule⟩ := Rule.exists_ofParts_ofSecond f start c.interval 0 c.count none
  refine ⟨f, rule, hf, hname, hrule, ?_⟩
  have hcut : ∀ p ∈ withoutUntil (all ++ [secondPair start.wall.second]), IsCut _ p := fun p hp =>
    (parts_spec (parts_withSecond hsecond hall (not_mem_second hplain))).2 p
      (mem_of_mem_withoutUntil hp)
  have hwords : ∀ p ∈ withoutUntil (all ++ [secondPair start.wall.second]),
      IsPlainWord p.1 ∧ IsPlainWord p.2 := by
    intro p hp
    rw [withoutUntil_append_second] at hp
    rcases List.mem_append.mp hp with hp | hp
    · exact isPlainWord_of_isRead hall hread hplain p hp
    · rw [List.mem_singleton.mp hp]
      have hupper : Text.upper "BYSECOND".toList = "BYSECOND".toList := by decide
      exact ⟨isPlainWord_of_upper hupper (by decide),
        isPlainWord_of_digits (ofNat_second_spec _ hsecond).1⟩
  have hne : withoutUntil (all ++ [secondPair start.wall.second]) ≠ [] := by
    rw [withoutUntil_append_second]
    exact List.append_ne_nil_of_right_ne_nil _ (List.cons_ne_nil _ _)
  have htoRule : RuleText.Draft.toRule { draft with
      parts := { draft.parts with seconds := some [(start.wall.second : Int)] } } start =
        .ok rule := by
    unfold RuleText.Draft.toRule
    dsimp only
    rw [hfreq, hinterval, hweek, hcount, hparts]
    exact hrule
  rw [read_eq_of_isOneWord hne hcut (isOneWord_of_isPlainWord hwords), withoutUntil_append_second,
    raised_append_second _ hsecond, List.map_append, List.foldlM_append, hdraft]
  show Rules.single <$> ((RuleText.addPart draft ("BYSECOND".toList ++ '=' ::
    Text.ofNat start.wall.second) >>= pure) >>= fun d => d.toRule start) = _
  rw [addPart_second hsecond]
  exact congrArg (Rules.single <$> ·) htoRule

/-- A plain rule has no expanding parts. -/
theorem filter_plainNames (hplain : ∀ p ∈ all, p.1 ∈ plainNames) :
    ((withoutUntil all).map Prod.fst).filter (Text.startsWith "BY".toList) = [] := by
  refine List.filter_eq_nil_iff.mpr fun key hkey => ?_
  obtain ⟨p, hp, rfl⟩ := List.mem_map.mp hkey
  have hnames : ∀ name ∈ plainNames, ¬ Text.startsWith "BY".toList name = true := by decide
  exact hnames _ (hplain p (mem_of_mem_withoutUntil hp))

/-- A component has a count or a last moment, but not both. -/
theorem not_both_of_parse (h : parse value start clock = .ok c) :
    ¬ (c.count.isSome && c.bound.isSome) = true := by
  intro hboth
  obtain ⟨all, hall, hread⟩ := isRead_of_parse h
  obtain ⟨f, -, hname⟩ := hread.freq_eq
  rw [parse_eq hall, hname] at h
  obtain ⟨interval, -, h⟩ := bind_eq_ok_iff.mp h
  obtain ⟨count, hcount, h⟩ := bind_eq_ok_iff.mp h
  obtain ⟨bound, hbound, h⟩ := bind_eq_ok_iff.mp h
  obtain rfl : c.count = count := Except.ok.inj (hread.count_eq.symm.trans hcount)
  obtain rfl : c.bound = bound := Except.ok.inj (hread.bound_eq.symm.trans hbound)
  unfold assemble at h
  rw [if_pos hboth] at h
  cases h

/-- A rule text of a plain rule with the second of the start gives the component with the part of the
second, and the rule that takes everything else from the start. -/
theorem parse_withSecond (hall : parts value = .ok all) (hplain : ∀ p ∈ all, p.1 ∈ plainNames)
    (hwhole : start.wall.ticks % Span.second = 0) (hparse : parse value start clock = .ok c) :
    ∃ f r, parse (value ++ ';' :: secondPart start.wall.second) start clock =
        .ok { c with expanders := ["BYSECOND".toList], rules := some (.single r) } ∧
      GivesSecond { c with expanders := ["BYSECOND".toList], rules := some (.single r) } start f r := by
  obtain ⟨all', hall', hread⟩ := isRead_of_parse hparse
  obtain rfl : all = all' := Except.ok.inj (hall.symm.trans hall')
  obtain ⟨f, rule, hf, hname, hrule, hreadSecond⟩ := read_withSecond hall hread hplain
  have hsecond : start.wall.second < 60 := start.wall.timeOfDay_isValid.second_lt
  have hparts := parts_withSecond hsecond hall (not_mem_second hplain)
  have hzero : Rule.NoZero f (.ofSecond start.wall.second) := fun _ ds hds => nomatch hds
  have hbound := withBound_eq hrule hzero.keepsDays c.bound
  have hexpanders : ((withoutUntil (all ++ [secondPair start.wall.second])).map Prod.fst).filter
      (Text.startsWith "BY".toList) = ["BYSECOND".toList] := by
    rw [withoutUntil_append_second, List.map_append, List.filter_append, filter_plainNames hplain,
      List.nil_append]
    rfl
  refine ⟨f, { rule with bound := c.bound }, ?_, hf, (positive_of_ok hread.interval_eq).1, rfl,
    hwhole, ?_⟩
  · have hother : ∀ {name : String}, name.toList ≠ "BYSECOND".toList →
        part? (all ++ [secondPair start.wall.second]) name = part? all name :=
      fun hne => part?_append_of_ne all _ hne
    have hcount : countOf (all ++ [secondPair start.wall.second]) = .ok c.count := by
      unfold countOf
      rw [hother (by decide)]
      exact hread.count_eq
    have hbound' : boundOf (all ++ [secondPair start.wall.second]) clock = .ok c.bound := by
      unfold boundOf
      rw [hother (by decide)]
      exact hread.bound_eq
    have hparse' := parse_of_parts hparts (by rw [hother (by decide)]; exact hname)
      (by rw [hother (by decide)]; exact hread.interval_eq) hcount hbound'
      (not_both_of_parse hparse) hreadSecond hbound
    rw [hparse', show List.filter _ (List.map Prod.fst (List.filter _ _)) = _ from hexpanders, hf]
  · exact Rule.ofParts_withBound hrule c.bound

end Read

/-- The dates of a component do not depend on its expanding parts and its rules. -/
theorem gives_withRules {c : Component} {start : Moment} {expanders : List Text}
    {rules : Option Rules} {index : Nat} {m : Moment} :
    Gives { c with expanders, rules } start index m ↔ c.Gives start index m :=
  ⟨fun h => ⟨h.inCount, h.isOccurrence, h.inBound⟩, fun h => ⟨h.inCount, h.isOccurrence, h.inBound⟩⟩

end Component

/-! ## The text -/

namespace Property

/-- The same property, or one rule in the place of another. -/
def SameButRule (p p' : Property) : Prop :=
  p' = p ∨ p.isNamed "RRULE" = true ∧ p'.isNamed "RRULE" = true

/-- A rule property with one more part; the other properties stay as they are. -/
def withPart (part : Text) (p : Property) : Property :=
  if p.isNamed "RRULE" then { p with value := p.value ++ ';' :: part } else p

variable {part : Text} {p : Property}

theorem withPart_of_rule (h : p.isNamed "RRULE" = true) :
    p.withPart part = { p with value := p.value ++ ';' :: part } := if_pos h

theorem withPart_of_other (h : p.isNamed "RRULE" = false) : p.withPart part = p :=
  if_neg (Bool.eq_false_iff.mp h)

theorem isNamed_withPart (part : Text) (p : Property) (name : String) :
    (p.withPart part).isNamed name = p.isNamed name := by
  unfold withPart
  split <;> rfl

theorem sameButRule_withPart (part : Text) (p : Property) : p.SameButRule (p.withPart part) := by
  by_cases h : p.isNamed "RRULE" = true
  · exact .inr ⟨h, by rw [isNamed_withPart]; exact h⟩
  · exact .inl (withPart_of_other (Bool.eq_false_iff.mpr h))

end Property

/-- A source with another component in the place of its own. -/
def Source.replaced (c : Component) : Source → Source
  | .rule _ => .rule c
  | .dates => .dates

namespace Descriptor

section SameButRule

variable {ps ps' : List Property} (h : List.Forall₂ Property.SameButRule ps ps')

include h

/-- A rule property lists no dates. -/
theorem dateLists_of_sameButRule (clock : Clock) : dateLists clock ps' = dateLists clock ps := by
  induction h with
  | nil => rfl
  | @cons p p' _ _ hp _ ih =>
    unfold dateLists
    rcases hp with rfl | ⟨hrule, hrule'⟩
    · rw [ih]
    · have hother : ∀ {q : Property} (name : String), q.isNamed "RRULE" = true →
          name.toList ≠ "RRULE".toList → ¬ q.isNamed name = true :=
        fun _ hq hname => Bool.eq_false_iff.mp (Property.isNamed_of_ne hq hname)
      rw [if_neg (hother "RDATE" hrule (by decide)), if_neg (hother "EXDATE" hrule (by decide)),
        if_neg (hother "RDATE" hrule' (by decide)), if_neg (hother "EXDATE" hrule' (by decide)), ih]

theorem find?_of_sameButRule {name : String} (hne : name.toList ≠ "RRULE".toList) :
    ps'.find? (·.isNamed name) = ps.find? (·.isNamed name) := by
  induction h with
  | nil => rfl
  | cons hp _ ih =>
    rw [List.find?_cons, List.find?_cons, ih]
    rcases hp with rfl | ⟨hrule, hrule'⟩
    · rfl
    · rw [Property.isNamed_of_ne hrule hne, Property.isNamed_of_ne hrule' hne]

end SameButRule

/-- The text with one more part of its only rule gives the schedule with another component. -/
theorem parse_withPart {text text' : Text} {zoneName : Option Text} {d : Descriptor} {part : Text}
    {properties : List Property} {q : Property} {c c' : Component}
    (h : (parse text zoneName).run.value = .ok d)
    (hproperties : Property.ofEvent text = .ok properties)
    (hrules : ruleProperties properties = [q])
    (hc : Component.parse q.value d.start (clockOf d.zone) = .ok c)
    (hc' : Component.parse (q.value ++ ';' :: part) d.start (clockOf d.zone) = .ok c')
    (htext' : Property.ofEvent text' = .ok (properties.map (·.withPart part))) :
    d.components = [c] ∧
      (parse text' zoneName).run.value = .ok { d with components := [c'] } := by
  obtain ⟨_, p, kept, dates, excluded, hread, hp, hzone, hstart, hkept, -, hdates, hd⟩ :=
    parse_eq_ok_iff.mp h
  obtain rfl := Except.ok.inj (hproperties.symm.trans hread)
  have hq : q.isNamed "RRULE" = true := by
    have hmem : q ∈ ruleProperties properties := hrules ▸ List.mem_singleton_self q
    exact (List.mem_filter.mp hmem).2
  have hrules' : ruleProperties (properties.map (·.withPart part)) = [q.withPart part] := by
    unfold ruleProperties at hrules ⊢
    rw [List.filter_map, show ((·.isNamed "RRULE") ∘ fun p : Property => p.withPart part) =
      (·.isNamed "RRULE") from funext fun p => Property.isNamed_withPart part p _, hrules]
    rfl
  have hsame : List.Forall₂ Property.SameButRule properties (properties.map (·.withPart part)) :=
    List.forall₂_map_right_iff.mpr
      (List.forall₂_same.mpr fun p _ => Property.sameButRule_withPart part p)
  have hfind : (properties.map (·.withPart part)).find? (·.isNamed "DTSTART") = some p := by
    rw [find?_of_sameButRule hsame (by decide)]
    exact hp
  rw [hrules] at hkept hd
  have hcomponents : d.components = [c] := by
    unfold readComponents at hkept
    rw [hc] at hkept
    cases hkept
    rw [hd]
    rfl
  refine ⟨hcomponents, parse_eq_ok_iff.mpr ⟨_, p, [c'], dates, excluded, htext', hfind, hzone, hstart,
    ?_, ?_, ?_, ?_⟩⟩
  · rw [hrules']
    unfold readComponents
    rw [Property.withPart_of_rule hq]
    dsimp only
    rw [hc']
    rfl
  · rw [hrules']
    rfl
  · rw [dateLists_of_sameButRule hsame]
    exact hdates
  · rw [hrules']
    exact congrArg (fun d : Descriptor => { d with components := [c'] }) hd

/-! ## Relabelled sources -/

section Relabel

variable {d d' : Descriptor} {now : Moment} {g : Source → Source}

theorem candidates_relabel {ss : List Source}
    (h : ∀ s ∈ ss, (g s).nthAfter d' now 0 = s.nthAfter d now 0) :
    candidates d' now (ss.map g) =
      (candidates d now ss).map (List.map fun (m, s) => (m, g s)) := by
  induction ss with
  | nil => rfl
  | cons s rest ih =>
    obtain ⟨hs, hrest⟩ := List.forall_mem_cons.mp h
    unfold candidates
    rw [List.map_cons]
    dsimp only
    rw [hs, ih hrest]
    cases s.nthAfter d now 0 with
    | error e => rfl
    | ok first =>
      cases candidates d now rest with
      | error e => rfl
      | ok more =>
        show Except.ok _ = Except.ok _
        rw [List.map_append, List.map_map]
        rfl

theorem earliest_relabel (cs : List (Moment × Source)) :
    earliest (cs.map fun (m, s) => (m, g s)) = (earliest cs).map fun (m, s) => (m, g s) := by
  cases cs with
  | nil => rfl
  | cons c rest =>
    show some _ = some _
    rw [List.foldl_map]
    refine congrArg some (List.foldl_hom (fun c : Moment × Source => (c.1, g c.2)) fun best c => ?_)
    dsimp only
    split <;> rfl

/-- Schedules of which the sources give the same dates one by one have the same next occurrences. -/
theorem next_relabel (hsources : d'.sources = d.sources.map g)
    (h : ∀ s ∈ d.sources, ∀ k, (g s).nthAfter d' now k = s.nthAfter d now k) (k : Nat) :
    d'.next now k = d.next now k := by
  unfold next
  rw [if_neg (by omega), if_neg (by omega), hsources, candidates_relabel fun s hs => h s hs 0]
  cases hcs : candidates d now d.sources with
  | error e => rfl
  | ok cs =>
    dsimp only [Except.map, bind, Except.bind]
    rw [earliest_relabel]
    cases hbest : earliest cs with
    | none => rfl
    | some best =>
      obtain ⟨first, source⟩ := best
      have hmem := ((candidates_spec hcs).2 _ (earliest_mem hbest)).1
      dsimp only [Option.map_some]
      rw [h source hmem]

end Relabel

/-! ## The next occurrences -/

/-- The only rule of a text that gives a schedule is valid. -/
theorem component_of_only_rule {text : Text} {zoneName : Option Text} {d : Descriptor}
    {properties : List Property} {q : Property} (h : (parse text zoneName).run.value = .ok d)
    (hproperties : Property.ofEvent text = .ok properties)
    (hrules : ruleProperties properties = [q]) :
    ∃ c, Component.parse q.value d.start (clockOf d.zone) = .ok c := by
  obtain ⟨_, p, kept, dates, excluded, hread, -, -, -, hkept, hvalid, -⟩ := parse_eq_ok_iff.mp h
  obtain rfl := Except.ok.inj (hproperties.symm.trans hread)
  rw [hrules] at hkept hvalid
  unfold readComponents at hkept
  split at hkept
  · next c hc => exact ⟨c, hc⟩
  · cases hkept
    cases hvalid
  · cases hkept

/-- Excluded dates on the clock of a schedule in universal time are in universal time. -/
theorem excluded_foreign {text : Text} {zoneName : Option Text} {d : Descriptor}
    (h : (parse text zoneName).run.value = .ok d) (hutc : d.start.clock.IsUtc) :
    ∀ e ∈ d.excluded, e.clock.same d.start.clock = false ∨ e.clock.IsUtc := by
  intro e he
  cases hsame : e.clock.same d.start.clock with
  | false => exact .inl rfl
  | true =>
    have hknown := lists_isKnown h e (List.mem_append_right _ he)
    have hzone := zone_isKnown h
    rw [← start_clock h] at hzone
    rw [← hknown.eq_of_same hzone hsame]
    exact .inr hutc

/-- In universal time the second of the start as one more part of the only rule of a text changes no
answer, if the excluded dates are told by their instants and the dates do not go on up to the last
week of the calendar. -/
theorem next_withSecond {text text' : Text} {zoneName : Option Text} {d : Descriptor}
    (hparse : (parse text zoneName).run.value = .ok d) (hutc : d.start.clock.IsUtc)
    {properties : List Property} {q : Property} {all : List (Text × Text)}
    (hproperties : Property.ofEvent text = .ok properties)
    (hrules : ruleProperties properties = [q]) (hall : Component.parts q.value = .ok all)
    (hplain : ∀ p ∈ all, p.1 ∈ Component.plainNames)
    (hday : ∀ c ∈ d.components, ∀ f ∈ c.freq, f.numbersWeekdays → d.start.wall.date.day ≤ 28)
    (hspan : ∀ c ∈ d.components, ∀ f ∈ c.freq, Plain.HasSpan f c.interval)
    (hexcluded : d.ExcludesClearly) (hlast : ∀ c ∈ d.components, ¬ c.ReachesLastWeek d.start)
    (htext' : Property.ofEvent text' = .ok (properties.map
      (·.withPart (Component.secondPart d.start.wall.second)))) :
    ∃ d', (parse text' zoneName).run.value = .ok d' ∧ ∀ (now : WallTime) (k : Nat),
      d'.next (Moment.universal now) k = d.next (Moment.universal now) k := by
  obtain ⟨c, hc⟩ := component_of_only_rule hparse hproperties hrules
  obtain ⟨f, r, hc', hsecond⟩ := Component.parse_withSecond hall hplain (start_wholeSecond hparse) hc
  obtain ⟨hcomponents, hparse'⟩ := parse_withPart hparse hproperties hrules hc hc' htext'
  have hmem : c ∈ d.components := hcomponents ▸ List.mem_singleton_self c
  have hf : c.freq = some f := hsecond.freq_eq
  have hexpanders : c.expanders = [] := by
    obtain ⟨all', hall', hread⟩ := Component.isRead_of_parse hc
    obtain rfl := Except.ok.inj (hall.symm.trans hall')
    exact hread.expanders_eq.trans (Component.filter_plainNames hplain)
  have hforeign := excluded_foreign hparse hutc
  -- the walk has the numbered dates
  obtain ⟨dates, hlists, hwalk⟩ := hsecond.expandedNth_eq hutc (hday c hmem f hf) (hspan c hmem f hf)
    hforeign hexcluded fun ⟨hweekly, index, m, hm, hend⟩ =>
      hlast c hmem ⟨hweekly, index, m, Component.gives_withRules.mp hm, hend⟩
  have hplainLists : c.Lists d.start dates := fun index m =>
    (hlists index m).trans Component.gives_withRules
  let replaced := { c with expanders := ["BYSECOND".toList], rules := some (.single r) }
  refine ⟨_, hparse', fun now k =>
    next_relabel (g := Source.replaced replaced) ?_ (fun s hs k => ?_) k⟩
  · unfold sources
    rw [hcomponents]
    split <;> rfl
  · unfold sources at hs
    rw [hcomponents] at hs
    rcases List.mem_append.mp hs with hs | hs
    · rw [List.mem_singleton.mp hs, Source.nthAfter_plain hexpanders,
        Source.plainNth_of_lists hutc hf hsecond.interval_pos (hspan c hmem f hf) hforeign hexcluded
          hplainLists]
      exact hwalk now k
    · split at hs
      · cases hs
      · rw [List.mem_singleton.mp hs]
        rfl

set_option maxRecDepth 2000 in
/-- Three weeks, of which one is excluded, and a further date. -/
theorem next_withSecond_of_weekly_rule : ∃ d d',
    (parse ("DTSTART:20240101T093015Z\nRRULE:FREQ=WEEKLY;COUNT=3\n" ++
      "EXDATE:20240108T093015Z\nRDATE:20240103T120000Z").toList none).run.value = .ok d ∧
    (parse ("DTSTART:20240101T093015Z\nRRULE:FREQ=WEEKLY;COUNT=3;BYSECOND=15\n" ++
      "EXDATE:20240108T093015Z\nRDATE:20240103T120000Z").toList none).run.value = .ok d' ∧
    d.excluded.length = 1 ∧ d.dates.length = 1 ∧ ∀ (now : WallTime) (k : Nat),
      d'.next (Moment.universal now) k = d.next (Moment.universal now) k := by
  obtain ⟨d, properties, q, all, c, hd, hclock, hday, hcomponents, hlength, hdates, hproperties, hrules,
      hall, hplain, hf, hinterval, hcount, hexcluded, hend, htext'⟩ : ∃ d properties q all c,
      (parse ("DTSTART:20240101T093015Z\nRRULE:FREQ=WEEKLY;COUNT=3\n" ++
        "EXDATE:20240108T093015Z\nRDATE:20240103T120000Z").toList none).run.value = .ok d ∧
      d.start.clock = .universal ∧ d.start.wall.date.day = 1 ∧ d.components = [c] ∧
      d.excluded.length = 1 ∧ d.dates.length = 1 ∧
      Property.ofEvent ("DTSTART:20240101T093015Z\nRRULE:FREQ=WEEKLY;COUNT=3\n" ++
        "EXDATE:20240108T093015Z\nRDATE:20240103T120000Z").toList = .ok properties ∧
      ruleProperties properties = [q] ∧ Component.parts q.value = .ok all ∧
      (∀ p ∈ all, p.1 ∈ Component.plainNames) ∧ c.freq = some .weekly ∧ c.interval = 1 ∧
      c.count = some 3 ∧ d.excluded.map Moment.clock = [.universal] ∧
      Plain.point d.start.wall .weekly 1 3 < WallTime.calendarEnd ∧
      Property.ofEvent ("DTSTART:20240101T093015Z\nRRULE:FREQ=WEEKLY;COUNT=3;BYSECOND=15\n" ++
        "EXDATE:20240108T093015Z\nRDATE:20240103T120000Z").toList =
          .ok (properties.map (·.withPart (Component.secondPart d.start.wall.second))) :=
    ⟨_, _, _, _, _, rfl, rfl, rfl, rfl, rfl, by decide +kernel, rfl, rfl, rfl, by decide +kernel, rfl,
      rfl, rfl, rfl, by decide +kernel, by decide +kernel⟩
  have hutc : d.start.clock.IsUtc := by
    rw [hclock]
    trivial
  have hspan : ∀ c' ∈ d.components, ∀ f ∈ c'.freq, Plain.HasSpan f c'.interval := by
    intro c' hc' f' hf'
    rw [hcomponents, List.mem_singleton] at hc'
    obtain rfl : f' = .weekly := by
      rw [hc', hf] at hf'
      exact (Option.some.inj hf').symm
    rw [hc', hinterval]
    rfl
  have hclearly : d.ExcludesClearly := by
    refine excludesClearly_of_utc fun e he => ?_
    have hmem := List.mem_map_of_mem (f := Moment.clock) he
    rw [hexcluded, List.mem_singleton] at hmem
    rw [hmem]
    trivial
  -- the third date is the last one, long before the last week of the calendar
  have hlast : ∀ c' ∈ d.components, ¬ c'.ReachesLastWeek d.start := by
    rintro c' hc' ⟨-, index, m, hm, hbeyond, -⟩
    rw [hcomponents, List.mem_singleton] at hc'
    have hindex : index < 3 := hm.inCount 3 (by rw [hc', hcount]; rfl)
    rw [hc', hinterval] at hbeyond
    have hle := Plain.point_mono d.start.wall .weekly Nat.one_pos (show index + 1 ≤ 3 by omega)
    omega
  obtain ⟨d', hd', hnext⟩ := next_withSecond hd hutc hproperties hrules hall hplain
    (fun _ _ _ _ _ => by omega) hspan hclearly hlast htext'
  exact ⟨d, d', hd, hd', hlength, hdates, hnext⟩

/-- The walk of a weekly rule reads one date further than the next one, and the week of that date is
not in the calendar to its end. -/
theorem next_withSecond_in_last_weeks : ∃ d d' now m,
    (parse "DTSTART:99991211T000000Z\nRRULE:FREQ=WEEKLY".toList none).run.value = .ok d ∧
    (parse "DTSTART:99991211T000000Z\nRRULE:FREQ=WEEKLY;BYSECOND=0".toList none).run.value = .ok d' ∧
    WallTime.ofFields? ⟨9999, 12, 20⟩ 0 0 0 0 = some now ∧ m.wall.date = ⟨9999, 12, 25⟩ ∧
    d.next (Moment.universal now) 0 = .ok (some m) ∧
    d'.next (Moment.universal now) 0 = .ok none := by
  obtain ⟨d, d', now, hd, hd', hnow, hplain, hwalk⟩ : ∃ d d' now,
      (parse "DTSTART:99991211T000000Z\nRRULE:FREQ=WEEKLY".toList none).run.value = .ok d ∧
      (parse "DTSTART:99991211T000000Z\nRRULE:FREQ=WEEKLY;BYSECOND=0".toList none).run.value = .ok d' ∧
      WallTime.ofFields? ⟨9999, 12, 20⟩ 0 0 0 0 = some now ∧
      ((d.next (Moment.universal now) 0).toOption.join.any fun m =>
        decide (m.wall.date = ⟨9999, 12, 25⟩)) = true ∧
      (d'.next (Moment.universal now) 0).toOption.any Option.isNone = true :=
    ⟨_, _, _, rfl, rfl, rfl, by decide +kernel, by decide +kernel⟩
  obtain ⟨m, hm, hdate⟩ := (Option.any_eq_true _ _).mp hplain
  exact ⟨d, d', now, m, hd, hd', hnow, of_decide_eq_true hdate,
    ok_of_toOption (Option.join_eq_some_iff.mp hm), ok_none_of_any hwalk⟩

end Descriptor

end ScanPolicy
