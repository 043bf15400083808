import ScanPolicy.Proofs.Schedule.Respelled

/-!
# The first event of a calendar text

The lines of a calendar text are properties, and components that are nested in each other. A schedule
is read from the properties of the first event. But the properties at the top of the text belong to it
too if they come before the event, and the event ends where an event that is nested in it ends.

- `Outline`: the lines of a text as properties and nested components; `Outline.Outlines`.
- `Outline.firstEvent?`: the lines of the first event.
- `Property.ofLine_isOk_iff`: which lines are properties.
- `Property.ofEvent_of_outlines`: what is read of a text, `Outline.read`.
- `Descriptor.parse_of_scheduling`: the properties on which a schedule depends.
- `Descriptor.parse_of_first_event`: texts with the same first event.
-/

namespace ScanPolicy

/-! ## Outlines -/

/-- The name of the components that have a schedule. -/
def eventName : Text := "VEVENT".toList

/-- Content lines as properties and components. A component is opened by one line and closed by another;
its own lines are nested in between. -/
inductive Outline where
  | nil
  | property (p : Property) (rest : Outline)
  | component (opening closing : Property) (inner rest : Outline)

namespace Outline

/-- The lines of an outline, in order. -/
def lines : Outline → List Property
  | nil => []
  | property p rest => p :: rest.lines
  | component opening closing inner rest => opening :: (inner.lines ++ closing :: rest.lines)

/-- Whether only components are opened and closed, each one under its name. -/
def IsNested : Outline → Prop
  | nil => True
  | property p rest => p.isNamed "BEGIN" = false ∧ p.isNamed "END" = false ∧ rest.IsNested
  | component opening closing inner rest =>
    opening.isNamed "BEGIN" = true ∧ closing.isNamed "END" = true ∧
      Text.upper closing.value = Text.upper opening.value ∧ inner.IsNested ∧ rest.IsNested

instance decidableIsNested : (o : Outline) → Decidable o.IsNested
  | nil => inferInstanceAs (Decidable True)
  | property _ rest =>
    have := decidableIsNested rest
    inferInstanceAs (Decidable (_ ∧ _ ∧ _))
  | component _ _ inner rest =>
    have := decidableIsNested inner
    have := decidableIsNested rest
    inferInstanceAs (Decidable (_ ∧ _ ∧ _ ∧ _ ∧ _))

/-- Whether a text has the lines of an outline, and is nested as the outline is. -/
def Outlines (o : Outline) (text : Text) : Prop :=
  o.IsNested ∧ (ContentLine.unfold text).mapM Property.ofLine = .ok o.lines

/-- The lines of the first event, in the order in which the events are opened. -/
def firstEvent? : Outline → Option Outline
  | nil => none
  | property _ rest => rest.firstEvent?
  | component opening _ inner rest =>
    if Text.upper opening.value = eventName then some inner
    else inner.firstEvent?.or rest.firstEvent?

/-- The properties that are nested in no component. -/
def properties : Outline → List Property
  | nil => []
  | property p rest => p :: rest.properties
  | component _ _ _ rest => rest.properties

/-- Those of them before the component that is the first event or holds it. -/
def ahead : Outline → List Property
  | nil => []
  | property p rest => p :: rest.ahead
  | component opening closing inner rest =>
    if (component opening closing inner nil).firstEvent?.isSome then [] else rest.ahead

/-- Those of them behind that component. -/
def behind : Outline → List Property
  | nil => []
  | property _ rest => rest.behind
  | component opening closing inner rest =>
    if (component opening closing inner nil).firstEvent?.isSome then rest.properties else rest.behind

/-- The properties that are read up to the end of an event; `kept` tells whether those count that are
nested in no component. -/
def read (kept : Bool) : Outline → List Property
  | nil => []
  | property p rest => if kept then p :: rest.read kept else rest.read kept
  | component opening _ inner rest =>
    if Text.upper opening.value = eventName then inner.read true
    else if inner.firstEvent?.isSome then inner.read false
    else rest.read kept

variable {o e : Outline}

/-- Without an event all properties count, or none. -/
theorem read_of_no_event (h : o.firstEvent? = none) (kept : Bool) :
    o.read kept = if kept then o.properties else [] := by
  induction o with
  | nil => cases kept <;> rfl
  | property p rest ih =>
    rw [read, properties, ih h]
    cases kept <;> rfl
  | component opening closing inner rest _ ih =>
    rw [firstEvent?] at h
    split at h
    · cases h
    · next hname =>
      obtain ⟨hinner, hrest⟩ := Option.or_eq_none_iff.mp h
      rw [read, properties, if_neg hname, hinner, ih hrest]
      rfl

/-- Of the properties before the first event all or none count; then the event is read. -/
theorem read_of_first_event (h : o.firstEvent? = some e) (kept : Bool) :
    o.read kept = (if kept then o.ahead else []) ++ e.read true := by
  induction o generalizing kept with
  | nil => cases h
  | property p rest ih =>
    rw [read, ahead, ih h kept]
    cases kept <;> rfl
  | component opening closing inner rest ihinner ihrest =>
    rw [firstEvent?] at h
    rw [read, ahead, firstEvent?]
    by_cases hname : Text.upper opening.value = eventName
    · rw [if_pos hname] at h
      cases h
      rw [if_pos hname, if_pos hname, Option.isSome_some, if_pos rfl, ite_self]
      rfl
    · rw [if_neg hname] at h
      rw [if_neg hname, if_neg hname, firstEvent?, Option.or_none]
      cases hinner : inner.firstEvent? with
      | none =>
        rw [hinner] at h
        exact ihrest h kept
      | some e' =>
        rw [hinner] at h
        cases h
        rw [Option.isSome_some, if_pos rfl, if_pos rfl, ite_self, ihinner hinner false]
        rfl

theorem ahead_append_behind (h : o.firstEvent? ≠ none) : o.ahead ++ o.behind = o.properties := by
  induction o with
  | nil => exact absurd rfl h
  | property p rest ih => exact congrArg (p :: ·) (ih h)
  | component opening closing inner rest _ ih =>
    rw [ahead, behind, properties]
    split
    · rfl
    · next hnone =>
      refine ih fun hrest => h ?_
      rw [Bool.not_eq_true, Option.isSome_eq_false_iff, Option.isNone_iff_eq_none, firstEvent?] at hnone
      rw [firstEvent?, hrest]
      exact hnone

end Outline

/-! ## What is read -/

namespace Property

/-- Whether the properties count that stand in the given components, the innermost first. -/
def counts (opened : List Text) : Bool := opened.isEmpty || decide (opened.head? = some eventName)

theorem counts_cons (name : Text) (opened : List Text) :
    counts (name :: opened) = decide (name = eventName) :=
  decide_eq_decide.mpr (Option.some_inj (a := name))

/-- The properties of the first event among some properties, `opened` being the components around
them. -/
def collect (opened : List Text) : List Property → List Property
  | [] => []
  | p :: rest =>
    if p.isNamed "BEGIN" then collect (Text.upper p.value :: opened) rest
    else if p.isNamed "END" then
      if opened.head? = some eventName then [] else collect opened.tail rest
    else if counts opened then p :: collect opened rest
    else collect opened rest

/-- A line is a property if it has a colon. -/
theorem ofLine_isOk_iff (line : Text) : (∃ p, ofLine line = .ok p) ↔ ':' ∈ line := by
  have hcut : (Text.cut ':' line).2 ≠ none ↔ ':' ∈ line := by
    induction line with
    | nil => exact iff_of_false (fun h => h rfl) List.not_mem_nil
    | cons c rest ih =>
      unfold Text.cut
      split
      · next hc => exact iff_of_true (Option.some_ne_none _) (hc ▸ List.mem_cons_self)
      · next hc =>
        exact ih.trans ⟨List.mem_cons_of_mem _, fun h => (List.mem_cons.mp h).resolve_left (Ne.symm hc)⟩
  rw [← hcut]
  unfold ofLine
  split
  · next h =>
    refine iff_of_false ?_ fun hne => hne (congrArg Prod.snd h)
    rintro ⟨_, h⟩
    cases h
  · next h =>
    refine iff_of_true ?_ (h ▸ Option.some_ne_none _)
    split <;> exact ⟨_, rfl⟩

/-- Lines that are properties are read as these. -/
theorem ofLines_eq_collect {ls : List Text} {ps : List Property} (h : ls.mapM ofLine = .ok ps)
    (opened : List Text) : ofLines opened ls = .ok (collect opened ps) := by
  induction ls generalizing ps opened with
  | nil =>
    cases h
    rfl
  | cons line rest ih =>
    rw [List.mapM_cons] at h
    obtain ⟨p, hp, h⟩ := bind_eq_ok_iff.mp h
    obtain ⟨more, hmore, h⟩ := bind_eq_ok_iff.mp h
    cases h
    have ih := ih hmore
    unfold ofLines collect
    rw [hp]
    dsimp only
    simp only [ih]
    show (if _ then _ else if _ then (if opened.head? = some eventName then _ else _)
      else if counts opened then _ else _) = _
    split
    · rfl
    split
    · split <;> rfl
    split <;> rfl

/-- The components around an outline tell whether its own properties count. The reading of the text ends
in the outline if it has an event; otherwise it goes on behind it. -/
theorem collect_lines {o : Outline} (h : o.IsNested) (opened : List Text) (behind : List Property) :
    collect opened (o.lines ++ behind) =
      o.read (counts opened) ++ if o.firstEvent?.isSome then [] else collect opened behind := by
  induction o generalizing opened behind with
  | nil => rfl
  | property p rest ih =>
    obtain ⟨hbegin, hend, hrest⟩ := h
    rw [Outline.lines, List.cons_append, collect, hbegin, hend, if_neg Bool.false_ne_true,
      if_neg Bool.false_ne_true, ih hrest, Outline.read, Outline.firstEvent?]
    split <;> rfl
  | component opening closing inner rest ihinner ihrest =>
    obtain ⟨hbegin, hend, hname, hinner, hrest⟩ := h
    have hclose : ¬ closing.isNamed "BEGIN" = true :=
      Bool.eq_false_iff.mp (isNamed_of_ne hend (by decide))
    rw [Outline.lines, List.cons_append, List.append_assoc, List.cons_append, collect, if_pos hbegin,
      ihinner hinner, counts_cons, Outline.read, Outline.firstEvent?]
    -- behind the inner lines the component is closed
    rw [collect, if_neg hclose, if_pos hend, List.head?_cons, List.tail_cons]
    by_cases hevent : Text.upper opening.value = eventName
    · rw [if_pos hevent, if_pos hevent, if_pos (congrArg some hevent), ite_self, decide_eq_true hevent,
        Option.isSome_some, if_pos rfl]
    · have hother : ¬ some (Text.upper opening.value) = some eventName :=
        fun heq => hevent (Option.some.inj heq)
      rw [if_neg hevent, if_neg hevent, if_neg hother, decide_eq_false hevent, ihrest hrest]
      cases hheld : inner.firstEvent? with
      | some e => rfl
      | none => rw [Outline.read_of_no_event hheld]; rfl

/-- The properties of the first event of a text. -/
theorem ofEvent_of_outlines {o : Outline} {text : Text} (h : o.Outlines text) :
    ofEvent text = .ok (o.read true) := by
  have hread := collect_lines h.1 [] []
  rw [List.append_nil, show collect [] [] = [] from rfl, ite_self, List.append_nil] at hread
  unfold ofEvent
  rw [ofLines_eq_collect h.2, hread]
  rfl

/-- Whether a schedule depends on a property. -/
def isScheduling (p : Property) : Bool :=
  p.isNamed "DTSTART" || p.isNamed "RRULE" || p.isNamed "RDATE" || p.isNamed "EXDATE"

end Property

/-! ## Schedules -/

namespace Descriptor

/-- Only further and excluded dates are listed. -/
theorem dateLists_filter (clock : Clock) (ps : List Property) :
    dateLists clock (ps.filter Property.isScheduling) = dateLists clock ps := by
  induction ps with
  | nil => rfl
  | cons p rest ih =>
    rw [List.filter_cons]
    split
    · unfold dateLists
      rw [ih]
    · next h =>
      simp only [Property.isScheduling, Bool.or_eq_true, not_or] at h
      rw [ih, dateLists, if_neg h.1.2, if_neg h.2]

theorem find?_filter_isScheduling (ps : List Property) :
    (ps.filter Property.isScheduling).find? (·.isNamed "DTSTART") = ps.find? (·.isNamed "DTSTART") := by
  rw [List.find?_filter]
  refine congrArg (List.find? · ps) (funext fun p => ?_)
  unfold Property.isScheduling
  cases p.isNamed "DTSTART" <;> simp

theorem ruleProperties_filter (ps : List Property) :
    ruleProperties (ps.filter Property.isScheduling) = ruleProperties ps := by
  unfold ruleProperties
  rw [List.filter_filter]
  refine List.filter_congr fun p _ => ?_
  unfold Property.isScheduling
  cases p.isNamed "RRULE" <;> simp

/-- Texts with the same start, rules and dates give the same schedule, or fail in the same way. Only the
fault that no rule can be read names the whole text. -/
theorem parse_of_scheduling {text text' : Text} {ps ps' : List Property}
    (h : Property.ofEvent text = .ok ps) (h' : Property.ofEvent text' = .ok ps')
    (hsame : ps.filter Property.isScheduling = ps'.filter Property.isScheduling)
    (zoneName : Option Text) :
    Corresponds Fault.BothUnreadable Eq (parse text zoneName).run.value
      (parse text' zoneName).run.value := by
  rw [run_parse h, run_parse h', ← find?_filter_isScheduling ps, ← find?_filter_isScheduling ps',
    ← ruleProperties_filter ps, ← ruleProperties_filter ps', hsame]
  simp only [← dateLists_filter _ ps, ← dateLists_filter _ ps', hsame]
  split
  · exact .error (.refl _)
  · refine (Corresponds.of_eq .refl rfl).bind fun zone _ hzone => ?_
    rw [← hzone]
    refine (Corresponds.of_eq .refl rfl).bind fun start _ hstart => ?_
    rw [← hstart]
    refine (Corresponds.of_eq .refl rfl).bind fun kept _ hkept => ?_
    rw [← hkept]
    split
    · exact .error (.unreadable _ _)
    · exact .of_eq .refl rfl

end Descriptor

namespace Outline

/-- Whether the schedule of a text is that of its first event: no property at the top of the text and
before the event gives a start, a rule or dates, and if another event is nested in it, then none that is
read of that event or stands behind it. -/
structure Secludes (o e : Outline) : Prop where
  first : o.firstEvent? = some e
  ahead : ∀ p ∈ o.ahead, p.isScheduling = false
  nested : ∀ n ∈ e.firstEvent?, (∀ p ∈ n.read true, p.isScheduling = false) ∧
    ∀ p ∈ e.behind, p.isScheduling = false

/-- Then the schedule depends on properties of the first event only. -/
theorem Secludes.filter_read {o e : Outline} (h : o.Secludes e) :
    (o.read true).filter Property.isScheduling = e.properties.filter Property.isScheduling := by
  have hnone : ∀ {ps : List Property}, (∀ p ∈ ps, p.isScheduling = false) →
      ps.filter Property.isScheduling = [] := fun hps =>
    List.filter_eq_nil_iff.mpr fun p hp => Bool.eq_false_iff.mp (hps p hp)
  rw [read_of_first_event h.first, if_pos rfl, List.filter_append, hnone h.ahead, List.nil_append]
  cases hn : e.firstEvent? with
  | none => rw [read_of_no_event hn, if_pos rfl]
  | some n =>
    obtain ⟨hread, hbehind⟩ := h.nested n hn
    have hparts := ahead_append_behind (o := e) (by rw [hn]; nofun)
    rw [read_of_first_event hn, if_pos rfl, ← hparts, List.filter_append, List.filter_append,
      hnone hread, hnone hbehind]

end Outline

namespace Descriptor

/-- Texts with the same properties in their first events give the same schedule, or fail in the same way,
whatever else they hold, if their first events are secluded. -/
theorem parse_of_first_event {text text' : Text} {o o' e e' : Outline} (h : o.Outlines text)
    (h' : o'.Outlines text') (he : o.Secludes e) (he' : o'.Secludes e')
    (hsame : e.properties = e'.properties) (zoneName : Option Text) :
    Corresponds Fault.BothUnreadable Eq (parse text zoneName).run.value
      (parse text' zoneName).run.value := by
  refine parse_of_scheduling (Property.ofEvent_of_outlines h) (Property.ofEvent_of_outlines h') ?_
    zoneName
  rw [he.filter_read, he'.filter_read, hsame]

/-- The event of a calendar with an alarm, an event within the event and one after it, and the same event
alone. -/
theorem parse_of_first_event_in_calendar : ∃ text text' : Text, ∃ o o' e e' : Outline,
    text = ("BEGIN:VCALENDAR\nBEGIN:VEVENT\nDTSTART:20240101\nBEGIN:VALARM\nRDATE:20240102\n" ++
      "END:VALARM\nRRULE:FREQ=DAILY\nBEGIN:VEVENT\nEND:VEVENT\nEND:VEVENT\nBEGIN:VEVENT\n" ++
      "DTSTART:20250101\nEND:VEVENT\nEND:VCALENDAR").toList ∧
    text' = "BEGIN:VEVENT\nDTSTART:20240101\nRRULE:FREQ=DAILY\nEND:VEVENT".toList ∧
    o.Outlines text ∧ o'.Outlines text' ∧ o.Secludes e ∧ o'.Secludes e' ∧
    e.properties = e'.properties ∧ Corresponds Fault.BothUnreadable Eq
      (parse text none).run.value (parse text' none).run.value := by
  let line (name value : String) : Property := ⟨name.toList, [], value.toList⟩
  let part : Outline := .component (line "BEGIN" "VEVENT") (line "END" "VEVENT") .nil .nil
  let alarm : Outline → Outline := .component (line "BEGIN" "VALARM") (line "END" "VALARM")
    (.property (line "RDATE" "20240102") .nil)
  let event : Outline := .property (line "DTSTART" "20240101")
    (alarm (.property (line "RRULE" "FREQ=DAILY") part))
  let other : Outline := .component (line "BEGIN" "VEVENT") (line "END" "VEVENT")
    (.property (line "DTSTART" "20250101") .nil) .nil
  let alone : Outline := .property (line "DTSTART" "20240101")
    (.property (line "RRULE" "FREQ=DAILY") .nil)
  have ho : Outline.Outlines (.component (line "BEGIN" "VCALENDAR") (line "END" "VCALENDAR")
      (.component (line "BEGIN" "VEVENT") (line "END" "VEVENT") event other) .nil)
      ("BEGIN:VCALENDAR\nBEGIN:VEVENT\nDTSTART:20240101\nBEGIN:VALARM\nRDATE:20240102\n" ++
        "END:VALARM\nRRULE:FREQ=DAILY\nBEGIN:VEVENT\nEND:VEVENT\nEND:VEVENT\nBEGIN:VEVENT\n" ++
        "DTSTART:20250101\nEND:VEVENT\nEND:VCALENDAR").toList :=
      ⟨by decide +kernel, ok_of_toOption (by decide +kernel)⟩
  have ho' : Outline.Outlines (.component (line "BEGIN" "VEVENT") (line "END" "VEVENT") alone .nil)
      "BEGIN:VEVENT\nDTSTART:20240101\nRRULE:FREQ=DAILY\nEND:VEVENT".toList :=
      ⟨by decide +kernel, ok_of_toOption (by decide +kernel)⟩
  have he : Outline.Secludes (.component (line "BEGIN" "VCALENDAR") (line "END" "VCALENDAR")
      (.component (line "BEGIN" "VEVENT") (line "END" "VEVENT") event other) .nil) event := by
    refine ⟨rfl, by decide +kernel, ?_⟩
    rintro _ ⟨⟩
    decide +kernel
  have he' : Outline.Secludes (.component (line "BEGIN" "VEVENT") (line "END" "VEVENT") alone .nil)
      alone := by
    refine ⟨rfl, by decide +kernel, ?_⟩
    rintro _ ⟨⟩
  exact ⟨_, _, _, _, event, alone, rfl, rfl, ho, ho', he, he', rfl,
    parse_of_first_event ho ho' he he' rfl none⟩

/-- A start at the top of a text takes the place of that of the event after it. -/
theorem parse_not_of_first_event : ∃ o o' e e' : Outline, ∃ d d',
    o.Outlines "DTSTART:20200101T000000Z\nBEGIN:VEVENT\nDTSTART:20240101T000000Z\nEND:VEVENT".toList ∧
    o'.Outlines "BEGIN:VEVENT\nDTSTART:20240101T000000Z\nEND:VEVENT".toList ∧
    o.firstEvent? = some e ∧ o'.firstEvent? = some e' ∧ e.properties = e'.properties ∧
    (parse "DTSTART:20200101T000000Z\nBEGIN:VEVENT\nDTSTART:20240101T000000Z\nEND:VEVENT".toList
      none).run.value = .ok d ∧
    (parse "BEGIN:VEVENT\nDTSTART:20240101T000000Z\nEND:VEVENT".toList none).run.value = .ok d' ∧
    d.start.wall.date = ⟨2020, 1, 1⟩ ∧ d'.start.wall.date = ⟨2024, 1, 1⟩ := by
  refine ⟨.property _ (.component _ _ (.property _ .nil) .nil), .component _ _ (.property _ .nil) .nil,
    _, _, _, _, ⟨?_, rfl⟩, ⟨?_, rfl⟩, rfl, rfl, rfl, rfl, rfl, ?_, ?_⟩
  · decide
  · decide
  · decide +kernel
  · decide +kernel

end Descriptor

end ScanPolicy
