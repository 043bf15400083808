import ScanPolicy.Schedule.Next
import ScanPolicy.Proofs.Calendar.WallTime
import ScanPolicy.Proofs.Outcome

/-!
# What reading a schedule gives

The later modules argue about schedules that were read from a text. This module
says once what each reader returns when it returns at all.

- `Descriptor.run_bind`, `Descriptor.run_bind_eq_ok_iff`: a reading of two steps, and when it succeeds.
- `Instant.IsRead`: the moments that a text can give: whole seconds, without
  fold, on the universal clock or on the clock that was asked for.
- `Component.IsRead`: what a component has from its rule.
- `Descriptor.run_parse`: the steps in which a schedule is read.
- `Descriptor.IsRead`: what a schedule has from its properties; `isRead_of_parse`.
- `Descriptor.source_of_parse`: the sources of a schedule.
-/

namespace ScanPolicy

/-! ## Moments -/

namespace Instant

/-- A moment that a text can give when it is read on `clock`. -/
structure IsRead (clock : Clock) (m : Moment) : Prop where
  clock_eq : m.clock = .universal ∨ m.clock = clock
  fold_eq : m.fold = false
  wholeSecond : m.wall.ticks % Span.second = 0

theorem wholeSecond_of_ofFields? {d : Date} {h m s : Nat} {t : WallTime}
    (ht : WallTime.ofFields? d h m s 0 = some t) : t.ticks % Span.second = 0 := by
  unfold WallTime.ofFields? at ht
  split at ht
  · rw [WallTime.ticks_of_ofTicks? ht]
    unfold WallTime.ticksAt
    rw [Span.day_eq, Span.hour_eq, Span.minute_eq, Span.second_eq]
    omega
  · cases ht

theorem wholeSecond_of_wall? {a b : Text} {t : WallTime} (ht : wall? a b = some t) :
    t.ticks % Span.second = 0 := by
  unfold wall? at ht
  split at ht
  · exact wholeSecond_of_ofFields? ht
  · cases ht

theorem wholeSecond_of_form? {v : Text} {t : WallTime} {z : Bool} (ht : form? v = some (t, z)) :
    t.ticks % Span.second = 0 := by
  have hmap : ∀ {a b : Text} {z' : Bool}, (wall? a b).map (·, z') = some (t, z) →
      t.ticks % Span.second = 0 := by
    intro a b z' h
    obtain ⟨w, hw, heq⟩ := Option.map_eq_some_iff.mp h
    cases heq
    exact wholeSecond_of_wall? hw
  unfold form? at ht
  split at ht
  · exact hmap ht
  · split at ht
    · exact hmap ht
    · exact hmap ht
    · cases ht
  · cases ht

theorem isRead_of_parse {value : Text} {clock : Clock} {m : Moment}
    (h : parse value clock = .ok m) : IsRead clock m := by
  unfold parse at h
  split at h
  · next hform =>
    cases h
    exact ⟨.inl rfl, rfl, wholeSecond_of_form? hform⟩
  · next hform =>
    cases h
    exact ⟨.inr rfl, rfl, wholeSecond_of_form? hform⟩
  · cases h

end Instant

/-! ## Components -/

namespace Component

theorem positive_of_ok {name : String} {value : Text} {n : Nat} (h : positive name value = .ok n) :
    0 < n ∧ Text.asciiNat? value = some n ∧ value.length ≤ Text.numeralLimit := by
  unfold positive at h
  split at h
  · cases h
  split at h
  · cases h
  split at h
  · cases h
  · next hval hlen hpos =>
    cases h
    exact ⟨Nat.pos_of_ne_zero hpos, hval, Nat.le_of_not_lt hlen⟩

/-- The count that the parts give. -/
def countOf (all : List (Text × Text)) : Except Fault (Option Nat) :=
  match part? all "COUNT" with
  | some v => some <$> positive "COUNT" v
  | none => .ok none

/-- The last moment that the parts give. -/
def boundOf (all : List (Text × Text)) (clock : Clock) : Except Fault (Option Moment) :=
  match part? all "UNTIL" with
  | some v => some <$> Instant.parse v clock
  | none => .ok none

/-- What a component has from the parts of its rule. -/
structure IsRead (start : Moment) (clock : Clock) (all : List (Text × Text)) (c : Component) :
    Prop where
  freq_eq : ∃ f, c.freq = some f ∧
    Frequency.ofName? (Text.upper ((part? all "FREQ").getD [])) = some f
  interval_eq : positive "INTERVAL" ((part? all "INTERVAL").getD ['1']) = .ok c.interval
  count_eq : countOf all = .ok c.count
  bound_eq : boundOf all clock = .ok c.bound
  expanders_eq : c.expanders =
    ((all.filter fun (k, _) => k != "UNTIL".toList).map Prod.fst).filter
      (Text.startsWith "BY".toList)
  rules_eq : ∃ rules read, c.rules = some rules ∧
    RuleText.read start (joinParts (all.filter fun (k, _) => k != "UNTIL".toList)) = .ok read ∧
    Rules.withBound read c.bound = .ok rules

theorem ok_of_refuse {α : Type} {value : Text} {x : Except Fault α} {a : α}
    (h : refuse value x = .ok a) : x = .ok a := by
  unfold refuse at h
  split at h
  · cases h
  · exact h

/-- The last step of reading a rule, after its numbers are known. -/
def assemble (value : Text) (start : Moment) (all : List (Text × Text)) (f : Frequency)
    (interval : Nat) (count : Option Nat) (bound : Option Moment) : Except Fault Component := do
  if count.isSome && bound.isSome then throw (.unreadable (.countAndUntil value))
  let rest := all.filter fun (k, _) => k != "UNTIL".toList
  let rules ← refuse value do
    Rules.withBound (← RuleText.read start (joinParts rest)) bound
  pure ⟨some f, interval, count, bound,
    (rest.map Prod.fst).filter (Text.startsWith "BY".toList), some rules⟩

theorem parse_eq {value : Text} {start : Moment} {clock : Clock} {all : List (Text × Text)}
    (hall : parts value = .ok all) :
    parse value start clock =
      match Frequency.ofName? (Text.upper ((part? all "FREQ").getD [])) with
      | none => .error (.unreadable
          (.unsupportedFrequency (Text.upper ((part? all "FREQ").getD []))))
      | some f =>
        positive "INTERVAL" ((part? all "INTERVAL").getD ['1']) >>= fun interval =>
          countOf all >>= fun count => boundOf all clock >>= fun bound =>
            assemble value start all f interval count bound := by
  unfold parse countOf boundOf
  rw [hall]
  simp only [bind, Except.bind]
  cases Frequency.ofName? (Text.upper ((part? all "FREQ").getD [])) with
  | none => rfl
  | some f =>
    show (positive _ _ >>= _) = (positive _ _ >>= _)
    congr 1
    funext interval
    cases part? all "COUNT" with
    | none => cases part? all "UNTIL" <;> rfl
    | some v => cases part? all "UNTIL" <;> rfl

theorem assemble_of_ok {value : Text} {start : Moment} {all : List (Text × Text)} {f : Frequency}
    {interval : Nat} {count : Option Nat} {bound : Option Moment} {c : Component}
    (h : assemble value start all f interval count bound = .ok c) :
    ∃ rules read,
      RuleText.read start (joinParts (all.filter fun (k, _) => k != "UNTIL".toList)) = .ok read ∧
      Rules.withBound read bound = .ok rules ∧
      c = ⟨some f, interval, count, bound,
        ((all.filter fun (k, _) => k != "UNTIL".toList).map Prod.fst).filter
          (Text.startsWith "BY".toList), some rules⟩ := by
  unfold assemble at h
  split at h
  · cases h
  obtain ⟨rules, hrules, h⟩ := bind_eq_ok_iff.mp h
  obtain ⟨read, hread, hrules⟩ := bind_eq_ok_iff.mp (ok_of_refuse hrules)
  cases h
  exact ⟨rules, read, hread, hrules, rfl⟩

theorem isRead_of_parse {value : Text} {start : Moment} {clock : Clock} {c : Component}
    (h : parse value start clock = .ok c) :
    ∃ all, parts value = .ok all ∧ IsRead start clock all c := by
  cases hall : parts value with
  | error e =>
    unfold parse at h
    rw [hall] at h
    cases h
  | ok all =>
    rw [parse_eq hall] at h
    split at h
    · cases h
    · next f hf =>
      obtain ⟨interval, hinterval, h⟩ := bind_eq_ok_iff.mp h
      obtain ⟨count, hcount, h⟩ := bind_eq_ok_iff.mp h
      obtain ⟨bound, hbound, h⟩ := bind_eq_ok_iff.mp h
      obtain ⟨rules, read, hread, hrules, rfl⟩ := assemble_of_ok h
      exact ⟨all, rfl, ⟨f, rfl, hf⟩, hinterval, hcount, hbound, rfl, rules, read, rfl, hread, hrules⟩

/-- A component is read from the parts of its rule, if they do not give both a count and a last
moment. -/
theorem parse_of_parts {value : Text} {start : Moment} {clock : Clock} {all : List (Text × Text)}
    {f : Frequency} {interval : Nat} {count : Option Nat} {bound : Option Moment} {read rules : Rules}
    (hall : parts value = .ok all)
    (hf : Frequency.ofName? (Text.upper ((part? all "FREQ").getD [])) = some f)
    (hinterval : positive "INTERVAL" ((part? all "INTERVAL").getD ['1']) = .ok interval)
    (hcount : countOf all = .ok count) (hbound : boundOf all clock = .ok bound)
    (hboth : ¬ (count.isSome && bound.isSome) = true)
    (hread : RuleText.read start (joinParts (all.filter fun (k, _) => k != "UNTIL".toList)) = .ok read)
    (hrules : Rules.withBound read bound = .ok rules) :
    parse value start clock = .ok ⟨some f, interval, count, bound,
      ((all.filter fun (k, _) => k != "UNTIL".toList).map Prod.fst).filter
        (Text.startsWith "BY".toList), some rules⟩ := by
  rw [parse_eq hall, hf, hinterval, hcount, hbound]
  show assemble value start all f interval count bound = _
  unfold assemble
  rw [if_neg hboth]
  dsimp only
  rw [hread]
  show (refuse value (Rules.withBound read bound) >>= fun rules => _) = _
  rw [hrules]
  rfl

end Component

/-! ## Schedules -/

namespace Descriptor

/-- Two steps of a reading give what the second one makes of the first one. -/
theorem run_bind {α β : Type} (x : Reading α) (f : α → Reading β) :
    (x >>= f).run.value = x.run.value >>= fun a => (f a).run.value := by
  show (Traced.andThen x.run (ExceptT.bindCont f)).value = _
  unfold Traced.andThen
  cases x.run.value <;> rfl

/-- A reading succeeds when both of its steps do. -/
theorem run_bind_eq_ok_iff {α β : Type} {x : Reading α} {f : α → Reading β} {b : β} :
    (x >>= f).run.value = .ok b ↔ ∃ a, x.run.value = .ok a ∧ (f a).run.value = .ok b := by
  rw [run_bind]
  exact bind_eq_ok_iff

@[simp] theorem run_lift {α : Type} (a : Except Fault α) : (lift a).run.value = a := rfl

@[simp] theorem run_note (e : Entry) : (note e).run.value = .ok () := rfl

@[simp] theorem run_pure {α : Type} (a : α) : (pure a : Reading α).run.value = .ok a := rfl

/-- The moments that a property can list: those that can be read on the clock
of the schedule or, if the property names a zone, on the clock of that zone. -/
theorem moments_isRead {p : Property} {clock : Clock} {ms : List Moment}
    (h : (moments p clock).run.value = .ok ms) :
    ∀ m ∈ ms, Instant.IsRead clock m ∨
      ∃ name z, p.parameter? "TZID" = some name ∧ Instant.loadZone name = .ok z ∧
        Instant.IsRead (.zoned z) m := by
  unfold moments at h
  split at h
  · obtain ⟨_, -, h⟩ := run_bind_eq_ok_iff.mp h
    cases h
    simp
  split at h
  · next name hname =>
    obtain ⟨clock', hclock, h⟩ := run_bind_eq_ok_iff.mp h
    obtain ⟨z, hz, rfl⟩ := map_eq_ok_iff.mp hclock
    exact forall_of_mapM_ok h fun _ _ _ hm =>
      .inr ⟨name, z, hname, hz, Instant.isRead_of_parse hm⟩
  · obtain ⟨clock', hclock, h⟩ := run_bind_eq_ok_iff.mp h
    cases hclock
    exact forall_of_mapM_ok h fun _ _ _ hm => .inl (Instant.isRead_of_parse hm)

/-- What the further and the excluded dates satisfy, if the moments of every
property do. -/
theorem forall_of_dateLists {clock : Clock} {ps : List Property} {dates excluded : List Moment}
    {P : Moment → Prop}
    (hP : ∀ p ∈ ps, ∀ ms, (moments p clock).run.value = .ok ms → ∀ m ∈ ms, P m)
    (h : (dateLists clock ps).run.value = .ok (dates, excluded)) :
    (∀ m ∈ dates, P m) ∧ ∀ m ∈ excluded, P m := by
  induction ps generalizing dates excluded with
  | nil =>
    cases h
    simp
  | cons p rest ih =>
    have ih := fun {d e} => @ih d e fun q hq => hP q (List.mem_cons_of_mem _ hq)
    have hp := hP p List.mem_cons_self
    unfold dateLists at h
    split at h
    · obtain ⟨ms, hms, h⟩ := run_bind_eq_ok_iff.mp h
      obtain ⟨⟨_, _⟩, hrest, h⟩ := run_bind_eq_ok_iff.mp h
      cases h
      obtain ⟨hd, he⟩ := ih hrest
      refine ⟨fun m hm => ?_, he⟩
      exact (List.mem_append.mp hm).elim (hp ms hms m) (hd m)
    split at h
    · obtain ⟨ms, hms, h⟩ := run_bind_eq_ok_iff.mp h
      obtain ⟨⟨_, _⟩, hrest, h⟩ := run_bind_eq_ok_iff.mp h
      cases h
      obtain ⟨hd, he⟩ := ih hrest
      refine ⟨hd, fun m hm => ?_⟩
      exact (List.mem_append.mp hm).elim (hp ms hms m) (he m)
    · exact ih h

/-- The components that are kept are those of the rules that can be read. -/
theorem parse_of_readComponents {start : Moment} {clock : Clock} {ps : List Property}
    {cs : List Component} (h : (readComponents start clock ps).run.value = .ok cs) :
    ∀ c ∈ cs, ∃ p ∈ ps, Component.parse p.value start clock = .ok c := by
  induction ps generalizing cs with
  | nil =>
    cases h
    simp
  | cons p rest ih =>
    have hrest : ∀ {cs}, (readComponents start clock rest).run.value = .ok cs →
        ∀ c ∈ cs, ∃ q ∈ p :: rest, Component.parse q.value start clock = .ok c := by
      intro cs h c hc
      obtain ⟨q, hq, hparse⟩ := ih h c hc
      exact ⟨q, List.mem_cons_of_mem _ hq, hparse⟩
    unfold readComponents at h
    split at h
    · next c hc =>
      obtain ⟨more, hmore, h⟩ := run_bind_eq_ok_iff.mp h
      cases h
      intro c' hc'
      rcases List.mem_cons.mp hc' with rfl | hc'
      · exact ⟨p, List.mem_cons_self, hc⟩
      · exact hrest hmore c' hc'
    · obtain ⟨_, -, h⟩ := run_bind_eq_ok_iff.mp h
      exact hrest h
    · cases h

/-- What a schedule has from the properties of its event. -/
structure IsRead (properties : List Property) (zoneName : Option Text) (d : Descriptor) : Prop where
  start_eq : ∃ p ∈ properties, zoneOf zoneName p = .ok d.zone ∧ startOf p.value d.zone = .ok d.start
  components_eq : d.components = [Component.once] ∨
    ∀ c ∈ d.components, ∃ p ∈ properties, Component.parse p.value d.start (clockOf d.zone) = .ok c
  dates_eq : ∃ dates excluded, (dateLists (clockOf d.zone) properties).run.value =
      .ok (dates, excluded) ∧
    d.dates = Moment.sort (Moment.distinct dates) ∧ d.excluded = Moment.distinct excluded

/-- The rule properties among some properties. -/
def ruleProperties (properties : List Property) : List Property :=
  properties.filter (·.isNamed "RRULE")

/-- What is read from the properties of a text, step by step. -/
theorem run_parse {text : Text} {properties : List Property}
    (hproperties : Property.ofEvent text = .ok properties) (zoneName : Option Text) :
    (parse text zoneName).run.value =
      match properties.find? (·.isNamed "DTSTART") with
      | none => .error (.unreadable .missingStart)
      | some p =>
        zoneOf zoneName p >>= fun zone => startOf p.value zone >>= fun start =>
          (readComponents start (clockOf zone) (ruleProperties properties)).run.value >>= fun kept =>
            if !(ruleProperties properties).isEmpty && kept.isEmpty then
              .error (.unreadable (.noValidRule text))
            else
              (dateLists (clockOf zone) properties).run.value >>= fun (dates, excluded) =>
                .ok ⟨start, zone,
                  if (ruleProperties properties).isEmpty then [Component.once] else kept,
                  Moment.sort (Moment.distinct dates), Moment.distinct excluded⟩ := by
  unfold parse ruleProperties
  have hok : ∀ {α β : Type} (a : α) (f : α → Except Fault β), (Except.ok a >>= f) = f a :=
    fun _ _ => rfl
  rw [run_bind, run_lift, hproperties, hok]
  cases properties.find? (·.isNamed "DTSTART") with
  | none => rfl
  | some p =>
    dsimp only
    rw [run_bind, run_lift]
    refine congrArg _ (funext fun zone => ?_)
    rw [run_bind, run_lift]
    refine congrArg _ (funext fun start => ?_)
    rw [run_bind]
    refine congrArg _ (funext fun kept => ?_)
    split
    · rfl
    · rw [run_bind]
      exact congrArg _ (funext fun lists => rfl)

/-- A schedule is read step by step: the start, the rules, and the dates. -/
theorem parse_eq_ok_iff {text : Text} {zoneName : Option Text} {d : Descriptor} :
    (parse text zoneName).run.value = .ok d ↔
      ∃ properties p kept dates excluded, Property.ofEvent text = .ok properties ∧
        properties.find? (·.isNamed "DTSTART") = some p ∧
        zoneOf zoneName p = .ok d.zone ∧ startOf p.value d.zone = .ok d.start ∧
        (readComponents d.start (clockOf d.zone) (ruleProperties properties)).run.value = .ok kept ∧
        (!(ruleProperties properties).isEmpty && kept.isEmpty) = false ∧
        (dateLists (clockOf d.zone) properties).run.value = .ok (dates, excluded) ∧
        d = ⟨d.start, d.zone,
          if (ruleProperties properties).isEmpty then [Component.once] else kept,
          Moment.sort (Moment.distinct dates), Moment.distinct excluded⟩ := by
  constructor
  · intro h
    obtain ⟨properties, hproperties, -⟩ := run_bind_eq_ok_iff.mp h
    rw [run_lift] at hproperties
    rw [run_parse hproperties] at h
    split at h
    · cases h
    · next p hp =>
      obtain ⟨zone, hzone, h⟩ := bind_eq_ok_iff.mp h
      obtain ⟨start, hstart, h⟩ := bind_eq_ok_iff.mp h
      obtain ⟨kept, hkept, h⟩ := bind_eq_ok_iff.mp h
      split at h
      · cases h
      · next hvalid =>
        obtain ⟨⟨dates, excluded⟩, hdates, h⟩ := bind_eq_ok_iff.mp h
        cases h
        exact ⟨properties, p, kept, dates, excluded, hproperties, hp, hzone, hstart, hkept,
          Bool.eq_false_iff.mpr hvalid, hdates, rfl⟩
  · rintro ⟨properties, p, kept, dates, excluded, hproperties, hp, hzone, hstart, hkept, hvalid,
      hdates, hd⟩
    rw [run_parse hproperties, hp]
    refine bind_eq_ok_iff.mpr ⟨d.zone, hzone, bind_eq_ok_iff.mpr ⟨d.start, hstart,
      bind_eq_ok_iff.mpr ⟨kept, hkept, ?_⟩⟩⟩
    rw [if_neg (Bool.eq_false_iff.mp hvalid)]
    exact bind_eq_ok_iff.mpr ⟨_, hdates, congrArg Except.ok hd.symm⟩

/-- The steps of a reading that succeeds. -/
theorem steps_of_parse {text : Text} {zoneName : Option Text} {d : Descriptor}
    (h : (parse text zoneName).run.value = .ok d) :
    ∃ properties p kept, Property.ofEvent text = .ok properties ∧ p ∈ properties ∧
      zoneOf zoneName p = .ok d.zone ∧ startOf p.value d.zone = .ok d.start ∧
      (readComponents d.start (clockOf d.zone) (ruleProperties properties)).run.value = .ok kept ∧
      d.components = (if (ruleProperties properties).isEmpty then [Component.once] else kept) ∧
      ∃ dates excluded, (dateLists (clockOf d.zone) properties).run.value = .ok (dates, excluded) ∧
        d.dates = Moment.sort (Moment.distinct dates) ∧ d.excluded = Moment.distinct excluded := by
  obtain ⟨properties, p, kept, dates, excluded, hproperties, hp, hzone, hstart, hkept, -, hdates, hd⟩ :=
    parse_eq_ok_iff.mp h
  exact ⟨properties, p, kept, hproperties, List.mem_of_find?_eq_some hp, hzone, hstart, hkept,
    congrArg Descriptor.components hd, dates, excluded, hdates, congrArg Descriptor.dates hd,
    congrArg Descriptor.excluded hd⟩

theorem isRead_of_parse {text : Text} {zoneName : Option Text} {d : Descriptor}
    (h : (parse text zoneName).run.value = .ok d) :
    ∃ properties, Property.ofEvent text = .ok properties ∧ IsRead properties zoneName d := by
  obtain ⟨properties, p, kept, hproperties, hp, hzone, hstart, hkept, hcomponents, hlists⟩ :=
    steps_of_parse h
  refine ⟨properties, hproperties, ⟨p, hp, hzone, hstart⟩, ?_, hlists⟩
  rw [hcomponents]
  split
  · exact .inl rfl
  · refine .inr fun c hc => ?_
    obtain ⟨q, hq, hparse⟩ := parse_of_readComponents hkept c hc
    exact ⟨q, (List.mem_filter.mp hq).1, hparse⟩

/-- A component has a positive interval, and it is the single date or a rule with a frequency. -/
theorem component_of_parse {text : Text} {zoneName : Option Text} {d : Descriptor}
    (h : (parse text zoneName).run.value = .ok d) {c : Component} (hc : c ∈ d.components) :
    0 < c.interval ∧ (c = Component.once ∨ ∃ f rules, c.freq = some f ∧ c.rules = some rules) := by
  obtain ⟨properties, -, hread⟩ := isRead_of_parse h
  rcases hread.components_eq with honce | hrules
  · rw [honce] at hc
    rw [List.mem_singleton.mp hc]
    exact ⟨Nat.one_pos, .inl rfl⟩
  · obtain ⟨p, -, hparse⟩ := hrules c hc
    obtain ⟨all, -, hread⟩ := Component.isRead_of_parse hparse
    obtain ⟨f, hf, -⟩ := hread.freq_eq
    obtain ⟨rules, -, hrules, -⟩ := hread.rules_eq
    exact ⟨(Component.positive_of_ok hread.interval_eq).1, .inr ⟨f, rules, hf, hrules⟩⟩

/-- A source of a schedule is its further dates or one of its components, which is plain, and the single
date if it has no frequency, or has expanding parts and rules. -/
theorem source_of_parse {text : Text} {zoneName : Option Text} {d : Descriptor}
    (h : (parse text zoneName).run.value = .ok d) {s : Source} (hs : s ∈ d.sources) :
    s = .dates ∨ ∃ c ∈ d.components, s = .rule c ∧ 0 < c.interval ∧
      (c.expanders = [] ∧ (c.freq = none → c = Component.once) ∨
        c.expanders ≠ [] ∧ ∃ rules, c.rules = some rules) := by
  unfold sources at hs
  rcases List.mem_append.mp hs with hs | hs
  · obtain ⟨c, hc, rfl⟩ := List.mem_map.mp hs
    obtain ⟨hinterval, hshape⟩ := component_of_parse h hc
    refine .inr ⟨c, hc, rfl, hinterval, ?_⟩
    rcases hshape with rfl | ⟨f, rules, hf, hrules⟩
    · exact .inl ⟨rfl, fun _ => rfl⟩
    · by_cases hexpanders : c.expanders = []
      · exact .inl ⟨hexpanders, fun hnone => by rw [hf] at hnone; cases hnone⟩
      · exact .inr ⟨hexpanders, rules, hrules⟩
  · split at hs
    · cases hs
    · exact .inl (List.mem_singleton.mp hs)

end Descriptor

end ScanPolicy
