import ScanPolicy.Proofs.Schedule.OrderedDates
import ScanPolicy.Proofs.Zone.Calm

/-!
# Further dates by their instants

Further dates can be written on different clocks, so that one instant has several readings.
The dates that are kept have the instants of all that are listed, and if they agree, each
instant comes once and in order. The further dates after a moment are then the elements of
the set of the instants.

- `Moment.isIn_distinct`, `Descriptor.instants_dates`: no instant is lost.
- `Clock.IsKnown.showsInOrder`, `Descriptor.dates_agree`: dates that are shown once agree.
- `Source.datesNth_of_agrees`: the further dates after a moment.
- `Source.datesNth_repeated`: a repeated hour on two clocks gives one instant twice.
-/

namespace ScanPolicy

/-! ## Instants that are kept -/

namespace Moment

theorem coincides_self (m : Moment) : m.coincides m := by
  unfold coincides same
  rw [if_pos (Clock.same_self m.clock), beq_self_eq_true, beq_self_eq_true, Bool.and_true]

/-- Each member of a list counts as a member of the list without repetitions. -/
theorem isIn_distinct {ms : List Moment} {m : Moment} (hm : m ∈ ms) : m.isIn (distinct ms) := by
  -- what counts as seen before stays seen, and the next one is seen if it was not
  have hrun : ∀ ms seen : List Moment, m.isIn seen ∨ m ∈ ms →
      m.isIn (ms.foldl (fun seen m => if m.isIn seen then seen else m :: seen) seen) := by
    intro ms
    induction ms with
    | nil => exact fun seen h => h.resolve_right List.not_mem_nil
    | cons x rest ih =>
      intro seen h
      rw [List.foldl_cons]
      refine ih _ ?_
      by_cases hseen : x.isIn seen
      · rw [if_pos hseen]
        rcases h with h | h
        · exact .inl h
        · rcases List.mem_cons.mp h with rfl | h
          · exact .inl hseen
          · exact .inr h
      · rw [if_neg hseen]
        unfold isIn at h ⊢
        rw [List.any_cons, Bool.or_eq_true]
        rcases h with h | h
        · exact .inl (.inr h)
        · rcases List.mem_cons.mp h with rfl | h
          · exact .inl (.inl (coincides_self m))
          · exact .inr h
  exact hrun ms [] (.inr hm)

/-- A member of a set has the instant of an element, if they are first readings. -/
theorem exists_instant_of_isIn {ms : List Moment} {m : Moment} (hm : m.fold = false)
    (hms : ∀ x ∈ ms, x.fold = false) (h : m.isIn ms) : ∃ x ∈ ms, x.instant = m.instant := by
  obtain ⟨x, hx, hcoincides⟩ := List.any_eq_true.mp h
  unfold coincides at hcoincides
  rw [Bool.and_eq_true, beq_iff_eq, firstInstant_of_fold hm, firstInstant_of_fold (hms x hx)]
    at hcoincides
  exact ⟨x, hx, hcoincides.1.symm⟩

end Moment

namespace Descriptor

variable {text : Text} {zoneName : Option Text} {d : Descriptor} {properties : List Property}
  {dates excluded : List Moment}

/-- The dates that a schedule keeps, and those that its text lists. -/
theorem lists_of_parse (hparse : (parse text zoneName).run.value = .ok d)
    (hproperties : Property.ofEvent text = .ok properties)
    (hlists : (dateLists (clockOf d.zone) properties).run.value = .ok (dates, excluded)) :
    d.dates = Moment.sort (Moment.distinct dates) ∧ d.excluded = Moment.distinct excluded := by
  obtain ⟨properties', hproperties', hread⟩ := isRead_of_parse hparse
  obtain ⟨dates', excluded', hlists', hd⟩ := hread.dates_eq
  rw [hproperties] at hproperties'
  cases hproperties'
  rw [hlists] at hlists'
  cases hlists'
  exact hd

/-- A schedule keeps the instants of the further dates that its text lists. -/
theorem instants_dates (hparse : (parse text zoneName).run.value = .ok d)
    (hproperties : Property.ofEvent text = .ok properties)
    (hlists : (dateLists (clockOf d.zone) properties).run.value = .ok (dates, excluded)) :
    {t | t ∈ d.dates.map Moment.instant} = {t | ∃ m ∈ dates, m.instant = t} := by
  have hkept := dates_fold hparse
  obtain ⟨hdates, -⟩ := lists_of_parse hparse hproperties hlists
  have hmem : ∀ m, m ∈ d.dates ↔ m ∈ Moment.distinct dates := fun m => hdates ▸ Moment.mem_sort
  obtain ⟨hlisted, -⟩ := forall_of_dateLists (P := fun m => m.fold = false) (fun p _ ms hms m hm => by
    rcases moments_isRead hms m hm with h | ⟨_, _, -, -, h⟩ <;> exact h.fold_eq) hlists
  ext t
  simp only [Set.mem_ofPred_eq, List.mem_map]
  constructor
  · rintro ⟨m, hm, rfl⟩
    exact ⟨m, (Moment.distinct_pairwise dates).2 m ((hmem m).mp hm), rfl⟩
  · rintro ⟨m, hm, rfl⟩
    obtain ⟨x, hx, hinstant⟩ := Moment.exists_instant_of_isIn (hlisted m hm)
      (fun x hx => hkept x ((hmem x).mpr hx)) (Moment.isIn_distinct hm)
    exact ⟨x, (hmem x).mpr hx, hinstant⟩

end Descriptor

/-! ## Dates that agree -/

namespace Moment

/-- Whether a clock shows a moment for the first time can be looked up at its instant. -/
theorem isShownFirst_iff {m : Moment} : m.IsShownFirst ↔ m.fold = false ∧
    ((WallTime.ofTicks? m.instant).bind (ofUniversal? m.clock)).any
      (fun n => n.wall == m.wall && !n.fold) = true := by
  unfold IsShownFirst
  refine and_congr_right fun hfold => ?_
  simp only [on?_universal]
  constructor
  · rintro ⟨t, ht, hm⟩
    rw [← ht, WallTime.ofTicks?_ticks, Option.bind_some, hm]
    simp [hfold]
  · intro h
    obtain ⟨n, hn, hsame⟩ := (Option.any_eq_true _ _).mp h
    obtain ⟨t, ht, hn⟩ := Option.bind_eq_some_iff.mp hn
    simp only [Bool.and_eq_true, beq_iff_eq, Bool.not_eq_true'] at hsame
    have hclock := (isOn_of_on? ((on?_universal t m.clock).trans hn)).clock_eq
    -- the clock shows there what the moment has, so that it is the moment
    have hm : n = m := by
      obtain ⟨wall, clock, fold⟩ := n
      obtain ⟨rfl, rfl⟩ := hsame
      dsimp only at hclock
      rw [hclock, ← hfold]
    exact ⟨t, WallTime.ticks_of_ofTicks? ht, hm ▸ hn⟩

instance (m : Moment) : Decidable m.IsShownFirst := decidable_of_iff _ isShownFirst_iff.symm

instance (m : Moment) : Decidable m.IsShownOnce := inferInstanceAs (Decidable (_ ∧ _))

end Moment

/-- The clocks of calm zones show what they show in order. -/
theorem Clock.IsKnown.showsInOrder {clock : Clock} (h : clock.IsKnown)
    (hname : ∀ name ∈ clock.name?, name ∉ ["Europe/London", "America/St_Johns", "Pacific/Apia",
      "Pacific/Kiritimati"]) : clock.ShowsInOrder := by
  cases clock with
  | universal => exact Clock.showsInOrder_universal
  | zoned z =>
    rcases Zone.isCalm_of_mem_table h (hname z.name rfl) with hcalm | hcalm
    · exact hcalm.showsInOrder
    · exact hcalm.showsInOrder

/-- Further dates on clocks of calm zones that show them once agree. -/
theorem Descriptor.dates_agree {text : Text} {zoneName : Option Text} {d : Descriptor}
    (hparse : (parse text zoneName).run.value = .ok d) {properties : List Property}
    (hproperties : Property.ofEvent text = .ok properties) {dates excluded : List Moment}
    (hlists : (dateLists (clockOf d.zone) properties).run.value = .ok (dates, excluded))
    (hshown : ∀ m ∈ dates, m.IsShownOnce ∧ ∀ name ∈ m.clock.name?, name ∉ ["Europe/London",
      "America/St_Johns", "Pacific/Apia", "Pacific/Kiritimati"]) :
    ∀ a ∈ d.dates, ∀ b ∈ d.dates, a.Agrees b := by
  have hknown := fun m hm => lists_isKnown hparse m (List.mem_append_left _ hm)
  obtain ⟨hdates, -⟩ := lists_of_parse hparse hproperties hlists
  have hlisted : ∀ m ∈ d.dates, m ∈ dates := by
    intro m hm
    rw [hdates, Moment.mem_sort] at hm
    exact (Moment.distinct_pairwise dates).2 m hm
  intro a ha b hb
  obtain ⟨honce, hname⟩ := hshown a (hlisted a ha)
  exact Moment.agrees_of_isShownOnce honce (hshown b (hlisted b hb)).1
    ((hknown a ha).eq_of_same (hknown b hb)) ((hknown a ha).showsInOrder hname)

/-! ## The further dates after a moment -/

/-- Without excluded dates the further dates of a schedule after a moment, if they agree, are the
elements of the set of the instants that its text lists. -/
theorem Source.datesNth_of_agrees {text : Text} {zoneName : Option Text} {d : Descriptor}
    (hparse : (Descriptor.parse text zoneName).run.value = .ok d) {properties : List Property}
    (hproperties : Property.ofEvent text = .ok properties) {dates : List Moment}
    (hlists : (Descriptor.dateLists (Descriptor.clockOf d.zone) properties).run.value =
      .ok (dates, []))
    (hagree : ∀ a ∈ d.dates, ∀ b ∈ d.dates, a.Agrees b) (now : WallTime) (k : Nat) :
    NthAfter {t | ∃ m ∈ dates, m.instant = t} now.ticks k
      ((datesNth d (Moment.universal now) k).map Moment.instant) := by
  obtain ⟨-, hexcluded⟩ := Descriptor.lists_of_parse hparse hproperties hlists
  have hincreasing := Descriptor.dates_increasing_of_agrees hparse hagree
  have hnone : (d.dates.filter fun m => !m.isIn d.excluded) = d.dates := by
    rw [hexcluded]
    exact List.filter_eq_self.mpr fun m _ => rfl
  -- a moment on the universal clock is compared by instants, whatever clock a date is on
  have hlater : (d.dates.filter (Moment.universal now).before).map Moment.instant =
      (d.dates.map Moment.instant).filter (now.ticks < ·) := by
    rw [List.filter_map]
    refine congrArg _ (List.filter_congr fun m _ => ?_)
    rw [Moment.before_eq (.inl rfl), Moment.instant_universal]
    rfl
  rw [datesNth_eq (hincreasing.imp fun h => le_of_lt h), hnone, ← List.getElem?_map, hlater,
    ← Descriptor.instants_dates hparse hproperties hlists]
  exact nthAfter_of_increasing (List.pairwise_map.mpr hincreasing) now.ticks k

set_option maxRecDepth 2000 in
/-- Noon of summer time in Berlin is ten o'clock in universal time, and is the second one of three
dates. -/
theorem Source.datesNth_of_two_clocks : ∃ d properties dates now,
    (Descriptor.parse ("DTSTART:20240101T000000Z\n" ++
      "RDATE;TZID=Europe/Berlin:20240601T120000,20240601T090000\n" ++
      "RDATE:20240601T100000Z,20240602T100000").toList none).run.value = .ok d ∧
    Property.ofEvent ("DTSTART:20240101T000000Z\n" ++
      "RDATE;TZID=Europe/Berlin:20240601T120000,20240601T090000\n" ++
      "RDATE:20240601T100000Z,20240602T100000").toList = .ok properties ∧
    (Descriptor.dateLists (Descriptor.clockOf d.zone) properties).run.value = .ok (dates, []) ∧
    (∀ a ∈ d.dates, ∀ b ∈ d.dates, a.Agrees b) ∧
    WallTime.ofFields? ⟨2024, 6, 1⟩ 0 0 0 0 = some now ∧
    ∀ k, NthAfter {t | ∃ m ∈ dates, m.instant = t} now.ticks k
      ((datesNth d (Moment.universal now) k).map Moment.instant) := by
  obtain ⟨d, properties, dates, now, hparse, hproperties, hlists, hnow, hshown⟩ :
      ∃ d properties dates now,
      (Descriptor.parse ("DTSTART:20240101T000000Z\n" ++
        "RDATE;TZID=Europe/Berlin:20240601T120000,20240601T090000\n" ++
        "RDATE:20240601T100000Z,20240602T100000").toList none).run.value = .ok d ∧
      Property.ofEvent ("DTSTART:20240101T000000Z\n" ++
        "RDATE;TZID=Europe/Berlin:20240601T120000,20240601T090000\n" ++
        "RDATE:20240601T100000Z,20240602T100000").toList = .ok properties ∧
      (Descriptor.dateLists (Descriptor.clockOf d.zone) properties).run.value = .ok (dates, []) ∧
      WallTime.ofFields? ⟨2024, 6, 1⟩ 0 0 0 0 = some now ∧
      ∀ m ∈ dates, m.IsShownOnce ∧ ∀ name ∈ m.clock.name?, name ∉ ["Europe/London",
        "America/St_Johns", "Pacific/Apia", "Pacific/Kiritimati"] :=
    ⟨_, _, _, _, rfl, rfl, rfl, rfl, by decide +kernel⟩
  have hagree := Descriptor.dates_agree hparse hproperties hlists hshown
  exact ⟨d, properties, dates, now, hparse, hproperties, hlists, hagree, hnow,
    fun k => datesNth_of_agrees hparse hproperties hlists hagree now k⟩

/-- Half past two is repeated in Berlin, and means half past midnight of universal time. On the two
clocks it is not the same, so that the one instant comes twice. -/
theorem Source.datesNth_repeated : ∃ d properties dates now,
    (Descriptor.parse ("DTSTART:20240101T000000Z\nRDATE;TZID=Europe/Berlin:20241027T023000\n" ++
      "RDATE:20241027T003000Z").toList none).run.value = .ok d ∧
    Property.ofEvent ("DTSTART:20240101T000000Z\nRDATE;TZID=Europe/Berlin:20241027T023000\n" ++
      "RDATE:20241027T003000Z").toList = .ok properties ∧
    (Descriptor.dateLists (Descriptor.clockOf d.zone) properties).run.value = .ok (dates, []) ∧
    WallTime.ofFields? ⟨2024, 10, 26⟩ 0 0 0 0 = some now ∧
    ¬ NthAfter {t | ∃ m ∈ dates, m.instant = t} now.ticks 1
      ((datesNth d (Moment.universal now) 1).map Moment.instant) := by
  obtain ⟨start, zone, components, excluded, a, b, properties, dates, now, hparse, hproperties, hlists,
      hnow, horder, hsecond⟩ :
      ∃ start zone components excluded a b properties dates now,
      (Descriptor.parse ("DTSTART:20240101T000000Z\nRDATE;TZID=Europe/Berlin:20241027T023000\n" ++
        "RDATE:20241027T003000Z").toList none).run.value =
          .ok ⟨start, zone, components, Moment.sort [a, b], excluded⟩ ∧
      Property.ofEvent ("DTSTART:20240101T000000Z\nRDATE;TZID=Europe/Berlin:20241027T023000\n" ++
        "RDATE:20241027T003000Z").toList = .ok properties ∧
      (Descriptor.dateLists (Descriptor.clockOf zone) properties).run.value = .ok (dates, []) ∧
      WallTime.ofFields? ⟨2024, 10, 26⟩ 0 0 0 0 = some now ∧
      (!b.before a) = true ∧
      ((datesNth ⟨start, zone, components, [a, b], excluded⟩ (Moment.universal now) 1).any fun n =>
        dates.all fun m => m.instant == n.instant) = true :=
    ⟨_, _, _, _, _, _, _, _, _, rfl, rfl, rfl, rfl, by decide +kernel, by decide +kernel⟩
  have hsorted : Moment.sort [a, b] = [a, b] :=
    List.mergeSort_of_pairwise (List.pairwise_pair.mpr horder)
  rw [hsorted] at hparse
  refine ⟨_, properties, dates, now, hparse, hproperties, hlists, hnow, ?_⟩
  obtain ⟨n, hn, hone⟩ := (Option.any_eq_true _ _).mp hsecond
  rw [hn]
  rintro ⟨-, -, hcount⟩
  -- all dates have the instant of the second one, so that none is before it
  have hnone : {t | ∃ m ∈ dates, m.instant = t} ∩ Set.Ioo now.ticks n.instant = ∅ := by
    rw [Set.eq_empty_iff_forall_notMem]
    rintro t ⟨⟨m, hm, rfl⟩, -, hlt⟩
    have hinstant := List.all_eq_true.mp hone m hm
    rw [beq_iff_eq] at hinstant
    omega
  rw [hnone, Set.ncard_empty] at hcount
  omega

end ScanPolicy
