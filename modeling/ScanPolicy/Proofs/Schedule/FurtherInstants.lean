import ScanPolicy.Proofs.Recurrence.WalkOrder
import ScanPolicy.Proofs.Schedule.ComponentRules
import ScanPolicy.Proofs.Schedule.OrderedDates
import ScanPolicy.Proofs.Schedule.PlainOrder
import ScanPolicy.Proofs.Zone.Calm

/-!
# Further occurrences

The further occurrences after a moment are those of one source: the numbered dates of a plain
rule, the dates of a walk, which are in the order of the wall, or the further dates that were
sorted. Their instants increase as long as the clocks show the dates of the last two kinds,
and skip none of them.

- `Source.plainNth_of_further`, `Source.expandedNth_spec`, `Source.datesNth_of_further`: one
  source.
- `Descriptor.next_of_further`: the next occurrences of a schedule.
- `Descriptor.next_not_increasing`: a skipped date comes first and is later.
-/

namespace ScanPolicy

/-- Two members of a list in order. -/
theorem rel_of_getElem? {α : Type} {R : α → α → Prop} {xs : List α} (h : xs.Pairwise R) {j k : Nat}
    (hjk : j < k) {a b : α} (ha : xs[j]? = some a) (hb : xs[k]? = some b) : R a b := by
  obtain ⟨hj, rfl⟩ := List.getElem?_eq_some_iff.mp ha
  obtain ⟨hk, rfl⟩ := List.getElem?_eq_some_iff.mp hb
  exact List.pairwise_iff_getElem.mp h j k hj hk hjk

/-! ## One source -/

namespace Source

variable {d : Descriptor} {c : Component} {now : WallTime} {k : Nat} {n : Moment}

/-- Whether the clock shows all dates after a moment that the rules of a component yield where they
are moved for that moment. -/
def YieldsShown (d : Descriptor) (c : Component) (rules : Rules) (now : Moment) : Prop :=
  ∀ moved, anchored d.start c rules now = .ok moved →
    ∀ m ∈ yielded RuleSet.step stepLimit (walk moved d.excluded), now.before m → m.IsShownFirst

theorem lt_of_mem_filter {ms : List Moment} {m : Moment}
    (h : m ∈ ms.filter (Moment.universal now).before) : now.ticks < m.instant := by
  have hbefore := (List.mem_filter.mp h).2
  rwa [Moment.before_eq (.inl rfl), Moment.instant_universal, decide_eq_true_iff] at hbefore

/-- The walk through moved rules starts soundly. -/
theorem isSound_walk {rules moved : Rules} {t : Moment}
    (hrules : ∀ r ∈ rules.list, r.IsRead d.start.clock ∧ 0 < r.interval)
    (hmoved : anchored d.start c rules t = .ok moved) :
    (walk moved d.excluded).IsSound d.start.clock := by
  have hlist := isRead_anchored hmoved hrules
  cases moved with
  | single r => exact RuleSet.isSound_ofRules [] d.excluded hlist
  | several rs exs => exact RuleSet.isSound_ofRules exs d.excluded hlist

/-- The further dates of rules with expanding parts. -/
theorem expandedNth_spec {rules : Rules}
    (hrules : ∀ r ∈ rules.list, r.IsRead d.start.clock ∧ 0 < r.interval)
    (horder : d.start.clock.ShowsInOrder) (hshown : YieldsShown d c rules (Moment.universal now))
    (h : orNone (expandedNth d c rules (Moment.universal now) k) = .ok (some n)) :
    now.ticks < n.instant ∧ ∀ j < k, ∃ m,
      orNone (expandedNth d c rules (Moment.universal now) j) = .ok (some m) ∧
        m.instant < n.instant := by
  obtain ⟨moved, hmoved, hsearch⟩ := bind_eq_ok_iff.mp (orNone_eq_some h)
  have hk := (search_eq_getElem? hsearch).symm
  refine ⟨lt_of_mem_filter (List.mem_of_getElem? hk), fun j hjk => ?_⟩
  obtain ⟨m, hm⟩ := search_of_further hjk hsearch
  refine ⟨m, ?_, ?_⟩
  · unfold expandedNth
    rw [hmoved]
    show orNone (search RuleSet.step _ stepLimit (.after j) (walk moved d.excluded)) = _
    rw [hm]
    rfl
  · -- the walk yields dates in the order of the wall, which is the order of the instants
    obtain ⟨hsorted, hspec⟩ := RuleSet.yielded_spec (isSound_walk hrules hmoved) stepLimit
    have hinstants := Moment.instants_increasing horder (hsorted.filter (Moment.universal now).before)
      fun a ha => by
        obtain ⟨ha, hnow⟩ := List.mem_filter.mp ha
        exact ⟨by rw [(hspec a ha).1]; rfl, hshown moved hmoved a ha hnow⟩
    exact rel_of_getElem? hinstants hjk (search_eq_getElem? hm).symm hk

/-- The further dates of a schedule that its clocks show once. -/
theorem datesNth_of_further (hincreasing : d.dates.Pairwise fun a b => a.instant < b.instant)
    (h : datesNth d (Moment.universal now) k = some n) :
    now.ticks < n.instant ∧ ∀ j < k, ∃ m, datesNth d (Moment.universal now) j = some m ∧
      m.instant < n.instant := by
  have hordered := hincreasing.imp fun {a b : Moment} hab => le_of_lt hab
  rw [datesNth_eq hordered] at h
  refine ⟨lt_of_mem_filter (List.mem_of_getElem? h), fun j hjk => ?_⟩
  obtain ⟨hlt, -⟩ := List.getElem?_eq_some_iff.mp h
  have hm := List.getElem?_eq_getElem (hjk.trans hlt)
  refine ⟨_, (datesNth_eq hordered now j).trans hm, ?_⟩
  exact rel_of_getElem? ((hincreasing.filter _).filter _) hjk hm h

end Source

/-! ## All sources -/

namespace Descriptor

/-- What the further dates of the sources need to be in the order of their instants: days must be
separated, and dates of walks and further dates must not be skipped. -/
structure HasOrderedSources (d : Descriptor) (now : Moment) : Prop where
  plain : ∀ c ∈ d.components, c.expanders = [] → c.KeepsOrder d.start ∧
    ∀ f ∈ c.freq, ¬ f.isSubDaily → d.start.clock.SeparatesDays
  expanded : ∀ c ∈ d.components, c.expanders ≠ [] → ∀ rules ∈ c.rules,
    (∀ r ∈ rules.list, 0 < r.interval) ∧ d.start.clock.ShowsInOrder ∧
      Source.YieldsShown d c rules now
  dates : ∀ m ∈ d.dates, m.IsShownOnce ∧ m.clock.ShowsInOrder

/-- The further dates of a source are after the moment and in the order of their instants. -/
theorem nthAfter_spec {text : Text} {zoneName : Option Text} {d : Descriptor}
    (hparse : (parse text zoneName).run.value = .ok d) {now : WallTime}
    (hordered : d.HasOrderedSources (Moment.universal now)) {s : Source} (hs : s ∈ d.sources) {k : Nat}
    {n : Moment} (h : s.nthAfter d (Moment.universal now) k = .ok (some n)) :
    now.ticks < n.instant ∧ ∀ j < k, ∃ m, s.nthAfter d (Moment.universal now) j = .ok (some m) ∧
      m.instant < n.instant := by
  rcases source_of_parse hparse hs with rfl | ⟨c, hc, rfl, hinterval, hshape⟩
  · obtain ⟨hnow, hfurther⟩ := Source.datesNth_of_further
      (dates_increasing hparse hordered.dates) (Except.ok.inj h)
    refine ⟨hnow, fun j hjk => ?_⟩
    obtain ⟨m, hm, hlt⟩ := hfurther j hjk
    exact ⟨m, congrArg Except.ok hm, hlt⟩
  rcases hshape with ⟨hplain, honce⟩ | ⟨hexpanders, rules, hrules⟩
  · obtain ⟨hkeeps, hseparates⟩ := hordered.plain c hc hplain
    simp only [Source.nthAfter_plain hplain] at h ⊢
    have hnow := Source.now_lt_of_plainNth hinterval (Moment.comparesOn_of_universal rfl)
      (fun _ f hf => (hkeeps.counts f hf).keepsOccurrences) honce h
    rw [Moment.instant_universal] at hnow
    exact ⟨hnow, fun j hjk => Source.plainNth_of_further hkeeps hinterval hjk honce hseparates h⟩
  · obtain ⟨hpos, horder, hshown⟩ := hordered.expanded c hc hexpanders rules hrules
    simp only [Source.nthAfter_expanded hexpanders hrules] at h ⊢
    exact Source.expandedNth_spec
      (fun r hr => ⟨isRead_rules hparse hc hrules r hr, hpos r hr⟩) horder hshown h

/-- The further occurrences of a schedule are after the moment, and if there is one, all occurrences
before it are there and are earlier. -/
theorem next_of_further {text : Text} {zoneName : Option Text} {d : Descriptor}
    (hparse : (parse text zoneName).run.value = .ok d) {now : WallTime}
    (hordered : d.HasOrderedSources (Moment.universal now)) {k : Nat} {n : Moment}
    (h : d.next (Moment.universal now) k = .ok (some n)) :
    now.ticks < n.instant ∧ ∀ j < k, ∀ x, d.next (Moment.universal now) j = .ok x →
      ∃ m, x = some m ∧ m.instant < n.instant := by
  rcases source_of_next h with hnone | ⟨s, hs, -, -, hnext⟩
  · rw [hnone k] at h
    cases h
  · rw [hnext k] at h
    obtain ⟨y, hy, hanswer⟩ := bind_eq_ok_iff.mp h
    obtain ⟨n', rfl, hinstant⟩ := answer_eq_some hanswer
    obtain ⟨hnow, hfurther⟩ := nthAfter_spec hparse hordered hs hy
    refine ⟨hinstant ▸ hnow, fun j hjk x hx => ?_⟩
    obtain ⟨m, hm, hlt⟩ := hfurther j hjk
    rw [hnext j, hm] at hx
    obtain ⟨r, hr, hr'⟩ := exists_of_answer hx
    exact ⟨r, hr, by omega⟩

set_option maxRecDepth 2000 in
/-- The third occurrence of a counted rule with expanding parts beside a daily rule and a date. -/
theorem next_of_further_of_counted_rule : ∃ d now n,
    (parse ("DTSTART;TZID=Europe/Berlin:20240101T090000\nRRULE:FREQ=DAILY\n" ++
      "RRULE:FREQ=DAILY;BYHOUR=7;COUNT=3\nRDATE:20240105T110000Z").toList none).run.value = .ok d ∧
    WallTime.ofFields? ⟨2024, 1, 1⟩ 9 0 0 0 = some now ∧
    d.next (Moment.universal now) 2 = .ok (some n) ∧ now.ticks < n.instant ∧
    ∀ j < 2, ∀ x, d.next (Moment.universal now) (j : Nat) = .ok x →
      ∃ m, x = some m ∧ m.instant < n.instant := by
  obtain ⟨d, now, c, c', r, start, hd, hclock, hnow, hcomponents, hplain, hbound, hcount, hexpanders,
      hrules, hinterval, hstart, hstartShown, hyields, hdates, hnext⟩ : ∃ d now c c' r start,
      (parse ("DTSTART;TZID=Europe/Berlin:20240101T090000\nRRULE:FREQ=DAILY\n" ++
        "RRULE:FREQ=DAILY;BYHOUR=7;COUNT=3\nRDATE:20240105T110000Z").toList none).run.value = .ok d ∧
      d.start.clock = .zoned Zone.Table.europeBerlin ∧
      WallTime.ofFields? ⟨2024, 1, 1⟩ 9 0 0 0 = some now ∧ d.components = [c, c'] ∧
      c.expanders = [] ∧ c.bound = none ∧ c'.count = some 3 ∧
      c'.expanders = ["BYHOUR".toList] ∧ c'.rules = some (.single r) ∧ r.interval = 1 ∧
      WallTime.ofTicks? d.start.instant = some start ∧
      ((Moment.universal start).on? (.zoned Zone.Table.europeBerlin)).isSome = true ∧
      ((yielded RuleSet.step stepLimit (Source.walk (.single r) d.excluded)).all fun m =>
        (WallTime.ofTicks? m.instant).any fun t =>
          Zone.Table.europeBerlin.ofUniversal t == (3600, false) &&
          m.wall.ticks == t.ticks + 3600 * Span.second) = true ∧
      (d.dates.all fun m => m.clock.same .universal && !m.fold) = true ∧
      ((d.next (Moment.universal now) 2).toOption.any Option.isSome) = true :=
    ⟨_, _, _, _, _, _, rfl, rfl, rfl, rfl, rfl, rfl, rfl, rfl, rfl, rfl, rfl, by decide +kernel,
      by decide +kernel, by decide +kernel, by decide +kernel⟩
  have hcalm := Zone.isCalm_europeBerlin
  obtain ⟨x, hx, hsome⟩ := (Option.any_eq_true _ _).mp hnext
  obtain ⟨n, rfl⟩ := Option.isSome_iff_exists.mp hsome
  have hn := ok_of_toOption hx
  have hcomponent : ∀ c₀ ∈ d.components, c₀ = c ∨ c₀ = c' := by
    intro c₀ hc₀
    rw [hcomponents] at hc₀
    simpa using hc₀
  have hordered : d.HasOrderedSources (Moment.universal now) := by
    refine ⟨fun c₀ hc₀ hnil => ?_, fun c₀ hc₀ hexpanding rules hrules' => ?_, fun m hm => ?_⟩
    · rcases hcomponent c₀ hc₀ with rfl | rfl
      · refine ⟨.of_isCalm hcalm hclock
          ⟨start, WallTime.ticks_of_ofTicks? hstart, hstartShown⟩ fun u hu => ?_, fun f _ _ => ?_⟩
        · rw [hbound] at hu
          cases hu
        · rw [hclock]
          exact hcalm.separatesDays
      · rw [hexpanders] at hnil
        cases hnil
    · rcases hcomponent c₀ hc₀ with rfl | rfl
      · exact absurd hplain hexpanding
      · obtain rfl : rules = .single r := Option.some.inj (hrules'.symm.trans hrules)
        have hpos : ∀ r' ∈ (Rules.single r).list, 0 < r'.interval := fun r' hr' => by
          rw [List.mem_singleton.mp hr', hinterval]
          exact Nat.one_pos
        refine ⟨hpos, hclock ▸ hcalm.showsInOrder, fun moved hmoved m hm _ => ?_⟩
        have hsound := Source.isSound_walk
          (fun r' hr' => ⟨isRead_rules hd hc₀ hrules r' hr', hpos r' hr'⟩) hmoved
        obtain ⟨-, hspec⟩ := RuleSet.yielded_spec hsound stepLimit
        have hreading := (hspec m hm).1
        rw [Source.anchored_of_count hcount] at hmoved
        cases hmoved
        obtain ⟨t, -, hshown⟩ := (Option.any_eq_true _ _).mp (List.all_eq_true.mp hyields m hm)
        rw [Bool.and_eq_true, beq_iff_eq, beq_iff_eq] at hshown
        have hfold : m.fold = false := by rw [hreading]; rfl
        refine hcalm.isShownFirst (t := t) (Moment.on?_zoned.mpr ⟨?_, ?_, ?_⟩) hfold
        · rw [hreading]
          exact hclock
        · rw [hfold, hshown.1]
        · rw [hshown.1]
          exact hshown.2
    · have huniversal := Moment.isUniversal_of_same (List.all_eq_true.mp hdates m hm)
      rw [show m = _ from huniversal]
      exact ⟨Moment.isShownOnce_universal _, Clock.showsInOrder_universal⟩
  obtain ⟨hnow', hfurther⟩ := next_of_further (k := 2) hd hordered hn
  exact ⟨d, now, n, hd, hnow, hn, hnow', hfurther⟩

/-- A quarter to three is skipped and means a quarter to four of summer time. Its wall time is before
three, so that it comes first. -/
theorem next_not_increasing : ∃ d now m n,
    (parse ("DTSTART;TZID=Europe/Berlin:20240101T000000\n" ++
      "RDATE;TZID=Europe/Berlin:20240331T024500,20240331T030000").toList none).run.value = .ok d ∧
    WallTime.ofFields? ⟨2024, 3, 31⟩ 0 0 0 0 = some now ∧
    d.next (Moment.universal now) 0 = .ok (some m) ∧
    d.next (Moment.universal now) 1 = .ok (some n) ∧ n.instant < m.instant := by
  obtain ⟨start, zone, components, excluded, a, b, now, hd, hnow, hbefore, hearlier⟩ :
      ∃ start zone components excluded a b now,
      (parse ("DTSTART;TZID=Europe/Berlin:20240101T000000\n" ++
        "RDATE;TZID=Europe/Berlin:20240331T024500,20240331T030000").toList none).run.value =
          .ok ⟨start, zone, components, Moment.sort [a, b], excluded⟩ ∧
      WallTime.ofFields? ⟨2024, 3, 31⟩ 0 0 0 0 = some now ∧ b.before a = true ∧
      ((next ⟨start, zone, components, [b, a], excluded⟩ (Moment.universal now) 0).toOption.join.any
        fun m => (next ⟨start, zone, components, [b, a], excluded⟩ (Moment.universal now)
          1).toOption.join.any fun n => decide (n.instant < m.instant)) = true :=
    ⟨_, _, _, _, _, _, _, rfl, rfl, by decide +kernel, by decide +kernel⟩
  rw [Moment.sort_pair hbefore] at hd
  obtain ⟨m, hm, hearlier⟩ := (Option.any_eq_true _ _).mp hearlier
  obtain ⟨n, hn, hearlier⟩ := (Option.any_eq_true _ _).mp hearlier
  exact ⟨_, now, m, n, hd, hnow, ok_of_toOption (Option.join_eq_some_iff.mp hm),
    ok_of_toOption (Option.join_eq_some_iff.mp hn), decide_eq_true_iff.mp hearlier⟩

end Descriptor

end ScanPolicy
