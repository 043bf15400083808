import ScanPolicy.Proofs.Schedule.AlikeSources
import ScanPolicy.Proofs.Schedule.OrderedDates

/-!
# Schedules in the zone `UTC` and in universal time

A schedule whose start names no zone is read in universal time, unless a zone is asked for. It makes no
difference to ask for the zone `UTC`: the schedule that is read is alike, although its start, its last
moments and its dates without a zone of their own are on another clock.

- `Component.parse_alike`: rules that are read on alike clocks.
- `Descriptor.moments_alike`, `Descriptor.dateLists_alike`: dates that are read on alike clocks.
- `Descriptor.parse_namedUtc`: the schedules of both readings.
- `Schedule.next_namedUtc`: their next occurrences.
-/

namespace ScanPolicy

theorem Instant.parse_alike (value : Text) {clock clock' : Clock} (h : clock.Alike clock') :
    Corresponds Eq Moment.Alike (parse value clock) (parse value clock') := by
  unfold parse
  split
  · exact .ok (Moment.alike_universal _)
  · exact .ok (Moment.alike_of_clock _ h)
  · exact .error rfl

namespace Component

variable {start start' : Moment} {clock clock' : Clock} (hstart : start.Alike start')
  (hclock : clock.Alike clock')

theorem refuse_alike {α : Type} {R : α → α → Prop} (value : Text) {x x' : Except Fault α}
    (h : Corresponds Eq R x x') : Corresponds Eq R (refuse value x) (refuse value x') := by
  cases h with
  | ok h => exact .ok h
  | error h =>
    subst h
    unfold refuse
    split
    · exact .error rfl
    · exact .error rfl

theorem withBound_alike {rules rules' : Rules} (h : rules.Alike rules') {bound bound' : Option Moment}
    (hbound : Option.Rel Moment.Alike bound bound') :
    Corresponds Eq Rules.Alike (Rules.withBound rules bound) (Rules.withBound rules' bound') := by
  cases hbound with
  | none => cases h with
    | single hr => exact .ok (.single hr)
    | several hrs hexs => exact .ok (.several hrs hexs)
  | some hlast => cases h with
    | single hr => exact (Rule.withUntil_alike hr hlast).map fun _ _ h => .single h
    | several _ _ => exact .error rfl

theorem boundOf_alike (all : List (Text × Text)) (hclock : clock.Alike clock') :
    Corresponds Eq (Option.Rel Moment.Alike) (boundOf all clock) (boundOf all clock') := by
  unfold boundOf
  split
  · exact (Instant.parse_alike _ hclock).map fun _ _ h => .some h
  · exact .ok .none

theorem assemble_alike (hstart : start.Alike start') (value : Text) (all : List (Text × Text))
    (f : Frequency) (interval : Nat) (count : Option Nat) {bound bound' : Option Moment}
    (hbound : Option.Rel Moment.Alike bound bound') :
    Corresponds Eq Alike (assemble value start all f interval count bound)
      (assemble value start' all f interval count bound') := by
  have hsome : bound.isSome = bound'.isSome := by cases hbound <;> rfl
  unfold assemble
  rw [hsome]
  split
  · exact .error rfl
  · refine (refuse_alike value ((RuleText.read_alike hstart _).bind fun _ _ hread =>
      withBound_alike hread hbound)).bind fun rules rules' hrules => .ok ?_
    exact .mk ⟨some f, interval, count, none, _, none⟩ hbound (.some hrules)

include hstart hclock in
/-- A rule that is read for alike starts on alike clocks. -/
theorem parse_alike (value : Text) :
    Corresponds Eq Alike (parse value start clock) (parse value start' clock') := by
  cases hall : parts value with
  | error e =>
    unfold parse
    rw [hall]
    exact .error rfl
  | ok all =>
    rw [parse_eq hall, parse_eq hall]
    split
    · exact .error rfl
    · exact .bind_self _ fun interval => .bind_self _ fun count =>
        (boundOf_alike all hclock).bind fun _ _ hbound => assemble_alike hstart value all _ _ _ hbound

end Component

namespace Descriptor

variable {start start' : Moment} {clock clock' : Clock} (hclock : clock.Alike clock')

theorem zoned_alike {name : Text} {z : Zone} (h : Instant.loadZone name = .ok z) :
    (Clock.zoned z).Alike (.zoned z) := by
  have hnamed : Clock.namedUtc.IsKnown := List.mem_cons_self
  exact Clock.alike_self fun hsame => ((Clock.isKnown_of_loadZone h).eq_of_same hnamed hsame).symm

include hclock in
theorem moments_alike (p : Property) : Corresponds Eq (List.Forall₂ Moment.Alike)
    (moments p clock).run.value (moments p clock').run.value := by
  have hread {c c' : Clock} (h : c.Alike c') (vs : List Text) :
      Corresponds Eq (List.Forall₂ Moment.Alike) (vs.mapM (Instant.parse · c))
        (vs.mapM (Instant.parse · c')) := by
    refine Corresponds.mapM (R := Eq) (by rw [List.forall₂_eq_eq_eq]) fun v v' hv => ?_
    rw [hv]
    exact Instant.parse_alike v' h
  unfold moments
  split
  · rw [run_bind]
    exact .bind_self _ fun _ => .ok .nil
  · split
    · next name _ =>
      rw [run_bind]
      cases hload : Instant.loadZone name with
      | error e => exact .error rfl
      | ok z => exact hread (zoned_alike hload) _
    · exact hread hclock _

include hclock in
theorem dateLists_alike (ps : List Property) :
    Corresponds Eq (fun l l' => List.Forall₂ Moment.Alike l.1 l'.1 ∧ List.Forall₂ Moment.Alike l.2 l'.2)
      (dateLists clock ps).run.value (dateLists clock' ps).run.value := by
  induction ps with
  | nil => exact .ok ⟨.nil, .nil⟩
  | cons p rest ih =>
    unfold dateLists
    split
    · rw [run_bind, run_bind]
      refine (moments_alike hclock p).bind fun ms ms' hms => ?_
      rw [run_bind, run_bind]
      exact ih.bind fun l l' hl => .ok ⟨List.rel_append hms hl.1, hl.2⟩
    · split
      · rw [run_bind, run_bind]
        refine (moments_alike hclock p).bind fun ms ms' hms => ?_
        rw [run_bind, run_bind]
        exact ih.bind fun l l' hl => .ok ⟨hl.1, List.rel_append hms hl.2⟩
      · exact ih

include hclock in
theorem readComponents_alike (hstart : start.Alike start') (ps : List Property) :
    Corresponds Eq (List.Forall₂ Component.Alike) (readComponents start clock ps).run.value
      (readComponents start' clock' ps).run.value := by
  induction ps with
  | nil => exact .ok .nil
  | cons p rest ih =>
    have hparse := Component.parse_alike hstart hclock p.value
    unfold readComponents
    generalize Component.parse p.value start clock = x,
      Component.parse p.value start' clock' = x' at hparse ⊢
    cases hparse with
    | ok hc =>
      dsimp only
      rw [run_bind, run_bind]
      exact ih.bind fun cs cs' hcs => .ok (.cons hc hcs)
    | @error e _ he =>
      subst he
      cases e with
      | unreadable why =>
        dsimp only
        rw [run_bind, run_bind]
        exact ih
      | _ => exact .error rfl

/-- The start in the zone `UTC` and in universal time. -/
theorem startOf_namedUtc (value : Text) :
    Corresponds Eq Moment.Alike (startOf value (some Zone.Table.utcNamed)) (startOf value none) := by
  have hon (t : WallTime) {c : Clock} (hc : c.IsEitherUtc) :
      (⟨t, c, false⟩ : Moment).on? (.zoned Zone.Table.utcNamed) = some ⟨t, Clock.namedUtc, false⟩ :=
    Moment.on?_eitherUtc t hc (.inr rfl)
  unfold startOf Instant.parse
  split
  · next t _ =>
    dsimp only [clockOf, bind, Except.bind]
    rw [hon t (.inl rfl)]
    exact .ok (.utc t (.inr rfl) (.inl rfl))
  · next t _ =>
    dsimp only [clockOf, bind, Except.bind]
    rw [hon t (show Clock.IsEitherUtc (.zoned Zone.Table.utcNamed) from .inr rfl)]
    exact .ok (.utc t (.inr rfl) (.inl rfl))
  · exact .error rfl

/-- If the start of a text names no zone, it gives alike schedules in the zone `UTC` and without a zone,
or it fails in one way. -/
theorem parse_namedUtc {text : Text} (htext : ∀ ps p, Property.ofEvent text = .ok ps →
    ps.find? (·.isNamed "DTSTART") = some p → p.parameter? "TZID" = none) :
    Corresponds Eq Alike (parse text (some "UTC".toList)).run.value (parse text none).run.value := by
  cases hps : Property.ofEvent text with
  | error e =>
    unfold parse
    rw [run_bind, run_bind, run_lift, hps]
    exact .error rfl
  | ok ps =>
    rw [run_parse hps, run_parse hps]
    split
    · exact .error rfl
    · next p hp =>
      have hnamed : zoneOf (some "UTC".toList) p = .ok (some Zone.Table.utcNamed) := rfl
      have hnone : zoneOf none p = .ok none := by
        unfold zoneOf
        rw [htext ps p hps hp]
      have hclock : (clockOf (some Zone.Table.utcNamed)).Alike (clockOf none) := .utc (.inr rfl) (.inl rfl)
      rw [hnamed, hnone]
      refine (startOf_namedUtc p.value).bind fun start start' hstart => ?_
      refine (readComponents_alike hclock hstart _).bind fun kept kept' hkept => ?_
      have hempty : kept.isEmpty = kept'.isEmpty := by cases hkept <;> rfl
      rw [hempty]
      split
      · exact .error rfl
      · refine (dateLists_alike hclock ps).bind fun l l' hl => .ok ⟨hstart, ?_, ?_, ?_⟩
        · dsimp only
          split
          · exact .cons Component.alike_once .nil
          · exact hkept
        · exact Moment.sort_alike (Moment.distinct_alike hl.1)
        · exact Moment.distinct_alike hl.2

end Descriptor

/-- Asking for the zone `UTC` changes nothing for a text whose start names no zone: the next occurrences
are the same, and so are the faults. -/
theorem Schedule.next_namedUtc {text : Text} (htext : ∀ ps p, Property.ofEvent text = .ok ps →
    ps.find? (·.isNamed "DTSTART") = some p → p.parameter? "TZID" = none) (offset : Int)
    (now : WallTime) :
    (next text (some "UTC".toList) offset (.universal now)).run.value =
      (next text none offset (.universal now)).run.value := by
  have hparse := Descriptor.parse_namedUtc htext
  generalize hx : (Descriptor.parse text (some "UTC".toList)).run.value = x at hparse
  generalize hy : (Descriptor.parse text none).run.value = y at hparse
  unfold next
  split
  · rfl
  · rw [ExceptT.run_mk, ExceptT.run_mk, Traced.value_bind, Traced.value_bind, hx, hy]
    cases hparse with
    | ok hd => exact Descriptor.next_alike hd (Moment.alike_universal now) offset
    | @error e _ he =>
      subst he
      cases e <;> rfl

/-- A counted rule, a weekly one with a last day, and dates in the zone `UTC`, in another zone and in
none. -/
def Schedule.mixedDates : Text :=
  ("DTSTART:20240101T090000\nRRULE:FREQ=DAILY;COUNT=3\n" ++
    "RRULE:FREQ=WEEKLY;UNTIL=20240301;BYDAY=MO\nRDATE;TZID=UTC:20240110T090000\n" ++
    "RDATE;TZID=Europe/Berlin:20240110T110000\nEXDATE:20240108T090000").toList

set_option maxRecDepth 2000 in
theorem Schedule.next_namedUtc_of_mixed_dates :
    (∃ d, (Descriptor.parse mixedDates none).run.value = .ok d ∧ d.components.length = 2 ∧
      d.dates.length = 2 ∧ d.excluded.length = 1) ∧
    ∀ (offset : Int) (now : WallTime),
      (next mixedDates (some "UTC".toList) offset (.universal now)).run.value =
        (next mixedDates none offset (.universal now)).run.value := by
  obtain ⟨d, ps, p, hd, hcomponents, hdates, hexcluded, hps, hp, hzone⟩ : ∃ d ps p,
      (Descriptor.parse mixedDates none).run.value = .ok d ∧ d.components.length = 2 ∧
      d.dates.length = 2 ∧ d.excluded.length = 1 ∧ Property.ofEvent mixedDates = .ok ps ∧
      ps.find? (·.isNamed "DTSTART") = some p ∧ p.parameter? "TZID" = none :=
    ⟨_, _, _, rfl, rfl, (List.length_mergeSort _).trans rfl, rfl, rfl, rfl, rfl⟩
  refine ⟨⟨d, hd, hcomponents, hdates, hexcluded⟩, next_namedUtc fun ps' p' hps' hp' => ?_⟩
  obtain rfl : ps = ps' := Except.ok.inj (hps.symm.trans hps')
  obtain rfl : p = p' := Option.some.inj (hp.symm.trans hp')
  exact hzone

end ScanPolicy
