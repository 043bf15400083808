import ScanPolicy.Proofs.Recurrence.ResolvableRules
import ScanPolicy.Proofs.Schedule.ClockNext
import ScanPolicy.Proofs.Schedule.ComponentRules
import ScanPolicy.Proofs.Schedule.Merge

/-!
# Schedules that always have an answer

The next occurrence of a schedule may break off in three ways that are not an answer: a
part of a rule has a number that is found in no year or on no dial, several rules in one
text cannot be moved, and a date that was found has no universal time. Without the first
two, the third one is all that remains.

- `Component.IsResolvable`, `Descriptor.IsResolvable`: schedules without the first two.
- `Parts.TakesFrom.pin`: what a moved rule keeps.
- `Source.nthAfter_isOk`: every source has an answer.
- `Descriptor.next_isOk_iff`: when a schedule has an answer in universal time.
-/

namespace ScanPolicy

/-- A component of which the expanding parts are those of one rule, with numbers that can be found.
Numbered weekdays are given by the name that is looked for when the rule is moved. -/
structure Component.IsResolvable (c : Component) (r : Rule) : Prop where
  rules_eq : c.rules = some (.single r)
  resolvable : r.IsResolvable
  named : r.numberedWeekdays ≠ [] → "BYDAY".toList ∈ c.expanders

/-- Whether all components of a schedule with expanding parts are such. -/
def Descriptor.IsResolvable (d : Descriptor) : Prop :=
  ∀ c ∈ d.components, c.expanders ≠ [] → ∃ r, c.IsResolvable r

/-! ## Moved rules -/

/-- What a moved rule takes from the start of the schedule has no weekdays with numbers, and it has no
months if the rule numbers weekdays. -/
theorem Parts.TakesFrom.pin {r : Rule} {p : Parts} (h : p.TakesFrom r) {c : Component}
    (hnamed : r.numberedWeekdays ≠ [] → "BYDAY".toList ∈ c.expanders) (start : Moment) :
    (Source.pin start c p).TakesFrom r := by
  obtain ⟨hhour, hminute, -⟩ := start.wall.hour_minute_spec
  have hnone : ¬ (c.expanders.any fun e => Source.dayChoosers.contains e) = true →
      r.numberedWeekdays = [] := by
    intro hchooses
    by_contra hne
    exact hchooses (List.any_eq_true.mpr ⟨_, hnamed hne, by decide⟩)
  have hpinned : ∀ {b : Bool} {q : Parts}, q.TakesFrom r →
      (if b then q else { q with hours := some [(start.wall.hour : Int)] }).TakesFrom r ∧
      (if b then q else { q with minutes := some [(start.wall.minute : Int)] }).TakesFrom r ∧
      (if b then q else { q with seconds := some [(start.wall.second : Int)] }).TakesFrom r := by
    intro b q hq
    cases b with
    | true => exact ⟨hq, hq, hq⟩
    | false =>
      refine ⟨{ hq with hours := ?_ }, { hq with minutes := ?_ }, { hq with }⟩
      · rintro _ ⟨⟩
        exact .inr ⟨_, hhour, rfl⟩
      · rintro _ ⟨⟩
        exact .inr ⟨_, hminute, rfl⟩
  -- hours, minutes and seconds are taken last, so that only the days are left to look at
  unfold Source.pin
  dsimp only
  refine (hpinned (hpinned (hpinned ?_).1).2.1).2.2
  split
  · exact h
  · next hchooses =>
    split
    · split
      · exact { h with }
      · exact { h with months := fun hne => absurd (hnone hchooses) hne }
    · exact { h with }
    · refine { h with weekdays := ?_ }
      rintro _ ⟨⟩ w hw n hn
      rw [List.mem_singleton.mp hw] at hn
      cases hn
    · exact h

namespace Source

variable {text : Text} {zoneName : Option Text} {d : Descriptor} {c : Component} {r : Rule}

/-- A resolvable rule is moved to a resolvable one. -/
theorem isResolvable_moved {start now : Moment} {moved : Rules} (h : c.IsResolvable r)
    (hr : r.IsCompleted start.clock) (hmoved : anchored start c (.single r) now = .ok moved) :
    ∃ r', moved = .single r' ∧ r'.IsResolvable ∧ r'.IsCompleted start.clock := by
  rcases anchored_cases hmoved with rfl | ⟨_, r', index, anchor, ⟨⟩, rfl, hanchor, hr', -⟩
  · exact ⟨r, rfl, h.resolvable, hr⟩
  · have hkept : r.given.TakesFrom r := by
      cases hr with
      | ofParts _ _ hr => exact Rule.takesFrom_given hr
    exact ⟨r', rfl, h.resolvable.of_takesFrom (hkept.pin h.named start) hr',
      .ofParts (Plain.clock_of_occurrence hanchor) hr.isRead.weekStart_lt hr'⟩

/-- The walk through a resolvable rule, moved or not, breaks off only where the search ends. -/
theorem expandedNth_failsOnly (h : c.IsResolvable r) (hr : r.IsCompleted d.start.clock)
    (now : Moment) (k : Nat) :
    FailsOnly (·.endsSearch = true) (expandedNth d c (.single r) now k) := by
  refine FailsOnly.bind ?_ fun moved hmoved => ?_
  · unfold anchored
    split
    · refine (Plain.elapsedPeriods_failsOnly _ _ _ _).bind fun elapsed _ => ?_
      dsimp only
      split
      · exact failsOnly_ok _
      · exact (Plain.occurrence_failsOnly _ _ _).bind fun anchor _ => Rule.ofParts_endsSearch.map
    · exact failsOnly_ok _
  · obtain ⟨r', rfl, hresolvable, hcompleted⟩ := isResolvable_moved h hr hmoved
    have hreach : r'.ReachesListed := by
      cases hcompleted with
      | ofParts _ _ hr' => exact Rule.reachesListed_of_ofParts hr'
    exact Rule.search_failsOnly (hresolvable.isTame hreach)
      (hcompleted.isRead.complete hresolvable.interval_pos) _ _ _ _

theorem plainNth_failsOnly (d : Descriptor) (c : Component) (now : Moment) (k : Nat) :
    FailsOnly (·.endsSearch = true) (plainNth d c now k) := by
  refine (Plain.firstIndexAfter_failsOnly _ _ _).bind fun first _ => ?_
  dsimp only
  split
  · exact failsOnly_ok _
  · refine (Plain.occurrence_failsOnly _ _ _).bind fun m _ => ?_
    split
    · exact failsOnly_ok _
    · exact failsOnly_ok _

/-- Every source of such a schedule has a date or tells that there is none. -/
theorem nthAfter_isOk (hparse : (Descriptor.parse text zoneName).run.value = .ok d)
    (hresolvable : d.IsResolvable) {s : Source} (hs : s ∈ d.sources) (now : Moment) (k : Nat) :
    ∃ x, s.nthAfter d now k = .ok x := by
  have horNone : ∀ {x : Except Fault (Option Moment)}, FailsOnly (·.endsSearch = true) x →
      ∃ y, orNone x = .ok y := by
    intro x hx
    cases x with
    | ok y => exact ⟨y, rfl⟩
    | error e => exact ⟨none, orNone_error (hx e rfl)⟩
  rcases Descriptor.source_of_parse hparse hs with
    rfl | ⟨c, hc, rfl, -, ⟨hplain, -⟩ | ⟨hexpanders, rules, hrules⟩⟩
  · exact ⟨_, rfl⟩
  · rw [nthAfter_plain hplain]
    exact horNone (plainNth_failsOnly d c now k)
  · obtain ⟨r, h⟩ := hresolvable c hc hexpanders
    rw [nthAfter_expanded hexpanders h.rules_eq]
    exact horNone (expandedNth_failsOnly h
      (Descriptor.isCompleted_rules hparse hc h.rules_eq r List.mem_cons_self) now k)

end Source

namespace Descriptor

/-- The date that is the answer of a schedule, on its own clock: the source with the earliest
candidate gives it. -/
def found (d : Descriptor) (now : Moment) (k : Nat) : Except Fault (Option Moment) := do
  match earliest (← candidates d now d.sources) with
  | none => return none
  | some (_, source) => source.nthAfter d now k

theorem found_of_candidates {d : Descriptor} {now : Moment} {cs : List (Moment × Source)}
    (h : candidates d now d.sources = .ok cs) (k : Nat) :
    d.found now k = match earliest cs with
      | none => .ok none
      | some (_, source) => source.nthAfter d now k := by
  unfold found
  rw [h]
  rfl

/-- The date is found first and then put on the universal clock. -/
theorem next_eq_found (d : Descriptor) (now : Moment) (k : Nat) :
    d.next now k = d.found now k >>= answer := by
  cases hcandidates : candidates d now d.sources with
  | error e =>
    unfold next found
    rw [if_neg (by omega), hcandidates]
    rfl
  | ok cs =>
    rw [found_of_candidates hcandidates]
    cases hearliest : earliest cs with
    | none =>
      cases cs with
      | nil => exact next_of_no_candidates k hcandidates
      | cons c rest => cases hearliest
    | some c =>
      have hfirst := ((candidates_spec hcandidates).2 c (earliest_mem hearliest)).2
      exact next_of_earliest hcandidates hearliest hfirst k

variable {text : Text} {zoneName : Option Text} {d : Descriptor}

/-- The search for the date does not break off. -/
theorem found_isOk (hparse : (parse text zoneName).run.value = .ok d)
    (hresolvable : d.IsResolvable) (now : Moment) (k : Nat) : ∃ x, d.found now k = .ok x := by
  have hsources : ∀ s ∈ d.sources, ∀ j, ∃ x, s.nthAfter d now j = .ok x :=
    fun s hs => Source.nthAfter_isOk hparse hresolvable hs now
  have hfirst : ∀ s ∈ d.sources, s.nthAfter d now 0 = .ok (s.nthAfter d now 0).toOption.join := by
    intro s hs
    obtain ⟨x, hx⟩ := hsources s hs 0
    rw [hx]
    rfl
  obtain ⟨cs, hcs⟩ : ∃ cs, candidates d now d.sources = .ok cs := ⟨_, candidates_eq hfirst⟩
  rw [found_of_candidates hcs]
  cases hearliest : earliest cs with
  | none => exact ⟨none, rfl⟩
  | some c => exact hsources c.2 ((candidates_spec hcs).2 c (earliest_mem hearliest)).1 k

end Descriptor

end ScanPolicy
