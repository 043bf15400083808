import ScanPolicy.Proofs.Recurrence.NamedUtc
import ScanPolicy.Schedule.Next

/-!
# Sources of dates in the zone `UTC` and in universal time

Schedules that are the same but for the name of universal time have the same next occurrences. Where a
source counts periods or looks for a place, alike moments give the same number; where it gives a date,
they give alike dates.

- `Component.Alike`, `Descriptor.Alike`: such components and schedules.
- `Plain.occurrence_alike`, `Plain.firstIndexAfter_alike`, `Plain.excludedIndices_alike`: plain rules.
- `Source.expandedNth_alike`, `Source.datesNth_alike`: rules with expanding parts and further dates.
- `Descriptor.next_alike`: the next occurrences.
-/

namespace ScanPolicy

/-- Components that are the same but for the name of universal time. -/
inductive Component.Alike : Component → Component → Prop
  | mk (c : Component) {bound bound' : Option Moment} {rules rules' : Option Rules}
      (hbound : Option.Rel Moment.Alike bound bound') (hrules : Option.Rel Rules.Alike rules rules') :
      Alike { c with bound, rules } { c with bound := bound', rules := rules' }

/-- Schedules that are the same but for the name of universal time. -/
structure Descriptor.Alike (d d' : Descriptor) : Prop where
  start : d.start.Alike d'.start
  components : List.Forall₂ Component.Alike d.components d'.components
  dates : List.Forall₂ Moment.Alike d.dates d'.dates
  excluded : List.Forall₂ Moment.Alike d.excluded d'.excluded

theorem Component.alike_once : Component.once.Alike Component.once := .mk Component.once .none .none

/-- Of values that are related or missing together, both are within the calendar or none is. -/
theorem within_rel {α β : Type} {R : α → β → Prop} {o : Option α} {o' : Option β} (h : Option.Rel R o o') :
    Corresponds Eq R (within o) (within o') := by
  cases h with
  | none => exact .error rfl
  | some h => exact .ok h

theorem rel_bind {α β γ δ : Type} {R : α → β → Prop} {S : γ → δ → Prop} {o : Option α} {o' : Option β}
    (h : Option.Rel R o o') {f : α → Option γ} {g : β → Option δ}
    (hfg : ∀ a b, R a b → Option.Rel S (f a) (g b)) : Option.Rel S (o.bind f) (o'.bind g) := by
  cases h with
  | none => exact .none
  | some h => exact hfg _ _ h

/-! ## Plain rules -/

namespace Plain

variable {start start' now now' : Moment} {c c' : Component} (hstart : start.Alike start')
  (hc : c.Alike c') (hnow : now.Alike now')

include hstart in
theorem addMonths_alike (count : Nat) :
    Corresponds Eq Moment.Alike (addMonths start count) (addMonths start' count) := by
  unfold addMonths
  rw [hstart.wall_eq]
  dsimp only
  split
  · split
    · exact .error rfl
    · exact .error rfl
  · refine within_rel ?_
    cases WallTime.ofTicks? _ with
    | none => exact .none
    | some t => exact .some (Moment.alike_of_clock t hstart.clock)

include hstart hc in
theorem occurrence_alike (index : Nat) :
    Corresponds Eq Moment.Alike (occurrence start c index) (occurrence start' c' index) := by
  cases hc with
  | mk c hbound hrules =>
    unfold occurrence
    dsimp only
    split
    · exact .ok hstart
    · split
      · next unit _ =>
        refine within_rel (rel_bind (hstart.on? Clock.alike_universal) fun m m' hm => ?_)
        cases Span.times? ((index * c.interval : Nat) : Int) unit with
        | none => exact .none
        | some span => exact rel_bind (hm.add? span) fun t t' ht => ht.on? hstart.clock
      · next unit _ =>
        refine within_rel ?_
        cases Span.times? ((index * c.interval : Nat) : Int) unit with
        | none => exact .none
        | some span => exact hstart.add? span
      · exact addMonths_alike hstart _

include hstart hc hnow in
theorem elapsedPeriods_alike (f : Frequency) :
    Corresponds Eq Eq (elapsedPeriods start c f now) (elapsedPeriods start' c' f now') := by
  cases hc with
  | mk c hbound hrules =>
    unfold elapsedPeriods
    dsimp only
    split
    · refine .bind_self _ fun period => .ok ?_
      rw [hnow.since_eq hstart]
    · refine (within_rel (hnow.on? hstart.clock)).bind fun m m' hm => .bind_self _ fun period => .ok ?_
      rw [hm.wall_eq, hstart.wall_eq]
    · refine (within_rel (hnow.on? hstart.clock)).bind fun m m' hm => .ok ?_
      rw [hm.wall_eq, hstart.wall_eq]

include hstart hc hnow in
theorem descend_alike (n : Nat) :
    Corresponds Eq Eq (descend start c now n) (descend start' c' now' n) := by
  induction n with
  | zero => exact .ok rfl
  | succ n ih =>
    have ho := occurrence_alike hstart hc n
    unfold descend
    generalize occurrence start c n = o, occurrence start' c' n = o' at ho ⊢
    cases ho with
    | error he => exact .error he
    | ok ho =>
      dsimp only
      rw [hnow.before_eq ho]
      split
      · exact ih
      · exact .ok rfl

include hstart hc hnow in
theorem ascend_alike (fuel n : Nat) :
    Corresponds Eq Eq (ascend start c now fuel n) (ascend start' c' now' fuel n) := by
  induction fuel generalizing n with
  | zero => exact .error rfl
  | succ fuel ih =>
    have ho := occurrence_alike hstart hc n
    unfold ascend
    generalize occurrence start c n = o, occurrence start' c' n = o' at ho ⊢
    cases ho with
    | error he => exact .error he
    | ok ho =>
      dsimp only
      rw [ho.notAfter_eq hnow]
      split
      · exact ih (n + 1)
      · exact .ok rfl

theorem freq_alike (hc : c.Alike c') : c.freq = c'.freq := by
  cases hc
  rfl

include hstart hc hnow in
theorem firstIndexAfter_alike :
    Corresponds Eq Eq (firstIndexAfter start c now) (firstIndexAfter start' c' now') := by
  unfold firstIndexAfter
  rw [freq_alike hc, hnow.before_eq hstart]
  split
  · exact .ok rfl
  · refine (elapsedPeriods_alike hstart hc hnow _).bind fun estimate _ he => ?_
    rw [← he]
    refine (descend_alike hstart hc hnow _).bind fun index _ hindex => ?_
    rw [← hindex]
    exact ascend_alike hstart hc hnow _ _

include hstart hc in
theorem excludedIndex_alike {date date' : Moment} (hdate : date.Alike date') :
    Corresponds Eq Eq (excludedIndex start c date) (excludedIndex start' c' date') := by
  refine (within_rel (hdate.add? (-1))).bind fun before before' hbefore => ?_
  refine (firstIndexAfter_alike hstart hc hbefore).bind fun index _ hindex => ?_
  rw [← hindex]
  refine (occurrence_alike hstart hc index).bind fun o o' ho => .ok ?_
  rw [ho.same_eq hdate]

theorem excludedIndices_alike {d d' : Descriptor} (hd : d.Alike d') (hc : c.Alike c') :
    excludedIndices d c = excludedIndices d' c' := by
  have hkept : List.Forall₂ Moment.Alike (d.excluded.filter fun m => !m.before d.start)
      (d'.excluded.filter fun m => !m.before d'.start) := by
    refine List.rel_filter (fun m m' hm => ?_) hd.excluded
    dsimp only
    rw [hm.before_eq hd.start]
  unfold excludedIndices
  dsimp only
  refine congrArg _ ?_
  rw [← List.forall₂_eq_eq_eq]
  refine List.rel_filterMap (fun m m' hm => ?_) hkept
  have hindex := excludedIndex_alike hd.start hc hm
  generalize excludedIndex d.start c m = x, excludedIndex d'.start c' m' = x' at hindex ⊢
  cases hindex with
  | error he => exact .none
  | ok h =>
    subst h
    cases ‹Option Nat› with
    | none => exact .none
    | some n => exact .some rfl

end Plain

/-! ## Sources -/

theorem exists_of_rel_some {α β : Type} {R : α → β → Prop} {o : Option α} {o' : Option β}
    (h : Option.Rel R o o') {a : α} (ha : o = some a) : ∃ b, o' = some b ∧ R a b := by
  cases h with
  | none => cases ha
  | some h =>
    cases ha
    exact ⟨_, rfl, h⟩

theorem eq_none_of_rel {α β : Type} {R : α → β → Prop} {o : Option β} (h : Option.Rel R none o) :
    o = none := by
  cases h
  rfl

theorem getElem?_rel {α β : Type} {R : α → β → Prop} {as : List α} {bs : List β}
    (h : List.Forall₂ R as bs) (i : Nat) : Option.Rel R as[i]? bs[i]? := by
  induction h generalizing i with
  | nil => exact .none
  | cons hab _ ih =>
    cases i with
    | zero => exact .some hab
    | succ i => exact ih i

/-- Sources that are the same but for the name of universal time. -/
inductive Source.Alike : Source → Source → Prop
  | rule {c c' : Component} (h : c.Alike c') : Alike (.rule c) (.rule c')
  | dates : Alike .dates .dates

namespace Source

variable {d d' : Descriptor} {c c' : Component} {now now' : Moment} (hd : d.Alike d')
  (hc : c.Alike c') (hnow : now.Alike now')

include hd hc hnow in
theorem plainNth_alike (k : Nat) :
    Corresponds Eq (Option.Rel Moment.Alike) (plainNth d c now k) (plainNth d' c' now' k) := by
  refine (Plain.firstIndexAfter_alike hd.start hc hnow).bind fun first _ hfirst => ?_
  rw [← hfirst, Plain.excludedIndices_alike hd hc]
  have ho := Plain.occurrence_alike hd.start hc
  cases hc with
  | @mk c bound bound' rules rules' hbound hrules =>
    dsimp only
    split
    · exact .ok .none
    · refine (ho _).bind fun o o' hdate => ?_
      have hpast : bound.any (·.before o) = bound'.any (·.before o') := by
        cases hbound with
        | none => rfl
        | some hlast => exact hlast.before_eq hdate
      rw [hpast]
      split
      · exact .ok .none
      · exact .ok (.some hdate)

theorem pin_alike {start start' : Moment} (hstart : start.Alike start') (hc : c.Alike c') :
    pin start c = pin start' c' := by
  cases hc with
  | mk c hbound hrules =>
    unfold pin isGiven
    rw [hstart.wall_eq]

include hc hnow in
theorem anchored_alike {start start' : Moment} (hstart : start.Alike start') {rules rules' : Rules}
    (hrules : rules.Alike rules') :
    Corresponds Eq Rules.Alike (anchored start c rules now) (anchored start' c' rules' now') := by
  have helapsed := Plain.elapsedPeriods_alike hstart hc hnow
  have ho := Plain.occurrence_alike hstart hc
  have hpin := pin_alike hstart hc
  have hcount : c.count = c'.count := by cases hc; rfl
  unfold anchored
  rw [hcount, Plain.freq_alike hc]
  split
  · refine (helapsed _).bind fun elapsed _ he => ?_
    rw [← he]
    dsimp only
    split
    · exact .ok hrules
    · refine (ho _).bind fun anchor anchor' hanchor => ?_
      cases hrules with
      | single hr =>
        dsimp only
        rw [hpin]
        exact (Rule.reanchor_alike hr hanchor _).map fun _ _ h => .single h
      | several _ _ => exact .error rfl
  · exact .ok hrules

theorem walk_alike {rules rules' : Rules} (h : rules.Alike rules') {excluded excluded' : List Moment}
    (hexcluded : List.Forall₂ Moment.Alike excluded excluded') :
    (walk rules excluded).Alike (walk rules' excluded') := by
  cases h with
  | single hr => exact RuleSet.ofRules_alike (.cons hr .nil) .nil hexcluded
  | several hrs hexs => exact RuleSet.ofRules_alike hrs hexs hexcluded

include hd hc hnow in
theorem expandedNth_alike {rules rules' : Rules} (hrules : rules.Alike rules') (k : Nat) :
    Corresponds Eq (Option.Rel Moment.Alike) (expandedNth d c rules now k)
      (expandedNth d' c' rules' now' k) :=
  (anchored_alike hc hnow hd.start hrules).bind fun _ _ h =>
    search_alike (fun _ _ => RuleSet.step_alike) hnow _ (.after k) (walk_alike h hd.excluded)

include hnow in
theorem placeAfter_alike {ms ms' : Array Moment}
    (h : ∀ i : Nat, Option.Rel Moment.Alike ms[i]? ms'[i]?) (low high : Nat) :
    placeAfter now ms low high = placeAfter now' ms' low high := by
  -- both searches look at one place after the other, and turn the same way at each
  fun_induction placeAfter now ms low high with
  | case1 low high hlt middle m hm hafter ih =>
    obtain ⟨m', hm', hmm⟩ := exists_of_rel_some (h middle) hm
    conv_rhs => rw [placeAfter, if_pos hlt]
    simp only [show ms'[(low + high) / 2]? = some m' from hm']
    rw [← hnow.before_eq hmm, if_pos hafter]
    exact ih
  | case2 low high hlt middle m hm hnot ih =>
    obtain ⟨m', hm', hmm⟩ := exists_of_rel_some (h middle) hm
    conv_rhs => rw [placeAfter, if_pos hlt]
    simp only [show ms'[(low + high) / 2]? = some m' from hm']
    rw [← hnow.before_eq hmm, if_neg hnot]
    exact ih
  | case3 low high hlt middle hnone =>
    have hnone' : ms'[(low + high) / 2]? = none := by
      have hmiddle := h ((low + high) / 2)
      rw [show ms[(low + high) / 2]? = none from hnone] at hmiddle
      exact eq_none_of_rel hmiddle
    rw [placeAfter, if_pos hlt]
    simp only [hnone']
  | case4 low high hge => rw [placeAfter, if_neg hge]

include hd hnow in
theorem datesNth_alike (k : Nat) : Option.Rel Moment.Alike (datesNth d now k) (datesNth d' now' k) := by
  have hkept : List.Forall₂ Moment.Alike (d.dates.filter fun m => !m.isIn d.excluded)
      (d'.dates.filter fun m => !m.isIn d'.excluded) := by
    refine List.rel_filter (fun m m' hm => ?_) hd.dates
    dsimp only
    rw [Moment.isIn_alike hm hd.excluded]
  have hat := getElem?_rel hkept
  unfold datesNth
  dsimp only
  generalize d.dates.filter _ = ms, d'.dates.filter _ = ms' at hkept hat ⊢
  have hplace : ∀ low high, placeAfter now ms.toArray low high = placeAfter now' ms'.toArray low high :=
    placeAfter_alike hnow fun i => by
      rw [List.getElem?_toArray, List.getElem?_toArray]
      exact hat i
  rw [hplace, List.size_toArray, List.size_toArray, hkept.length_eq, List.getElem?_toArray,
    List.getElem?_toArray]
  exact hat _

theorem orNone_alike {x x' : Except Fault (Option Moment)}
    (h : Corresponds Eq (Option.Rel Moment.Alike) x x') :
    Corresponds Eq (Option.Rel Moment.Alike) (orNone x) (orNone x') := by
  cases h with
  | ok h => exact .ok h
  | error h =>
    subst h
    unfold orNone
    dsimp only
    split
    · exact .ok .none
    · exact .error rfl

include hd hnow in
theorem nthAfter_alike {s s' : Source} (hs : s.Alike s') (k : Nat) :
    Corresponds Eq (Option.Rel Moment.Alike) (s.nthAfter d now k) (s'.nthAfter d' now' k) := by
  cases hs with
  | dates => exact .ok (datesNth_alike hd hnow k)
  | rule hc =>
    have hplain := orNone_alike (plainNth_alike hd hc hnow k)
    have hexpanded := fun {rules rules' : Rules} (h : rules.Alike rules') =>
      orNone_alike (expandedNth_alike hd hc hnow h k)
    cases hc with
    | mk c hbound hrules =>
      obtain ⟨freq, interval, count, _, expanders, _⟩ := c
      cases expanders with
      | nil => exact hplain
      | cons e es =>
        cases hrules with
        | none => exact hplain
        | some h => exact hexpanded h

end Source

/-! ## Schedules -/

namespace Descriptor

variable {d d' : Descriptor} {now now' : Moment} (hd : d.Alike d') (hnow : now.Alike now')

include hd in
theorem sources_alike : List.Forall₂ Source.Alike d.sources d'.sources := by
  have hempty : d.dates.isEmpty = d'.dates.isEmpty := by
    have hdates := hd.dates
    generalize d.dates = ms, d'.dates = ms' at hdates ⊢
    cases hdates <;> rfl
  unfold sources
  rw [hempty]
  refine List.rel_append (List.rel_map (fun _ _ hc => .rule hc) hd.components) ?_
  split
  · exact .nil
  · exact .cons .dates .nil

/-- First dates that are alike, of alike sources. -/
abbrev CandidatesAlike (p p' : Moment × Source) : Prop := p.1.Alike p'.1 ∧ p.2.Alike p'.2

include hd hnow in
theorem candidates_alike {ss ss' : List Source} (h : List.Forall₂ Source.Alike ss ss') :
    Corresponds Eq (List.Forall₂ CandidatesAlike) (candidates d now ss) (candidates d' now' ss') := by
  induction h with
  | nil => exact .ok .nil
  | cons hs _ ih =>
    refine (Source.nthAfter_alike hd hnow hs 0).bind fun first first' hfirst =>
      ih.bind fun more more' hmore => .ok (List.rel_append ?_ hmore)
    cases hfirst with
    | none => exact .nil
    | some hm => exact .cons ⟨hm, hs⟩ .nil

theorem earliest_alike {cs cs' : List (Moment × Source)} (h : List.Forall₂ CandidatesAlike cs cs') :
    Option.Rel CandidatesAlike (earliest cs) (earliest cs') := by
  cases h with
  | nil => exact .none
  | cons hfirst hrest =>
    refine .some (List.rel_foldl (fun best best' hbest c c' hc => ?_) hfirst hrest)
    rw [hc.1.before_eq hbest.1]
    split
    · exact hc
    · exact hbest

include hd hnow in
/-- The next occurrences do not depend on the name of universal time. -/
theorem next_alike (offset : Int) : d.next now offset = d'.next now' offset := by
  refine Corresponds.eq ?_
  unfold next
  by_cases hneg : offset < 0
  · rw [if_pos hneg, if_pos hneg]
    exact .error rfl
  · rw [if_neg hneg, if_neg hneg]
    refine (candidates_alike hd hnow (sources_alike hd)).bind fun cs cs' hcs => ?_
    have hearliest := earliest_alike hcs
    generalize earliest cs = e, earliest cs' = e' at hearliest ⊢
    cases hearliest with
    | none => exact .ok rfl
    | some hbest =>
      have hchosen : ∀ {m m' : Moment}, m.Alike m' →
          Corresponds Eq Eq (some <$> within m.universal?) (some <$> within m'.universal?) := by
        intro m m' hm
        rw [hm.universal?_eq]
        exact .of_eq (fun _ => rfl) rfl
      dsimp only
      split
      · exact hchosen hbest.1
      · refine (Source.nthAfter_alike hd hnow hbest.2 _).bind fun o o' ho => ?_
        cases ho with
        | none => exact .ok rfl
        | some hm => exact hchosen hm

end Descriptor

end ScanPolicy
