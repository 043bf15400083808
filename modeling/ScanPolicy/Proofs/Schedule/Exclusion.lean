import ScanPolicy.Proofs.Schedule.FurtherInstants
import ScanPolicy.Proofs.Schedule.OneRule
import ScanPolicy.Proofs.Schedule.PlainExclusion

/-!
# Excluded dates

Excluded dates are taken from the dates of a schedule in three ways: a plain rule looks for
their numbers, a walk passes over them in order, and further dates are members of a set
or not. In all three ways exactly the dates with an excluded instant are left out,
however it is written, as long as moments compare as their instants do.

- `Descriptor.parse_withoutExcluded`: the schedule without its excluded dates.
- `Source.yielded_walk`, `Source.datesNth_excluding`: walks and further dates.
- `Source.HasDate`, `Source.ExcludesByInstant`: the dates of a source, and how they compare;
  `Source.excludesByInstant_of_foreign`: excluded dates of other clocks.
- `Source.DropsExcluded`, `Source.dropsExcluded_of_parse`: one source.
- `Descriptor.next_excluding`: the next occurrences with and without excluded dates.
- `Descriptor.next_at_excluded_instant`: an excluded date that removes nothing.
-/

namespace ScanPolicy

/-! ## Texts without excluded dates -/

theorem Property.isNamed_of_ne {p : Property} {a b : String} (ha : p.isNamed a = true)
    (h : b.toList ≠ a.toList) : p.isNamed b = false := by
  unfold isNamed at ha ⊢
  rw [beq_iff_eq] at ha
  rw [ha, beq_eq_false_iff_ne]
  exact h.symm

/-- Of the properties with one name none is lost with those of another name. -/
theorem Property.not_isNamed_and_isNamed {a b : String} (h : b.toList ≠ a.toList) (p : Property) :
    (!p.isNamed a && p.isNamed b) = p.isNamed b := by
  cases hp : p.isNamed a with
  | false => rfl
  | true =>
    rw [isNamed_of_ne hp h]
    rfl

namespace Descriptor

/-- The further dates of a text without the lines of the excluded dates. -/
theorem dateLists_withoutExcluded {clock : Clock} {ps : List Property} {dates excluded : List Moment}
    (h : (dateLists clock ps).run.value = .ok (dates, excluded)) :
    (dateLists clock (ps.filter fun p => !p.isNamed "EXDATE")).run.value = .ok (dates, []) := by
  induction ps generalizing dates excluded with
  | nil =>
    cases h
    rfl
  | cons p rest ih =>
    unfold dateLists at h
    by_cases hexcluded : p.isNamed "EXDATE" = true
    · rw [if_neg (by rw [Property.isNamed_of_ne hexcluded (by decide)]; decide), if_pos hexcluded] at h
      obtain ⟨ms, -, h⟩ := run_bind_eq_ok_iff.mp h
      obtain ⟨⟨_, _⟩, hrest, h⟩ := run_bind_eq_ok_iff.mp h
      cases h
      rw [List.filter_cons_of_neg (by simp [hexcluded])]
      exact ih hrest
    · rw [List.filter_cons_of_pos (by simp [hexcluded])]
      rw [if_neg hexcluded] at h
      unfold dateLists
      rw [if_neg hexcluded]
      split at h
      · next hdates =>
        obtain ⟨ms, hms, h⟩ := run_bind_eq_ok_iff.mp h
        obtain ⟨⟨_, _⟩, hrest, h⟩ := run_bind_eq_ok_iff.mp h
        cases h
        rw [if_pos hdates]
        exact run_bind_eq_ok_iff.mpr ⟨ms, hms, run_bind_eq_ok_iff.mpr ⟨_, ih hrest, rfl⟩⟩
      · next hdates =>
        rw [if_neg hdates]
        exact ih h

/-- A text without the lines of the excluded dates is read as the schedule without them. -/
theorem parse_withoutExcluded {text bare : Text} {zoneName : Option Text} {d : Descriptor}
    (h : (parse text zoneName).run.value = .ok d) {properties : List Property}
    (hproperties : Property.ofEvent text = .ok properties)
    (hbare : Property.ofEvent bare = .ok (properties.filter fun p => !p.isNamed "EXDATE")) :
    (parse bare zoneName).run.value = .ok d.withoutExcluded := by
  have hstart : (properties.filter fun p => !p.isNamed "EXDATE").find? (·.isNamed "DTSTART") =
      properties.find? (·.isNamed "DTSTART") := by
    rw [List.find?_filter]
    refine congrArg (properties.find? ·) (funext fun p => ?_)
    simpa using Property.not_isNamed_and_isNamed (a := "EXDATE") (b := "DTSTART") (by decide) p
  have hrules : (properties.filter fun p => !p.isNamed "EXDATE").filter (·.isNamed "RRULE") =
      properties.filter (·.isNamed "RRULE") := by
    rw [List.filter_filter]
    refine List.filter_congr fun p _ => ?_
    rw [Bool.and_comm]
    exact Property.not_isNamed_and_isNamed (by decide) p
  obtain ⟨_, p, kept, dates, excluded, hread, hp, hzone, hstart', hkept, hvalid, hdates, hd⟩ :=
    parse_eq_ok_iff.mp h
  obtain rfl := Except.ok.inj (hproperties.symm.trans hread)
  have hrules' : ruleProperties (properties.filter fun p => !p.isNamed "EXDATE") =
      ruleProperties properties := hrules
  refine parse_eq_ok_iff.mpr ⟨_, p, kept, dates, [], hbare, hstart.trans hp, hzone, hstart', ?_, ?_,
    dateLists_withoutExcluded hdates, ?_⟩
  · rw [hrules']
    exact hkept
  · rw [hrules']
    exact hvalid
  · rw [hrules']
    exact congrArg withoutExcluded hd

end Descriptor

/-! ## Walks -/

/-- The rules that a rule text excludes. -/
def Rules.excluding : Rules → List Rule
  | .single _ => []
  | .several _ exs => exs

namespace Source

variable {d : Descriptor} {c : Component} {now : Moment}

/-- A walk through moved rules excludes the dates of no rule if the rules do not. -/
theorem excludedLanes_walk {rules moved : Rules} (hrules : rules.excluding = [])
    (hmoved : anchored d.start c rules now = .ok moved) (excluded : List Moment) :
    (walk moved excluded).excludedLanes = [] := by
  have hmoved : moved.excluding = [] := by
    rcases anchored_cases hmoved with rfl | ⟨r, r', index, anchor, rfl, rfl, -⟩
    · exact hrules
    · rfl
  cases moved with
  | single r => rfl
  | several rs exs =>
    obtain rfl : exs = [] := hmoved
    rfl

/-- A walk with excluded dates yields the dates that it yields without them, but for those with one of
their instants. -/
theorem yielded_walk {rules moved : Rules} (hrules : rules.excluding = [])
    (hmoved : anchored d.start c rules now = .ok moved)
    (hbefore : ∀ e ∈ d.excluded, ∀ e' ∈ d.excluded, Descriptor.InOrder e e')
    (hagree : ∀ e ∈ d.excluded, ∀ m ∈ yielded RuleSet.step stepLimit (walk moved []), e.Agrees m)
    (hordered : (yielded RuleSet.step stepLimit (walk moved [])).Pairwise
      fun a b => a.instant ≤ b.instant) :
    yielded RuleSet.step stepLimit (walk moved d.excluded) =
      (yielded RuleSet.step stepLimit (walk moved [])).filter (·.isKept d.excluded) := by
  have hsort : (walk moved d.excluded).excluded = Moment.sort d.excluded := by
    cases moved <;> rfl
  have hnone : { walk moved d.excluded with excluded := [] } = walk moved [] := by
    have hnil : Moment.sort [] = [] := List.mergeSort_nil
    cases moved <;> simp [walk, RuleSet.ofRules, hnil]
  have h : yielded RuleSet.step stepLimit (walk moved d.excluded) = _ := RuleSet.yielded_excluding
    (excludedLanes_walk hrules hmoved d.excluded) (hsort ▸ Moment.sort_pairwise hbefore)
    (by
      rw [hsort, hnone]
      exact fun e he => hagree e (Moment.mem_sort.mp he))
    (by rwa [hnone])
  rw [h, hnone, hsort]
  refine List.filter_congr fun m _ => ?_
  rw [Bool.eq_iff_iff, Moment.isKept_iff, Moment.isKept_iff]
  exact forall_congr' fun e => by rw [Moment.mem_sort]

/-- A search among the dates of rules with expanding parts that goes through counts those that their
walk yields. -/
theorem expandedNth_eq_getElem? {rules moved : Rules}
    (hmoved : anchored d.start c rules now = .ok moved) {k : Nat} {x : Option Moment}
    (h : expandedNth d c rules now k = .ok x) :
    x = ((yielded RuleSet.step stepLimit (walk moved d.excluded)).filter now.before)[k]? := by
  unfold expandedNth at h
  rw [hmoved] at h
  exact search_eq_getElem? h

/-! ## Further dates -/

/-- Further dates with excluded dates are those without them, but for those with one of their
instants. -/
theorem datesNth_excluding {now : WallTime}
    (hordered : d.dates.Pairwise fun a b => a.instant ≤ b.instant)
    (hfold : ∀ m ∈ d.dates ++ d.excluded, m.fold = false)
    (hsame : ∀ e ∈ d.excluded, ∀ m ∈ d.dates, e.same m = true ↔ e.instant = m.instant) (k : Nat) :
    datesNth d (Moment.universal now) k =
      ((d.dates.filter (Moment.universal now).before).filter (·.isKept d.excluded))[k]? := by
  have hfirst : ∀ m ∈ d.dates ++ d.excluded, m.firstInstant = m.instant := by
    intro m hm
    unfold Moment.firstInstant Moment.instant Moment.offset
    rw [hfold m hm]
  rw [datesNth_eq hordered, List.filter_filter, List.filter_filter]
  congr 1
  refine List.filter_congr fun m hm => ?_
  have hkept : (!m.isIn d.excluded) = m.isKept d.excluded := by
    rw [Bool.eq_iff_iff, Bool.not_eq_true', Bool.eq_false_iff, Ne, Moment.isKept_iff]
    unfold Moment.isIn Moment.coincides
    rw [List.any_eq_true]
    push Not
    refine forall₂_congr fun e he => not_congr ?_
    rw [Bool.and_eq_true, beq_iff_eq, hfirst m (List.mem_append_left _ hm),
      hfirst e (List.mem_append_right _ he), Moment.same_comm, hsame e he m hm]
    exact ⟨fun h => h.2, fun h => ⟨h.symm, h⟩⟩
  rw [hkept, Bool.and_comm]

/-! ## One source -/

/-- Whether a source has a date, excluded or not: a plain rule has those of all numbers, other rules
have those of their walk where they are moved for a moment. -/
def HasDate (d : Descriptor) (now : Moment) : Source → Moment → Prop
  | .dates, m => m ∈ d.dates
  | .rule c, m =>
    match c.expanders, c.rules with
    | _ :: _, some rules => ∃ moved, anchored d.start c rules now = .ok moved ∧
        m ∈ yielded RuleSet.step stepLimit (walk moved [])
    | _, _ => ∃ index, Plain.occurrence d.start c index = .ok m

/-- What a source needs so that excluded dates remove the dates with their instants: sameness is that
of the instants, the search just before an excluded date keeps to its instant, and a walk and the
further dates are in the order of the instants. -/
structure ExcludesByInstant (d : Descriptor) (now : Moment) (s : Source) : Prop where
  same : ∀ e ∈ d.excluded, ∀ m, s.HasDate d now m → (e.same m = true ↔ e.instant = m.instant)
  plain : ∀ c, s = .rule c → c.expanders = [] → c.KeepsOrder d.start ∧
    (∀ f ∈ c.freq, ¬ f.isSubDaily → d.start.clock.SeparatesDays) ∧
    ∀ e ∈ d.excluded, ∀ m, s.HasDate d now m → e.instant = m.instant →
      Plain.IsSearchable d.start c e
  expanded : ∀ c, s = .rule c → c.expanders ≠ [] → ∀ rules ∈ c.rules, rules.excluding = [] ∧
    (∀ e ∈ d.excluded, ∀ e' ∈ d.excluded, Descriptor.InOrder e e') ∧
    (∀ e ∈ d.excluded, ∀ m, s.HasDate d now m → Descriptor.InOrder e m) ∧
    ∀ moved, anchored d.start c rules now = .ok moved →
      (yielded RuleSet.step stepLimit (walk moved [])).Pairwise fun a b => a.instant ≤ b.instant
  dates : s = .dates → d.dates.Pairwise fun a b => a.instant ≤ b.instant

/-- Excluded dates of other clocks, or of the universal one, remove the dates of a plain rule by their
instants, if none of the two is skipped or repeated and the clock of the excluded date is not changed
just before it. -/
theorem excludesByInstant_of_foreign (hplain : c.expanders = []) (hinterval : 0 < c.interval)
    (hkeeps : c.KeepsOrder d.start)
    (hseparates : ∀ f ∈ c.freq, ¬ f.isSubDaily → d.start.clock.SeparatesDays)
    (hfold : d.start.fold = false) (hexcluded : ∀ e ∈ d.excluded,
      (e.clock.same d.start.clock = false ∨ e.clock = .universal) ∧
      (∃ b, e.add? (-1) = some b ∧ b.instant = e.instant - 1 ∧ d.start.clock.Shows b.instant) ∧
      ∀ index m, Plain.occurrence d.start c index = .ok m → e.instant = m.instant →
        e.clock.same m.clock = true ∨ e.isProblematic = false ∧ m.isProblematic = false)
    (now : Moment) : (Source.rule c).ExcludesByInstant d now where
  same e he m hm := by
    simp only [HasDate, hplain] at hm
    obtain ⟨index, hm⟩ := hm
    obtain ⟨hforeign, -, hsettled⟩ := hexcluded e he
    refine (Moment.ComparesOn.agrees ?_ (hsettled index m hm)).same
    rw [Plain.clock_of_occurrence hm]
    exact hforeign.elim Moment.comparesOn_of_not_same Moment.comparesOn_of_universal
  plain c' hc' _ := by
    cases hc'
    refine ⟨hkeeps, hseparates, fun e he m hm hinstant => ?_⟩
    simp only [HasDate, hplain] at hm
    obtain ⟨index, hm⟩ := hm
    obtain ⟨hforeign, ⟨b, hb, hbefore, hshown⟩, -⟩ := hexcluded e he
    refine Plain.isSearchable_of_foreign hforeign hb hbefore ?_ hshown
    rw [hinstant]
    cases hf : c.freq with
    | none =>
      unfold Plain.occurrence at hm
      rw [hf] at hm
      cases hm
      exact le_rfl
    | some f =>
      exact Plain.start_le_occurrence (hkeeps.counts f hf).keepsOccurrences hf hinterval hfold hm
  expanded c' hc' hexpanders := by
    cases hc'
    exact absurd hplain hexpanders
  dates h := by cases h

/-- Whether the search for a further date goes through: the walk through the rules with expanding parts
does not break off before it is found. -/
def GoesThrough (d : Descriptor) (now : Moment) (k : Nat) : Source → Prop
  | .dates => True
  | .rule c => c.expanders ≠ [] → ∀ rules ∈ c.rules, ∃ x, expandedNth d c rules now k = .ok x

/-- If the search for a further date goes through, so does the one for the first date. -/
theorem GoesThrough.first {s : Source} {k : Nat} (h : s.GoesThrough d now k) :
    s.GoesThrough d now 0 := by
  cases s with
  | dates => trivial
  | rule c =>
    intro hexpanders rules hrules
    obtain ⟨x, hx⟩ := h hexpanders rules hrules
    obtain ⟨moved, hmoved, hsearch⟩ := bind_eq_ok_iff.mp hx
    obtain ⟨y, hy⟩ := search_ok_of_le (Nat.zero_le k) hsearch
    exact ⟨y, bind_eq_ok_iff.mpr ⟨moved, hmoved, hy⟩⟩

/-- Whether a source has, after a moment, the dates that it has without excluded dates, but for those with
one of their instants. -/
def DropsExcluded (d : Descriptor) (now : Moment) (s : Source) : Prop :=
  ∃ dates : List Moment, ∀ k,
    (s.GoesThrough d.withoutExcluded now k → s.nthAfter d.withoutExcluded now k = .ok dates[k]?) ∧
    (s.GoesThrough d now k → s.nthAfter d now k = .ok (dates.filter (·.isKept d.excluded))[k]?)

section

variable {now : WallTime}

theorem dropsExcluded_plain (hplain : c.expanders = []) (hinterval : 0 < c.interval)
    (honce : c.freq = none → c = Component.once)
    (h : (Source.rule c).ExcludesByInstant d (Moment.universal now)) :
    (Source.rule c).DropsExcluded d (Moment.universal now) := by
  obtain ⟨hkeeps, hseparates, hsearchable⟩ := h.plain c rfl hplain
  have hdate : ∀ {index m}, Plain.occurrence d.start c index = .ok m →
      (Source.rule c).HasDate d (Moment.universal now) m := fun {index m} hm => by
    simp only [HasDate, hplain]
    exact ⟨index, hm⟩
  obtain ⟨dates, hdates⟩ := plainNth_excluding ⟨hkeeps, hseparates, hinterval, honce⟩
    (Moment.comparesOn_of_universal (m := Moment.universal now) rfl)
    (fun e he index m hm => h.same e he m (hdate hm))
    (fun e he index m hm => hsearchable e he m (hdate hm))
  refine ⟨dates, fun k => ?_⟩
  rw [nthAfter_plain hplain, nthAfter_plain hplain]
  exact ⟨fun _ => (hdates k).1, fun _ => (hdates k).2⟩

theorem dropsExcluded_expanded {rules : Rules} (hexpanders : c.expanders ≠ [])
    (hrules : c.rules = some rules)
    (h : (Source.rule c).ExcludesByInstant d (Moment.universal now)) :
    (Source.rule c).DropsExcluded d (Moment.universal now) := by
  obtain ⟨hexcluding, hsorted, hbefore, hordered⟩ := h.expanded c rfl hexpanders rules hrules
  unfold DropsExcluded
  simp only [nthAfter_expanded hexpanders hrules]
  by_cases hmoved : ∃ moved, anchored d.start c rules (Moment.universal now) = .ok moved
  · obtain ⟨moved, hmoved⟩ := hmoved
    have hdate : ∀ m ∈ yielded RuleSet.step stepLimit (walk moved []),
        (Source.rule c).HasDate d (Moment.universal now) m := by
      intro m hm
      obtain ⟨x, xs, hcons⟩ := List.exists_cons_of_ne_nil hexpanders
      simp only [HasDate, hcons, hrules]
      exact ⟨moved, hmoved, hm⟩
    have hyielded := yielded_walk hexcluding hmoved hsorted
      (fun e he m hm => ⟨hbefore e he m (hdate m hm), h.same e he m (hdate m hm)⟩)
      (hordered moved hmoved)
    refine ⟨(yielded RuleSet.step stepLimit (walk moved [])).filter
      (Moment.universal now).before, fun k => ⟨fun hthrough => ?_, fun hthrough => ?_⟩⟩
    · obtain ⟨x, hx⟩ := hthrough hexpanders rules hrules
      rw [hx, expandedNth_eq_getElem? (d := d.withoutExcluded) hmoved hx]
      rfl
    · obtain ⟨x, hx⟩ := hthrough hexpanders rules hrules
      rw [hx, expandedNth_eq_getElem? hmoved hx, hyielded, List.filter_comm]
      rfl
  · -- the rules cannot be moved, and no search goes through
    refine ⟨[], fun k => ⟨fun hthrough => ?_, fun hthrough => ?_⟩⟩ <;>
    · obtain ⟨x, hx⟩ := hthrough hexpanders rules hrules
      obtain ⟨moved, h, -⟩ := bind_eq_ok_iff.mp hx
      exact absurd ⟨moved, h⟩ hmoved

theorem dropsExcluded_dates (hfold : ∀ m ∈ d.dates ++ d.excluded, m.fold = false)
    (h : Source.dates.ExcludesByInstant d (Moment.universal now)) :
    Source.dates.DropsExcluded d (Moment.universal now) := by
  have hordered := h.dates rfl
  refine ⟨d.dates.filter (Moment.universal now).before, fun k => ⟨fun _ => ?_, fun _ => ?_⟩⟩
  · have hfold' : ∀ m ∈ d.dates ++ [], m.fold = false := fun m hm =>
      hfold m (List.mem_append_left _ (by simpa using hm))
    have hkept : datesNth d.withoutExcluded (Moment.universal now) k = _ :=
      datesNth_excluding (d := d.withoutExcluded) hordered hfold' (fun e he => by cases he) k
    rw [show Moment.isKept d.withoutExcluded.excluded = fun _ => true from rfl,
      List.filter_true] at hkept
    exact congrArg Except.ok hkept
  · exact congrArg Except.ok (datesNth_excluding hordered hfold h.same k)

end

/-- The sources of a schedule drop the dates with excluded instants. -/
theorem dropsExcluded_of_parse {text : Text} {zoneName : Option Text}
    (hparse : (Descriptor.parse text zoneName).run.value = .ok d) {now : WallTime} {s : Source}
    (hs : s ∈ d.sources) (h : s.ExcludesByInstant d (Moment.universal now)) :
    s.DropsExcluded d (Moment.universal now) := by
  rcases Descriptor.source_of_parse hparse hs with rfl | ⟨c, -, rfl, hinterval, hshape⟩
  · refine dropsExcluded_dates (fun m hm => ?_) h
    obtain ⟨clock, -, hread⟩ := Descriptor.lists_isRead hparse m hm
    exact hread.fold_eq
  rcases hshape with ⟨hplain, honce⟩ | ⟨hexpanders, rules, hrules⟩
  · exact dropsExcluded_plain hplain hinterval honce h
  · exact dropsExcluded_expanded hexpanders hrules h

end Source

/-! ## All sources -/

namespace Descriptor

variable {d : Descriptor} {now : Moment} {s : Source}

/-- Whether a source is the only one of which dates can come after a moment: there is no other source,
or the other one is the start of an event without rules and is not after the moment. -/
def TakesFrom (d : Descriptor) (now : Moment) (s : Source) : Prop :=
  d.sources = [s] ∨ d.sources = [.rule Component.once, s] ∧ ¬ now.before d.start

/-- An event without rules has no date from its start on. -/
theorem nthAfter_once (h : ¬ now.before d.start) :
    (Source.rule Component.once).nthAfter d now 0 = .ok none := by
  have hfirst : Plain.firstIndexAfter d.start Component.once now = .ok 1 := by
    unfold Plain.firstIndexAfter
    exact congrArg Except.ok (if_neg h)
  rw [Source.nthAfter_plain rfl]
  refine Source.plainNth_of_not_gives hfirst fun m hm => ?_
  have hcount := hm.inCount 1 rfl
  have hle := (Plain.advance_spec (Plain.excludedIndices_pairwise d Component.once) 1 0).le
  omega

/-- The source of which dates can come answers for the schedule. -/
theorem next_of_takesFrom (h : d.TakesFrom now s) {k : Nat} {first x : Option Moment}
    (hfirst : s.nthAfter d now 0 = .ok first) (hx : s.nthAfter d now k = .ok x)
    (hnone : first = none → x = none) : d.next now k = answer x := by
  rcases h with hsources | ⟨hsources, hover⟩
  · exact next_of_one_source hsources hfirst hx hnone
  · refine next_of_only ?_ hfirst hx hnone
    rw [hsources]
    unfold candidates candidates
    rw [nthAfter_once hover, hfirst]
    cases first <;> rfl

/-- A schedule has, after a moment, the occurrences that it has without excluded dates, but for those
with one of their instants: as far as the searches go through, the occurrences without excluded dates
are one list of dates, and those with excluded dates are the members of the list that are kept. -/
theorem next_excluding {text : Text} {zoneName : Option Text} {d : Descriptor}
    (hparse : (parse text zoneName).run.value = .ok d) {now : WallTime} {s : Source}
    (hsource : d.TakesFrom (Moment.universal now) s)
    (h : s.ExcludesByInstant d (Moment.universal now)) : ∃ dates : List Moment, ∀ k : Nat,
      (s.GoesThrough d.withoutExcluded (Moment.universal now) k →
        d.withoutExcluded.next (Moment.universal now) k = answer dates[k]?) ∧
      (s.GoesThrough d (Moment.universal now) k →
        d.next (Moment.universal now) k = answer (dates.filter (·.isKept d.excluded))[k]?) := by
  have hs : s ∈ d.sources := by
    rcases hsource with hsources | ⟨hsources, -⟩ <;> simp [hsources]
  obtain ⟨dates, hdates⟩ := Source.dropsExcluded_of_parse hparse hs h
  have hnone : ∀ {ms : List Moment} {k : Nat}, ms[0]? = none → ms[k]? = none := by
    intro ms k hms
    rw [List.getElem?_eq_none_iff] at hms ⊢
    omega
  refine ⟨dates, fun k => ⟨fun hthrough => ?_, fun hthrough => ?_⟩⟩
  · exact next_of_takesFrom (d := d.withoutExcluded) hsource ((hdates 0).1 hthrough.first)
      ((hdates k).1 hthrough) hnone
  · exact next_of_takesFrom hsource ((hdates 0).2 hthrough.first) ((hdates k).2 hthrough) hnone

set_option maxRecDepth 2000 in
/-- A daily rule of which two dates are excluded, one of them as Berlin shows it. -/
theorem next_excluding_of_daily_rule : ∃ d now,
    (parse ("DTSTART:20240101T090000Z\nRRULE:FREQ=DAILY\n" ++
      "EXDATE;TZID=Europe/Berlin:20240103T100000\nEXDATE:20240105T090000Z").toList none).run.value =
        .ok d ∧ WallTime.ofFields? ⟨2024, 1, 1⟩ 9 0 0 0 = some now ∧ d.excluded.length = 2 ∧
    ∃ dates : List Moment, ∀ k : Nat,
      d.withoutExcluded.next (Moment.universal now) k = answer dates[k]? ∧
        d.next (Moment.universal now) k = answer (dates.filter (·.isKept d.excluded))[k]? := by
  obtain ⟨d, now, c, hd, hnow, hlength, hstart, hfold, hcomponents, hdates, hplain, hf, hinterval,
      hbound, hexcluded⟩ : ∃ d now c,
      (parse ("DTSTART:20240101T090000Z\nRRULE:FREQ=DAILY\n" ++
        "EXDATE;TZID=Europe/Berlin:20240103T100000\nEXDATE:20240105T090000Z").toList none).run.value =
          .ok d ∧ WallTime.ofFields? ⟨2024, 1, 1⟩ 9 0 0 0 = some now ∧ d.excluded.length = 2 ∧
      d.start.clock = .universal ∧ d.start.fold = false ∧ d.components = [c] ∧
      d.dates.isEmpty = true ∧ c.expanders = [] ∧ c.freq = some .daily ∧ c.interval = 1 ∧
      c.bound = none ∧ (d.excluded.all fun e => !e.isProblematic && (e.add? (-1)).any fun b =>
        decide (b.instant = e.instant - 1) && (WallTime.ofTicks? b.instant).isSome) = true :=
    ⟨_, _, _, rfl, rfl, rfl, rfl, rfl, rfl, by decide +kernel, rfl, rfl, rfl, rfl, by decide +kernel⟩
  have hsources : d.sources = [.rule c] := by
    unfold sources
    rw [hcomponents, hdates]
    rfl
  have hexcludes : (Source.rule c).ExcludesByInstant d (Moment.universal now) := by
    refine Source.excludesByInstant_of_foreign hplain (hinterval ▸ Nat.one_pos)
      ⟨fun f hf' => ?_, fun _ _ _ u hu => ?_⟩ (fun f _ _ => ?_) hfold (fun e he => ⟨?_, ?_, ?_⟩) _
    · obtain rfl : f = .daily := Option.some.inj (hf'.symm.trans hf)
      exact .of_days (by decide) (hstart ▸ Clock.isDayOrdered_universal)
    · rw [hbound] at hu
      cases hu
    · rw [hstart]
      exact Clock.separatesDays_universal
    · rw [hstart]
      cases hsame : e.clock.same .universal with
      | false => exact .inl rfl
      | true => exact .inr (Clock.eq_universal_of_same hsame)
    · have hcheck := List.all_eq_true.mp hexcluded e he
      rw [Bool.and_eq_true] at hcheck
      obtain ⟨b, hb, hcheck⟩ := (Option.any_eq_true _ _).mp hcheck.2
      rw [Bool.and_eq_true, decide_eq_true_iff] at hcheck
      obtain ⟨u, hu⟩ := Option.isSome_iff_exists.mp hcheck.2
      refine ⟨b, hb, hcheck.1, ?_⟩
      rw [hstart]
      exact Clock.shows_universal_iff.mpr ⟨u, WallTime.ticks_of_ofTicks? hu⟩
    · intro index m hm _
      have hcheck := List.all_eq_true.mp hexcluded e he
      rw [Bool.and_eq_true, Bool.not_eq_true'] at hcheck
      exact .inr ⟨hcheck.1, Moment.isProblematic_of_universal
        ((Plain.clock_of_occurrence hm).trans hstart)⟩
  obtain ⟨dates, h⟩ := next_excluding hd (.inl hsources) hexcludes
  exact ⟨d, now, hd, hnow, hlength, dates, fun k => ⟨(h k).1 fun hexpanders => absurd hplain hexpanders,
    (h k).2 fun hexpanders => absurd hplain hexpanders⟩⟩

/-- At three o'clock the clock of Berlin is set forward, and the moment just before on its wall is almost
an hour later. The first date after that moment is another one, so that the excluded date stays. -/
theorem next_at_excluded_instant : ∃ d now e m,
    (parse ("DTSTART:20240331T000000Z\nRRULE:FREQ=HOURLY\n" ++
      "EXDATE;TZID=Europe/Berlin:20240331T030000").toList none).run.value = .ok d ∧
    d.components.length = 1 ∧ d.dates = [] ∧ d.excluded = [e] ∧
    WallTime.ofFields? ⟨2024, 3, 31⟩ 0 30 0 0 = some now ∧
    d.next (Moment.universal now) 0 = .ok (some m) ∧ m.instant = e.instant := by
  obtain ⟨d, now, e, hd, hcomponents, hdates, hexcluded, hnow, hnext⟩ : ∃ d now e,
      (parse ("DTSTART:20240331T000000Z\nRRULE:FREQ=HOURLY\n" ++
        "EXDATE;TZID=Europe/Berlin:20240331T030000").toList none).run.value = .ok d ∧
      d.components.length = 1 ∧ d.dates.isEmpty = true ∧ d.excluded = [e] ∧
      WallTime.ofFields? ⟨2024, 3, 31⟩ 0 30 0 0 = some now ∧
      ((d.next (Moment.universal now) 0).toOption.join.any fun m =>
        decide (m.instant = e.instant)) = true :=
    ⟨_, _, _, rfl, rfl, by decide +kernel, rfl, rfl, by decide +kernel⟩
  obtain ⟨m, hm, hsame⟩ := (Option.any_eq_true _ _).mp hnext
  exact ⟨d, now, e, m, hd, hcomponents, List.isEmpty_iff.mp hdates, hexcluded, hnow,
    ok_of_toOption (Option.join_eq_some_iff.mp hm), of_decide_eq_true hsame⟩

end Descriptor

end ScanPolicy
