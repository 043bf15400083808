import ScanPolicy.Proofs.Recurrence.Settled
import ScanPolicy.Proofs.Schedule.RuleParts

/-!
# Rules that are completed from their text

A component keeps the names of the parts of its rule, and the rule is completed from their
values. The names tell which parts the rule was given, so that it can be started elsewhere
with those parts pinned that it took from its start.

- `Component.Names`: the names of a component are those of the given parts.
- `Component.Completes`: what the rule of a component is.
- `Component.completes_of_isSpecified`: the rule of a text.
- `Component.Completes.reanchor`: the rule at an anchor.
-/

namespace ScanPolicy

namespace Component

/-! ## The names of the given parts -/

/-- The names of the expanding parts of a component are those of the parts that its rule was
given; those of days matter only if a rule may take its days from its start. -/
structure Names (c : Component) (p : Parts) : Prop where
  days : c.freq.any Frequency.isSubDaily = false →
    (c.expanders.any fun e => Source.dayChoosers.contains e) = p.choosesDays
  months : Source.isGiven c "BYMONTH" = p.months.isSome
  hours : Source.isGiven c "BYHOUR" = p.hours.isSome
  minutes : Source.isGiven c "BYMINUTE" = p.minutes.isSome
  seconds : Source.isGiven c "BYSECOND" = p.seconds.isSome

theorem isGiven_eq {keys : List Text} {c : Component}
    (hexpanders : c.expanders = keys.filter (Text.startsWith "BY".toList)) {name : String}
    (hname : Text.startsWith "BY".toList name.toList = true) :
    Source.isGiven c name = decide (name.toList ∈ keys) := by
  unfold Source.isGiven
  rw [hexpanders, List.contains_eq_mem]
  refine decide_eq_decide.mpr ?_
  rw [List.mem_filter]
  exact ⟨fun h => h.1, fun h => ⟨h, hname⟩⟩

theorem names_of_reads {ps : List (Text × Text)} {draft : RuleText.Draft} {c : Component}
    (hexpanders : c.expanders = (ps.map Prod.fst).filter (Text.startsWith "BY".toList))
    (hreads : RuleText.Reads {} ps draft) (hnodup : (ps.map Prod.fst).Nodup)
    (hsecond : c.freq.any Frequency.isSubDaily = false → "BYWEEKDAY".toList ∉ ps.map Prod.fst) :
    Names c draft.parts := by
  have hints := fun name get => @RuleText.Reads.isSome_ints _ _ hreads hnodup name get
  refine ⟨fun hlong => ?_, ?_, ?_, ?_, ?_⟩
  · unfold Parts.choosesDays
    rw [(hints "BYWEEKNO" Parts.weekNumbers (by simp [RuleText.intFields])).2,
      (hints "BYYEARDAY" Parts.yearDays (by simp [RuleText.intFields])).2,
      (hints "BYMONTHDAY" Parts.monthDays (by simp [RuleText.intFields])).2,
      (hints "BYEASTER" Parts.easters (by simp [RuleText.intFields])).1,
      hreads.weekdays hnodup (hsecond hlong), hexpanders, Bool.eq_iff_iff]
    simp only [List.any_eq_true, List.mem_filter, List.contains_eq_mem, Bool.or_eq_true,
      decide_eq_true_eq]
    constructor
    · rintro ⟨e, ⟨hmem, -⟩, he⟩
      unfold Source.dayChoosers at he
      simp only [List.map_cons, List.map_nil, List.mem_cons, List.not_mem_nil, or_false] at he
      rcases he with rfl | rfl | rfl | rfl | rfl <;> simp only [hmem, true_or, or_true]
    · rintro ((((h | h) | h) | h) | h) <;> exact ⟨_, ⟨h, by decide⟩, by decide⟩
  · exact (isGiven_eq hexpanders (by decide)).trans
      (hints "BYMONTH" Parts.months (by simp [RuleText.intFields])).1.symm
  · exact (isGiven_eq hexpanders (by decide)).trans
      (hints "BYHOUR" Parts.hours (by simp [RuleText.intFields])).1.symm
  · exact (isGiven_eq hexpanders (by decide)).trans
      (hints "BYMINUTE" Parts.minutes (by simp [RuleText.intFields])).1.symm
  · exact (isGiven_eq hexpanders (by decide)).trans
      (hints "BYSECOND" Parts.seconds (by simp [RuleText.intFields])).1.symm

/-- The parts that a rule keeps have the names of those that it was given. -/
theorem Names.givenOf {c : Component} {p : Parts} {f : Frequency} (hnames : Names c p)
    (hf : c.freq = some f) (hzero : Rule.NoZero f p) (t : WallTime) (hours minutes : List Int) :
    Names c (Rule.givenOf f t p hours minutes) := by
  obtain ⟨hdays, hmonths, hhours, hminutes, hseconds⟩ := hnames
  refine ⟨fun hlong => ?_, ?_, ?_, ?_, ?_⟩
  · rw [hdays hlong, Rule.choosesDays_givenOf hzero]
    rw [hf] at hlong
    exact hlong
  · rw [hmonths]
    exact Option.isSome_map.symm
  · rw [hhours]
    exact Option.isSome_map.symm
  · rw [hminutes]
    exact Option.isSome_map.symm
  · rw [hseconds]
    exact Option.isSome_map.symm

end Component

/-- The parts that are pinned are those that the rule takes from its start. -/
theorem Source.pin_eq_settle {c : Component} {p : Parts} {f : Frequency}
    (hnames : Component.Names c p) (hf : c.freq = some f) (start : Moment) :
    pin start c p = p.settle f start.wall := by
  obtain ⟨hdays, hmonths, hhours, hminutes, hseconds⟩ := hnames
  unfold pin Parts.settle
  simp only [hmonths, hhours, hminutes, hseconds, hf]
  cases hsub : f.isSubDaily with
  | true =>
    -- a rule of hours or minutes takes no days from its start
    obtain ⟨_, _, _, _, _, _, _, hours, minutes, seconds⟩ := p
    cases f with
    | hourly =>
      generalize (c.expanders.any fun e => dayChoosers.contains e) = chooses
      generalize Parts.choosesDays _ = chooses'
      cases chooses <;> cases chooses' <;> cases hours <;> cases minutes <;> cases seconds <;> rfl
    | minutely =>
      generalize (c.expanders.any fun e => dayChoosers.contains e) = chooses
      generalize Parts.choosesDays _ = chooses'
      cases chooses <;> cases chooses' <;> cases hours <;> cases minutes <;> cases seconds <;> rfl
    | _ => cases hsub
  | false =>
    simp only [hdays (by rw [hf]; exact hsub)]
    -- a part is pinned exactly if it is not given
    generalize p.choosesDays = days
    obtain ⟨_, months, _, _, _, _, _, hours, minutes, seconds⟩ := p
    dsimp only
    cases f <;> cases days <;> cases hours <;> cases minutes <;> cases seconds <;>
      first
      | rfl
      | cases months <;> rfl
      | cases hsub

namespace Component

/-! ## The rule of a component -/

/-- A rule with the last moment of its component. -/
theorem withBound_eq {f : Frequency} {anchor : Moment} {interval weekStart : Nat}
    {count : Option Nat} {p : Parts} {rule : Rule}
    (hrule : Rule.ofParts f anchor interval weekStart count none p = .ok rule)
    (hkeeps : Rule.KeepsDays f p) (bound : Option Moment) :
    Rules.withBound (.single rule) bound = .ok (.single { rule with bound }) := by
  have hr := (Rule.ofParts_eq_ok_iff.mp hrule).2.2.2.2
  cases bound with
  | none =>
    have hbound : rule.bound = none := congrArg Rule.bound hr
    show Except.ok (Rules.single rule) = _
    rw [← hbound]
  | some bound =>
    have hfreq : rule.freq = f := congrArg Rule.freq hr
    have hinterval : rule.interval = interval := congrArg Rule.interval hr
    have hweek : rule.weekStart = weekStart := congrArg Rule.weekStart hr
    have hcount : rule.count = count := congrArg Rule.count hr
    have hgiven := Rule.ofParts_given hrule hkeeps (some bound)
    rw [← hfreq, ← hinterval, ← hweek, ← hcount] at hgiven
    show (rule.withUntil bound).map Rules.single = _
    unfold Rule.withUntil
    rw [hgiven]
    rfl

/-- What the rule of a component is: completed from the start of the schedule and the parts of its
text. -/
structure Completes (c : Component) (start : Moment) (f : Frequency) (weekStart : Nat) (r : Rule) :
    Prop where
  freq_eq : c.freq = some f
  weekStart_lt : weekStart < 7
  interval_pos : 0 < c.interval
  count_eq : c.count = none
  rule_eq : ∃ p rule, Rule.NoZero f p ∧ Names c p ∧
    Rule.ofParts f start c.interval weekStart none none p = .ok rule ∧
      r = { rule with bound := c.bound }

section Text

variable {start : Moment} {clock : Clock} {value : Text} {all : List (Text × Text)} {c : Component}

/-- The parts of a text without the last moment. -/
def withoutUntil (all : List (Text × Text)) : List (Text × Text) :=
  all.filter fun (k, _) => k != "UNTIL".toList

theorem mem_of_mem_withoutUntil {p : Text × Text} (h : p ∈ withoutUntil all) : p ∈ all :=
  (List.mem_filter.mp h).1

theorem mem_withoutUntil {name : String} {v : Text} (hname : name ≠ "UNTIL")
    (h : part? all name = some v) : (name.toList, v) ∈ withoutUntil all := by
  refine List.mem_filter.mpr ⟨mem_of_part? h, bne_iff_ne.mpr fun heq => hname ?_⟩
  exact String.toList_inj.mp heq

/-- The names of parts that are read are in upper case already. -/
theorem upper_name_of_reads {ps : List (Text × Text)} {d₀ draft : RuleText.Draft}
    (hcut : ∀ p ∈ ps, IsCut value p) (hreads : RuleText.Reads d₀ (raised ps) draft) :
    ∀ p ∈ ps, Text.upper p.1 = p.1 := by
  intro p hp
  have hascii : RuleText.partNames.all (fun name => name.toList.all fun c => c.toNat < 128) = true := by
    decide
  have hname := hreads.names _ (List.mem_map_of_mem hp)
  obtain ⟨t, ht⟩ := (hcut p hp).name_eq
  rw [ht]
  refine Text.upper_upper_of_ascii fun c hc => ?_
  refine of_decide_eq_true (List.all_eq_true.mp (List.all_eq_true.mp hascii _ hname) c ?_)
  rw [String.toList_ofList]
  show c ∈ Text.upper p.1
  rw [ht]
  exact hc

theorem keys_raised {ps : List (Text × Text)} (h : ∀ p ∈ ps, Text.upper p.1 = p.1) :
    (raised ps).map Prod.fst = ps.map Prod.fst := by
  unfold raised
  rw [List.map_map]
  exact List.map_congr_left h

theorem mem_raised {ps : List (Text × Text)} (h : ∀ p ∈ ps, Text.upper p.1 = p.1) {k v : Text}
    (hmem : (k, v) ∈ ps) : (k, Text.upper v) ∈ raised ps := by
  have hk : Text.upper k = k := h _ hmem
  exact List.mem_map.mpr ⟨(k, v), hmem, Prod.ext hk rfl⟩

theorem nodup_raised (hnodup : (all.map Prod.fst).Nodup)
    (hupper : ∀ p ∈ withoutUntil all, Text.upper p.1 = p.1) :
    ((raised (withoutUntil all)).map Prod.fst).Nodup := by
  rw [keys_raised hupper]
  exact hnodup.sublist (List.filter_sublist.map _)

/-- A part that a text has is read, up to the last moment. -/
theorem mem_raised_of_part? (hupper : ∀ p ∈ withoutUntil all, Text.upper p.1 = p.1) {name : String}
    {v : Text} (hname : name ≠ "UNTIL") (hv : part? all name = some v) :
    (name.toList, Text.upper v) ∈ raised (withoutUntil all) :=
  mem_raised hupper (mem_withoutUntil hname hv)

/-- A part that a text does not have is not read. -/
theorem not_mem_raised (hupper : ∀ p ∈ withoutUntil all, Text.upper p.1 = p.1) {name : Text}
    (hnot : name ∉ all.map Prod.fst) : name ∉ (raised (withoutUntil all)).map Prod.fst := by
  rw [keys_raised hupper]
  exact fun hkey => hnot ((List.filter_sublist.map _).subset hkey)

/-- A frequency is named by a part. -/
theorem exists_freq_part {f : Frequency}
    (h : Frequency.ofName? (Text.upper ((part? all "FREQ").getD [])) = some f) :
    ∃ v, part? all "FREQ" = some v := by
  cases hv : part? all "FREQ" with
  | some v => exact ⟨v, rfl⟩
  | none =>
    rw [hv] at h
    exact absurd h (by cases f <;> decide)

/-- Parts that have the part with a name as a text has it. -/
structure Keeps (all ps : List (Text × Text)) (name : String) : Prop where
  present : ∀ v, part? all name = some v → (name.toList, Text.upper v) ∈ ps
  absent : part? all name = none → name.toList ∉ ps.map Prod.fst

theorem keeps_raised (hupper : ∀ p ∈ withoutUntil all, Text.upper p.1 = p.1) {name : String}
    (hname : name ≠ "UNTIL") : Keeps all (raised (withoutUntil all)) name :=
  ⟨fun _ => mem_raised_of_part? hupper hname, fun h => not_mem_raised hupper (not_mem_of_part? h)⟩

section Keeps

variable {ps : List (Text × Text)} {d₀ draft : RuleText.Draft} (hnodup : (ps.map Prod.fst).Nodup)
  (hreads : RuleText.Reads d₀ ps draft)

include hnodup hreads

/-- The frequency that a text names is read from its parts. -/
theorem Keeps.freq (hkeeps : Keeps all ps "FREQ") {f : Frequency}
    (h : Frequency.ofName? (Text.upper ((part? all "FREQ").getD [])) = some f) :
    draft.freq = some f := by
  obtain ⟨v, hv⟩ := exists_freq_part h
  rw [hv] at h
  rw [hreads.freq hnodup (hkeeps.present v hv)]
  exact h

/-- The interval of a text is read from its parts, if none was read before that the text does not
have. -/
theorem Keeps.interval_iff (hkeeps : Keeps all ps "INTERVAL") {interval : Nat}
    (h : positive "INTERVAL" ((part? all "INTERVAL").getD ['1']) = .ok interval) :
    draft.interval = interval ↔ (part? all "INTERVAL" = none → d₀.interval = 1) := by
  obtain ⟨hnone, hsome⟩ := hreads.interval hnodup
  cases hv : part? all "INTERVAL" with
  | none =>
    rw [hv] at h
    have hone : 1 = interval := Except.ok.inj h
    rw [hnone (hkeeps.absent hv), ← hone]
    exact ⟨fun h _ => h, fun h => h rfl⟩
  | some v =>
    rw [hv] at h
    obtain ⟨-, hvalue, hlength⟩ := positive_of_ok h
    have hint := hsome _ (hkeeps.present v hv)
    exact iff_of_true (Option.some.inj (hint.symm.trans (Text.toInt?_of_asciiNat? hvalue hlength)))
      nofun

/-- The count of a text is read from its parts, if none was read before that the text does not
have. -/
theorem Keeps.count_iff (hkeeps : Keeps all ps "COUNT") {count : Option Nat}
    (h : countOf all = .ok count) :
    draft.count.map Int.toNat = count ↔ (part? all "COUNT" = none → d₀.count = none) := by
  obtain ⟨hnone, hsome⟩ := hreads.count hnodup
  unfold countOf at h
  cases hv : part? all "COUNT" with
  | none =>
    rw [hv] at h
    cases h
    rw [hnone (hkeeps.absent hv), Option.map_eq_none_iff]
    exact ⟨fun h _ => h, fun h => h rfl⟩
  | some v =>
    rw [hv] at h
    obtain ⟨n, hn, rfl⟩ := map_eq_ok_iff.mp h
    obtain ⟨-, hvalue, hlength⟩ := positive_of_ok hn
    refine iff_of_true ?_ nofun
    rw [← hsome _ (hkeeps.present v hv), Text.toInt?_of_asciiNat? hvalue hlength]
    rfl

end Keeps

section Draft

variable {draft : RuleText.Draft} (hnodup : (all.map Prod.fst).Nodup)
  (hupper : ∀ p ∈ withoutUntil all, Text.upper p.1 = p.1)
  (hreads : RuleText.Reads {} (raised (withoutUntil all)) draft)

include hnodup hupper hreads

/-- A list of integers of the draft is what its part gives. -/
theorem part_of_reads {name : String} {get : Parts → Option (List Int)}
    (hget : (name, get) ∈ RuleText.intFields) {ns : List Int} (hns : get draft.parts = some ns) :
    ∃ v, part? all name = some v ∧ RuleText.ints? (Text.upper v) = some ns := by
  obtain ⟨hnone, hsome⟩ := hreads.ints (nodup_raised hnodup hupper) hget
  have hname : name ≠ "UNTIL" := by
    have hall : ∀ field ∈ RuleText.intFields, field.1 ≠ "UNTIL" := by
      simp [RuleText.intFields]
    exact hall _ hget
  cases hv : part? all name with
  | none =>
    rw [hnone (not_mem_raised hupper (not_mem_of_part? hv))] at hns
    cases hns
  | some v =>
    obtain ⟨ns', hns', heq⟩ := hsome _ (mem_raised_of_part? hupper hname hv)
    obtain rfl : ns = ns' := Option.some.inj (hns.symm.trans heq)
    exact ⟨v, rfl, hns'⟩

/-- The draft has no day zero if the text has none. -/
theorem noZero_of_reads {f : Frequency} (hzero : f.isSubDaily = false →
      ∀ v ds, part? all "BYMONTHDAY" = some v → RuleText.ints? (Text.upper v) = some ds →
        (0 : Int) ∉ ds) : Rule.NoZero f draft.parts := by
  intro hsub ds hds
  obtain ⟨v, hv, hvalue⟩ := part_of_reads hnodup hupper hreads
    (show ("BYMONTHDAY", Parts.monthDays) ∈ RuleText.intFields by simp [RuleText.intFields]) hds
  exact hzero hsub v ds hv hvalue

/-- The draft has the frequency that the text names. -/
theorem freq_of_reads {f : Frequency}
    (h : Frequency.ofName? (Text.upper ((part? all "FREQ").getD [])) = some f) :
    draft.freq = some f :=
  (keeps_raised hupper (by decide)).freq (nodup_raised hnodup hupper) hreads h

/-- The draft has the interval of the component. -/
theorem interval_of_reads {interval : Nat}
    (h : positive "INTERVAL" ((part? all "INTERVAL").getD ['1']) = .ok interval) :
    draft.interval = interval :=
  ((keeps_raised hupper (by decide)).interval_iff (nodup_raised hnodup hupper) hreads h).mpr
    fun _ => rfl

/-- The draft has the count of the component. -/
theorem count_of_reads {count : Option Nat} (h : countOf all = .ok count) :
    draft.count.map Int.toNat = count :=
  ((keeps_raised hupper (by decide)).count_iff (nodup_raised hnodup hupper) hreads h).mpr
    fun _ => rfl

end Draft

/-- What a component has from a text that gives one rule: a rule that was completed from its
start, with the last moment of the component. -/
theorem completes_of_isOneWord (hall : parts value = .ok all) (hread : IsRead start clock all c)
    (hword : IsOneWord (withoutUntil all)) (hcount : c.count = none)
    (hlong : c.freq.any Frequency.isSubDaily = false → "BYWEEKDAY".toList ∉ all.map Prod.fst ∧
      ∀ v ds, part? all "BYMONTHDAY" = some v → RuleText.ints? (Text.upper v) = some ds →
        (0 : Int) ∉ ds) :
    ∃ f weekStart r, Completes c start f weekStart r ∧ c.rules = some (.single r) ∧
      ("BYEASTER".toList ∉ all.map Prod.fst → r.easters = []) := by
  obtain ⟨hnodup, hcut⟩ := parts_spec hall
  have hcut : ∀ p ∈ withoutUntil all, IsCut value p := fun p hp => hcut p (mem_of_mem_withoutUntil hp)
  obtain ⟨f, hf, hname⟩ := hread.freq_eq
  obtain ⟨rules, read, hrules, hread', hbound⟩ := hread.rules_eq
  obtain ⟨v, hv⟩ := exists_freq_part hname
  obtain ⟨draft, rule, hreads, htoRule, rfl⟩ :=
    read_of_isOneWord (List.ne_nil_of_mem (mem_withoutUntil (by decide) hv)) hcut hword hread'
  have hupper := upper_name_of_reads hcut hreads
  have hnodup' := nodup_raised hnodup hupper
  have hzero : Rule.NoZero f draft.parts :=
    noZero_of_reads hnodup hupper hreads fun hsub => (hlong (by rw [hf]; exact hsub)).2
  have hnames : Names c draft.parts := by
    refine names_of_reads ?_ hreads hnodup' fun hsub => not_mem_raised hupper (hlong hsub).1
    rw [keys_raised hupper]
    exact hread.expanders_eq
  unfold RuleText.Draft.toRule at htoRule
  rw [freq_of_reads hnodup hupper hreads hname] at htoRule
  dsimp only at htoRule
  rw [count_of_reads hnodup hupper hreads (hcount ▸ hread.count_eq),
    interval_of_reads hnodup hupper hreads hread.interval_eq] at htoRule
  refine ⟨f, draft.weekStart, { rule with bound := c.bound },
    ⟨hf, hreads.weekStart (by decide), (positive_of_ok hread.interval_eq).1, hcount, draft.parts, rule,
      hzero, hnames, htoRule, rfl⟩, ?_, fun heaster => ?_⟩
  · rw [withBound_eq htoRule hzero.keepsDays] at hbound
    rw [hrules, ← Except.ok.inj hbound]
  · have heq : rule.easters = draft.parts.easters.getD [] :=
      congrArg Rule.easters (Rule.ofParts_eq_ok_iff.mp htoRule).2.2.2.2
    rw [(hreads.ints hnodup' (show ("BYEASTER", Parts.easters) ∈ RuleText.intFields by
      simp [RuleText.intFields])).1 (not_mem_raised hupper heaster)] at heq
    exact heq

/-- The rule of a text with specified names. -/
theorem completes_of_isSpecified (hall : parts value = .ok all) (hspec : IsSpecified all)
    (hparse : parse value start clock = .ok c) :
    ∃ f weekStart r, Completes c start f weekStart r ∧ c.rules = some (.single r) ∧
      r.easters = [] := by
  obtain ⟨all', hall', hread⟩ := isRead_of_parse hparse
  obtain rfl : all = all' := Except.ok.inj (hall.symm.trans hall')
  have hnot : ∀ {name : Text}, (∀ n ∈ specifiedNames, n ≠ name) → name ∉ all.map Prod.fst := by
    intro name hne hkey
    obtain ⟨p, hp, heq⟩ := List.mem_map.mp hkey
    exact hne _ (hspec.names p hp) heq
  have hcount : c.count = none := by
    have hcount := hread.count_eq
    unfold countOf at hcount
    cases hv : part? all "COUNT" with
    | none =>
      rw [hv] at hcount
      exact (Except.ok.inj hcount).symm
    | some v =>
      exact absurd (List.mem_map_of_mem (mem_of_part? hv))
        (hnot fun n hn => (specifiedNames_spec n hn).2.2.2.1)
  have hword : IsOneWord (withoutUntil all) :=
    isOneWord_of_isSpecified (fun p hp => hspec.names p (mem_of_mem_withoutUntil hp))
      fun p hp => hspec.values p (mem_of_mem_withoutUntil hp)
  obtain ⟨f, weekStart, r, hcompletes, hrules, heasters⟩ :=
    completes_of_isOneWord hall hread hword hcount fun _ =>
      ⟨hnot fun n hn => (specifiedNames_spec n hn).2.2.1, hspec.monthDays⟩
  exact ⟨f, weekStart, r, hcompletes, hrules,
    heasters (hnot fun n hn => (specifiedNames_spec n hn).2.2.2.2)⟩

end Text

/-! ## The rule at an anchor -/

section Completes

variable {c : Component} {start : Moment} {f : Frequency} {weekStart : Nat} {r : Rule}

theorem Completes.rule_spec (h : Completes c start f weekStart r) : r.IsComplete ∧ r.count = none ∧
    r.freq = f ∧ r.interval = c.interval ∧ r.weekStart = weekStart ∧
      r.bound = c.bound ∧ r.anchor = { start with wall := start.wall.wholeSecond } := by
  obtain ⟨p, rule, -, -, hrule, rfl⟩ := h.rule_eq
  have hcomplete := Rule.isComplete_of_ofParts hrule h.interval_pos h.weekStart_lt
  have hr := (Rule.ofParts_eq_ok_iff.mp hrule).2.2.2.2
  refine ⟨⟨hcomplete.interval_pos, hcomplete.weekStart_lt, hcomplete.minutes_sorted,
    hcomplete.seconds_sorted, hcomplete.dayTimes_sorted, hcomplete.dayTimes_valid,
    hcomplete.numbered_eq_nil⟩, ?_, ?_, ?_, ?_, rfl, ?_⟩
  · exact congrArg Rule.count hr
  · exact congrArg Rule.freq hr
  · exact congrArg Rule.interval hr
  · exact congrArg Rule.weekStart hr
  · exact congrArg Rule.anchor hr

/-- A rule at an anchor is completed from what it was given, with the parts pinned that it takes
from its start. -/
theorem Completes.reanchor_eq (h : Completes c start f weekStart r)
    (hwhole : start.wall.ticks % Span.second = 0) (anchor : Moment) :
    ∃ p anchor₀, Rule.NoZero f p ∧
      Rule.ofParts f anchor₀ c.interval weekStart none c.bound p = .ok r ∧
      r.reanchor anchor (Source.pin start c) =
        Rule.ofParts f anchor c.interval weekStart none c.bound (r.given.settle f r.anchor.wall) := by
  obtain ⟨-, hcount, hfreq, hinterval, hweek, -, hranchor⟩ := h.rule_spec
  obtain ⟨p, rule, hzero, hnames, hrule, rfl⟩ := h.rule_eq
  have hgiven := Rule.given_eq_givenOf hrule
  have hwall : rule.anchor.wall = start.wall := by
    rw [show rule.anchor = _ from hranchor]
    exact Rule.wholeSecond_eq hwhole
  have hpin : Source.pin start c rule.given = rule.given.settle f rule.anchor.wall := by
    rw [hwall]
    refine Source.pin_eq_settle ?_ h.freq_eq start
    rw [hgiven]
    exact hnames.givenOf h.freq_eq hzero _ _ _
  have hzero' : Rule.NoZero f rule.given := by
    rw [hgiven]
    exact Rule.noZero_givenOf _ _ _ _ _
  refine ⟨rule.given, rule.anchor, hzero', Rule.ofParts_given hrule hzero.keepsDays c.bound, ?_⟩
  show Rule.ofParts rule.freq anchor rule.interval rule.weekStart rule.count c.bound
    (Source.pin start c rule.given) = _
  rw [show rule.freq = f from hfreq, show rule.interval = c.interval from hinterval,
    show rule.weekStart = weekStart from hweek, show rule.count = none from hcount, hpin]

/-- A rule that is started at an anchor with the same phase is only moved. -/
theorem Completes.reanchor (h : Completes c start f weekStart r)
    (hwhole : start.wall.ticks % Span.second = 0) {anchor : Moment}
    (hanchor : anchor.wall.ticks % Span.second = 0)
    (hhour : f = .hourly →
      ((anchor.wall.hour : Int) - start.wall.hour) % (Nat.gcd c.interval 24 : Int) = 0)
    (hminute : f = .minutely →
      ((anchor.wall.minute : Int) - start.wall.minute) % (Nat.gcd c.interval 60 : Int) = 0) :
    ∃ given, r.reanchor anchor (Source.pin start c) = .ok (r.movedTo anchor given) := by
  have hwall : r.anchor.wall = start.wall := by
    rw [h.rule_spec.2.2.2.2.2.2]
    exact Rule.wholeSecond_eq hwhole
  obtain ⟨p, anchor₀, hzero, hrule, heq⟩ := h.reanchor_eq hwhole anchor
  obtain ⟨given, hmoved⟩ := Rule.ofParts_settle hrule hzero.keepsDays (Rule.wholeSecond_eq hanchor)
    (by rw [hwall]; exact fun hf _ => hhour hf) (by rw [hwall]; exact fun hf _ => hminute hf)
  exact ⟨given, heq.trans hmoved⟩

end Completes

end Component

end ScanPolicy
