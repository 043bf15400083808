import ScanPolicy.Proofs.Recurrence.Completion
import ScanPolicy.Proofs.Recurrence.Drafts
import ScanPolicy.Proofs.Schedule.ClockDates
import ScanPolicy.Proofs.Schedule.Parsed
import ScanPolicy.Schedule.Next

/-!
# The rules of a component

A rule text may give several rules. All of them count their periods from the start of the
schedule, on its clock, also after one of them was moved to an anchor.

- `Rules.list`: the rules whose dates are taken.
- `Rule.IsRead`: what every rule has that was read or moved.
- `Source.anchored_cases`: how rules are moved.
- `Component.isCompleted_rules`, `Source.isRead_moved`: the rules of a component, as they are
  read and as they are moved.
-/

namespace ScanPolicy

/-- The rules whose dates are taken. -/
def Rules.list : Rules → List Rule
  | .single r => [r]
  | .several rs _ => rs

/-- A rule that counts its periods on a clock, and is completed if its interval is not zero. -/
structure Rule.IsRead (clock : Clock) (r : Rule) : Prop where
  clock_eq : r.anchor.clock = clock
  weekStart_lt : r.weekStart < 7
  complete : 0 < r.interval → r.IsComplete

theorem Rule.isRead_of_ofParts {f : Frequency} {anchor : Moment} {interval weekStart : Nat}
    {count : Option Nat} {bound : Option Moment} {p : Parts} {r : Rule}
    (h : ofParts f anchor interval weekStart count bound p = .ok r) (hweek : weekStart < 7) :
    r.IsRead anchor.clock ∧ r.interval = interval := by
  have hr := (ofParts_eq_ok_iff.mp h).2.2.2.2
  have hinterval : r.interval = interval := congrArg Rule.interval hr
  refine ⟨⟨?_, ?_, fun hpos => isComplete_of_ofParts h (hinterval ▸ hpos) hweek⟩, hinterval⟩
  · rw [show r.anchor = { anchor with wall := anchor.wall.wholeSecond } from congrArg Rule.anchor hr]
  · rw [show r.weekStart = weekStart from congrArg Rule.weekStart hr]
    exact hweek

/-- A rule that was completed from parts, with an anchor on a clock. -/
inductive Rule.IsCompleted (clock : Clock) : Rule → Prop
  | ofParts {f : Frequency} {anchor : Moment} {interval weekStart : Nat} {count : Option Nat}
      {bound : Option Moment} {p : Parts} {r : Rule} (hclock : anchor.clock = clock)
      (hweek : weekStart < 7)
      (h : Rule.ofParts f anchor interval weekStart count bound p = .ok r) : IsCompleted clock r

theorem Rule.IsCompleted.isRead {clock : Clock} {r : Rule} (h : r.IsCompleted clock) :
    r.IsRead clock := by
  cases h with
  | ofParts hclock hweek h =>
    rw [← hclock]
    exact (isRead_of_ofParts h hweek).1

namespace RuleText

variable {anchor : Moment} {r : Rule}

/-- A rule of a text is completed from its parts, and has no last moment. -/
theorem exists_ofParts_of_readRule {t : Text} (h : readRule anchor t = .ok r) :
    ∃ f interval weekStart count p, weekStart < 7 ∧
      Rule.ofParts f anchor interval weekStart count none p = .ok r := by
  have hbody : ∀ {body : Text}, (readParts body >>= fun d => d.toRule anchor) = .ok r →
      ∃ f interval weekStart count p, weekStart < 7 ∧
        Rule.ofParts f anchor interval weekStart count none p = .ok r := by
    intro body h
    obtain ⟨draft, hdraft, h⟩ := bind_eq_ok_iff.mp h
    unfold Draft.toRule at h
    split at h
    · cases h
    · exact ⟨_, _, _, _, _, weekStart_of_readParts hdraft, h⟩
  unfold readRule at h
  dsimp only at h
  split at h
  · exact hbody h
  · split at h
    · exact hbody h
    · cases h
  · cases h

/-- Each rule of a text is read from a text of its own. -/
theorem exists_readRule_of_read {text : Text} {rules : Rules} (h : read anchor text = .ok rules) :
    ∀ r ∈ rules.list, ∃ t, readRule anchor t = .ok r := by
  have hsingle : ∀ {x : Except Fault Rule}, (∀ r, x = .ok r → ∃ t, readRule anchor t = .ok r) →
      (x >>= fun r => pure (Rules.single r)) = .ok rules →
        ∀ r ∈ rules.list, ∃ t, readRule anchor t = .ok r := by
    intro x hx h r hr
    obtain ⟨r', hr', h⟩ := bind_eq_ok_iff.mp h
    cases h
    rw [List.mem_singleton.mp hr]
    exact hx r' hr'
  have hpieces : ∀ {pieces : List Text}, readPieces anchor pieces = .ok rules →
      ∀ r ∈ rules.list, ∃ t, readRule anchor t = .ok r := by
    intro pieces h
    unfold readPieces at h
    obtain ⟨ps, -, h⟩ := bind_eq_ok_iff.mp h
    dsimp only at h
    split at h
    · exact hsingle (fun r hr => ⟨_, hr⟩) h
    · obtain ⟨rs, hrs, h⟩ := bind_eq_ok_iff.mp h
      split at h
      · cases h
      · obtain ⟨exs, -, h⟩ := bind_eq_ok_iff.mp h
        cases h
        exact forall_of_mapM_ok hrs fun t _ r hr => ⟨t, hr⟩
  unfold read at h
  dsimp only at h
  split at h
  · cases h
  · split at h
    · exact hsingle (fun r hr => ⟨_, hr⟩) h
    · exact hpieces h
  · exact hpieces h

/-- All rules of a text count their periods on the clock of the anchor. -/
theorem isCompleted_of_read {text : Text} {rules : Rules} (h : read anchor text = .ok rules) :
    ∀ r ∈ rules.list, r.IsCompleted anchor.clock := by
  intro r hr
  obtain ⟨t, ht⟩ := exists_readRule_of_read h r hr
  obtain ⟨f, interval, weekStart, count, p, hweek, hrule⟩ := exists_ofParts_of_readRule ht
  exact .ofParts rfl hweek hrule

end RuleText

/-- The rules of a component count their periods on the clock of the start. -/
theorem Component.isCompleted_rules {value : Text} {start : Moment} {clock : Clock} {c : Component}
    (h : parse value start clock = .ok c) {rules : Rules} (hrules : c.rules = some rules) :
    ∀ r ∈ rules.list, r.IsCompleted start.clock := by
  obtain ⟨all, -, hread⟩ := isRead_of_parse h
  obtain ⟨rules', read, hrules', hread, hbound⟩ := hread.rules_eq
  obtain rfl : rules = rules' := Option.some.inj (hrules.symm.trans hrules')
  have hspec := RuleText.isCompleted_of_read hread
  cases hb : c.bound with
  | none =>
    rw [hb] at hbound
    cases hbound
    exact hspec
  | some bound =>
    rw [hb] at hbound
    cases read with
    | several rs exs => cases hbound
    | single r =>
      obtain ⟨r', hr', rfl⟩ := map_eq_ok_iff.mp hbound
      obtain ⟨hclock, hweek, -⟩ := (hspec r List.mem_cons_self).isRead
      intro r'' hr''
      rw [List.mem_singleton.mp hr'']
      exact .ofParts hclock hweek hr'

namespace Descriptor

theorem isCompleted_rules {text : Text} {zoneName : Option Text} {d : Descriptor}
    (hparse : (parse text zoneName).run.value = .ok d) {c : Component} (hc : c ∈ d.components)
    {rules : Rules} (hrules : c.rules = some rules) :
    ∀ r ∈ rules.list, r.IsCompleted d.start.clock := by
  obtain ⟨properties, -, hread⟩ := isRead_of_parse hparse
  rcases hread.components_eq with honce | hcomponents
  · rw [honce, List.mem_singleton] at hc
    rw [hc] at hrules
    cases hrules
  · obtain ⟨p, -, hp⟩ := hcomponents c hc
    exact Component.isCompleted_rules hp hrules

/-- The rules of a schedule count their periods on the clock of the start. -/
theorem isRead_rules {text : Text} {zoneName : Option Text} {d : Descriptor}
    (hparse : (parse text zoneName).run.value = .ok d) {c : Component} (hc : c ∈ d.components)
    {rules : Rules} (hrules : c.rules = some rules) : ∀ r ∈ rules.list, r.IsRead d.start.clock :=
  fun r hr => (isCompleted_rules hparse hc hrules r hr).isRead

end Descriptor

/-! ## Moved rules -/

/-- Rules stay as they are, or a single one is moved to the date with a number. -/
theorem Source.anchored_cases {start now : Moment} {c : Component} {rules moved : Rules}
    (h : anchored start c rules now = .ok moved) : moved = rules ∨
      ∃ r r' index anchor, rules = .single r ∧ moved = .single r' ∧
        Plain.occurrence start c index = .ok anchor ∧ r.reanchor anchor (pin start c) = .ok r' ∧
        index ≠ 0 ∧ ∃ f elapsed, c.freq = some f ∧ Plain.elapsedPeriods start c f now = .ok elapsed ∧
          (elapsed - 1).toNat = index := by
  unfold anchored at h
  split at h
  · next f _ hf =>
    obtain ⟨elapsed, helapsed, h⟩ := bind_eq_ok_iff.mp h
    dsimp only at h
    split at h
    · cases h
      exact .inl rfl
    · next hindex =>
      obtain ⟨anchor, hanchor, h⟩ := bind_eq_ok_iff.mp h
      cases rules with
      | several rs exs => cases h
      | single r =>
        obtain ⟨r', hr', rfl⟩ := map_eq_ok_iff.mp h
        exact .inr ⟨r, r', _, anchor, rfl, rfl, hanchor, hr', hindex, f, elapsed, hf, helapsed, rfl⟩
  · cases h
    exact .inl rfl

/-- Moved rules count their periods on the clock of the start, in the same intervals. -/
theorem Source.isRead_moved {start now : Moment} {c : Component} {rules moved : Rules}
    (h : anchored start c rules now = .ok moved) (hrules : ∀ r ∈ rules.list, r.IsRead start.clock) :
    ∀ r ∈ moved.list, r.IsRead start.clock ∧ ∃ r₀ ∈ rules.list, r.interval = r₀.interval := by
  rcases anchored_cases h with rfl | ⟨r, r', index, anchor, rfl, rfl, hanchor, hr', -⟩
  · exact fun r hr => ⟨hrules r hr, r, hr, rfl⟩
  · have hread := hrules r List.mem_cons_self
    obtain ⟨hmoved, hinterval⟩ := Rule.isRead_of_ofParts hr' hread.weekStart_lt
    rw [Plain.clock_of_occurrence hanchor] at hmoved
    intro r'' hr''
    rw [List.mem_singleton.mp hr'']
    exact ⟨hmoved, r, List.mem_cons_self, hinterval⟩

/-- Moved rules are completed if their intervals are not zero. -/
theorem Source.isRead_anchored {start now : Moment} {c : Component} {rules moved : Rules}
    (h : anchored start c rules now = .ok moved)
    (hrules : ∀ r ∈ rules.list, r.IsRead start.clock ∧ 0 < r.interval) :
    ∀ r ∈ moved.list, r.IsComplete ∧ r.anchor.clock = start.clock := by
  intro r hr
  obtain ⟨hread, r₀, hr₀, hinterval⟩ := isRead_moved h (fun r hr => (hrules r hr).1) r hr
  exact ⟨hread.complete (hinterval ▸ (hrules r₀ hr₀).2), hread.clock_eq⟩

end ScanPolicy
