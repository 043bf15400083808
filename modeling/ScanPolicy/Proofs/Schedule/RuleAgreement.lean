import ScanPolicy.Proofs.Schedule.Completed
import ScanPolicy.Proofs.Text.Blanks

/-!
# Rules that are read twice

The numbers of a component are read from the parts of its rule. The parts are joined and read again,
and this text may be cut in other places: at its blanks, and at the name of the property of rules,
behind which the first part may have another name.

- `RuleText.isOneRule_of_read`: only one word gives one rule.
- `Component.unmarked`: the parts as they are read again.
- `Component.IsHidden`: the parts that are only read again.
- `Component.Agrees`: a rule with the numbers of a component; `parse_agrees_iff`.
-/

namespace ScanPolicy

namespace RuleText

/-! ## Texts that give one rule -/

/-- A piece is a rule if no name or the name of the property stands before it. -/
theorem colon_of_readPiece {t body : Text} (h : readPiece t = .ok (.rule body)) :
    ':' ∉ t ∨ Text.startsWith propertyMark t = true := by
  unfold readPiece at h
  cases hcut : Text.cut ':' t with
  | mk name after =>
    cases after with
    | none => exact .inl (Text.cut_none hcut).2
    | some after =>
      right
      rw [hcut] at h
      dsimp only at h
      split at h
      · cases h
      · next property parameters hpieces =>
        split at h
        · next hname =>
          have hproperty : property = "RRULE".toList := by
            rw [← hname, String.toList_ofList]
          rw [Text.cut_some hcut, Text.eq_of_pieces_eq hpieces, hproperty]
          exact List.isPrefixOf_iff_prefix.mpr (List.prefix_append propertyMark after)
        all_goals cases h

/-- One rule comes from one piece. -/
theorem exists_piece_of_readPieces {anchor : Moment} {pieces : List Text} {r : Rule}
    (h : readPieces anchor pieces = .ok (.single r)) :
    ∃ piece body, pieces = [piece] ∧ readPiece piece = .ok (.rule body) := by
  unfold readPieces at h
  obtain ⟨ps, hps, h⟩ := bind_eq_ok_iff.mp h
  dsimp only at h
  split at h
  · next body hrules hexcluded hdates =>
    -- a second piece would be a second rule, an excluded rule or a date
    obtain rfl : ps = [.rule body] := by
      cases ps with
      | nil => cases hrules
      | cons p rest =>
        cases rest with
        | nil => cases p <;> simp at hrules hexcluded hdates ⊢; exact hrules
        | cons q rest => cases p <;> cases q <;> simp at hrules hexcluded hdates
    cases pieces with
    | nil => cases hps
    | cons piece rest =>
      rw [List.mapM_cons] at hps
      obtain ⟨p, hp, hps⟩ := bind_eq_ok_iff.mp hps
      obtain ⟨more, hmore, hps⟩ := bind_eq_ok_iff.mp hps
      cases hps
      cases rest with
      | nil => exact ⟨piece, body, rfl, hp⟩
      | cons piece' rest =>
        rw [List.mapM_cons] at hmore
        obtain ⟨p', -, hmore⟩ := bind_eq_ok_iff.mp hmore
        obtain ⟨more', -, hmore⟩ := bind_eq_ok_iff.mp hmore
        cases hmore
  · obtain ⟨rs, -, h⟩ := bind_eq_ok_iff.mp h
    split at h
    · cases h
    · obtain ⟨exs, -, h⟩ := bind_eq_ok_iff.mp h
      cases h

/-- A text without blanks at its ends gives one rule only if it is one word that has no colon, or begins
with the name of the property. -/
theorem isOneRule_of_read {anchor : Moment} {text : Text} {r : Rule} (hbare : (Text.upper text).Bare)
    (h : read anchor text = .ok (.single r)) : IsOneRule (Text.upper text) := by
  unfold read at h
  dsimp only at h
  split at h
  · cases h
  · next piece hwords =>
    have hnoBlank := hbare.noBlank_of_words hwords
    have hne : Text.upper text ≠ [] := by
      intro hnil
      rw [hnil] at hwords
      cases hwords
    obtain rfl : Text.upper text = piece := by
      rw [Text.words_of_noBlank hnoBlank hne] at hwords
      exact (List.cons.inj hwords).1
    refine ⟨hnoBlank, ?_⟩
    split at h
    · next hstart =>
      rcases Bool.or_eq_true_iff.mp hstart with hcolon | hmark
      · left
        rw [List.contains_eq_mem] at hcolon
        simpa using hcolon
      · exact .inr hmark
    · obtain ⟨piece, body, hpiece, hbody⟩ := exists_piece_of_readPieces h
      rw [(List.cons.inj hpiece).1]
      exact colon_of_readPiece hbody
  · next hwords =>
    obtain ⟨piece, body, hpiece, -⟩ := exists_piece_of_readPieces h
    exact absurd hpiece (hwords _)

/-! ## The numbers that one part sets -/

/-- One part sets the interval, or leaves it as it is. -/
theorem interval_of_sets {value : Text} {d : Draft} {name : String} (h : Sets value {} name d) :
    name = "INTERVAL" ∧ Text.toInt? value = some d.interval ∨ name ≠ "INTERVAL" ∧ d.interval = 1 := by
  cases h with
  | interval hvalue => exact .inl ⟨rfl, hvalue⟩
  | weekdays hname => exact .inr ⟨by rintro rfl; exact absurd hname (by decide), rfl⟩
  | ints hset _ => exact .inr ⟨by rintro rfl; exact not_mem_intLists (by decide) _ hset, rfl⟩
  | _ => exact .inr ⟨by decide, rfl⟩

/-- One part sets the count, or leaves it as it is. -/
theorem count_of_sets {value : Text} {d : Draft} {name : String} (h : Sets value {} name d) :
    name = "COUNT" ∧ d.count ≠ none ∨ name ≠ "COUNT" ∧ d.count = none := by
  cases h with
  | count _ => exact .inl ⟨rfl, nofun⟩
  | weekdays hname => exact .inr ⟨by rintro rfl; exact absurd hname (by decide), rfl⟩
  | ints hset _ => exact .inr ⟨by rintro rfl; exact not_mem_intLists (by decide) _ hset, rfl⟩
  | _ => exact .inr ⟨by decide, rfl⟩

end RuleText

namespace Component

open RuleText

/-! ## The parts as they are read again -/

/-- The parts in front of which the name of the property is dropped. -/
def unmarked : List (Text × Text) → List (Text × Text)
  | [] => []
  | (k, v) :: rest =>
    (if Text.startsWith propertyMark k then k.drop propertyMark.length else k, v) :: rest

/-- The parts of a rule as they are read again, in upper case. -/
def reread (all : List (Text × Text)) : List (Text × Text) := unmarked (raised (withoutUntil all))

theorem unmarked_cases (qs : List (Text × Text)) : unmarked qs = qs ∨
    ∃ k v rest, qs = (propertyMark ++ k, v) :: rest ∧ unmarked qs = (k, v) :: rest := by
  cases qs with
  | nil => exact .inl rfl
  | cons q rest =>
    obtain ⟨k, v⟩ := q
    unfold unmarked
    dsimp only
    cases hmark : Text.startsWith propertyMark k with
    | false => exact .inl rfl
    | true =>
      obtain ⟨k', rfl⟩ := List.isPrefixOf_iff_prefix.mp hmark
      exact .inr ⟨k', v, rest, rfl, by rw [if_pos rfl, List.drop_left]⟩

/-- A part that is only read again, as the first reading found no part with its name. -/
def IsHidden (all : List (Text × Text)) (name : String) (value : Text) : Prop :=
  (name.toList, value) ∈ reread all ∧ part? all name = none

/-- Parts that can be told from their joined text. -/
def AreSeparable (qs : List (Text × Text)) : Prop := ∀ q ∈ qs, ';' ∉ q.1 ∧ ';' ∉ q.2 ∧ '=' ∉ q.1

theorem areSeparable_raised {text : Text} {ps : List (Text × Text)} (hcut : ∀ p ∈ ps, IsCut text p) :
    AreSeparable (raised ps) := by
  intro q hq
  obtain ⟨p, hp, rfl⟩ := List.mem_map.mp hq
  have hp := hcut p hp
  refine ⟨fun h => hp.name.1 ?_, fun h => hp.value ?_, fun h => hp.name.2 ?_⟩ <;>
    exact Text.mem_upper_of_isMark h (by decide)

theorem AreSeparable.unmarked {qs : List (Text × Text)} (h : AreSeparable qs) :
    AreSeparable (unmarked qs) := by
  cases qs with
  | nil => exact h
  | cons q rest =>
    obtain ⟨⟨hname, hvalue, heq⟩, hrest⟩ := List.forall_mem_cons.mp h
    refine List.forall_mem_cons.mpr ⟨?_, hrest⟩
    dsimp only
    split
    · exact ⟨fun h => hname (List.mem_of_mem_drop h), hvalue, fun h => heq (List.mem_of_mem_drop h)⟩
    · exact ⟨hname, hvalue, heq⟩

/-- What is read from the joined text of parts. -/
theorem AreSeparable.reads {qs : List (Text × Text)} (h : AreSeparable qs) (hne : qs ≠ [])
    {draft : Draft} (hread : readParts (joinParts qs) = .ok draft) : Reads {} qs draft := by
  refine reads_of_foldlM (fun q hq => (h q hq).2.2) ?_
  unfold readParts at hread
  rwa [pieces_joinParts hne fun q hq => ⟨(h q hq).1, (h q hq).2.1⟩] at hread

/-- A text begins with the name of the property if its first part does. -/
theorem startsWith_joinParts (k v : Text) (rest : List (Text × Text)) :
    Text.startsWith propertyMark (joinParts ((k, v) :: rest)) = Text.startsWith propertyMark k := by
  obtain ⟨more, hmore⟩ := joinParts_cons v rest
  rw [hmore, Bool.eq_iff_iff]
  unfold Text.startsWith
  rw [List.isPrefixOf_iff_prefix, List.isPrefixOf_iff_prefix]
  refine ⟨fun h => ?_, fun h => h.trans (List.prefix_append _ _)⟩
  rcases List.prefix_or_prefix_of_prefix h (List.prefix_append k _) with h' | ⟨s, hs⟩
  · exact h'
  · -- the name of the property has no equals sign
    cases s with
    | nil => exact ⟨[], by rw [List.append_nil, ← hs, List.append_nil]⟩
    | cons c s =>
      rw [← hs, List.prefix_append_right_inj, List.cons_prefix_cons] at h
      have hmem : '=' ∈ propertyMark := by
        rw [← hs, h.1]
        exact List.mem_append_right _ List.mem_cons_self
      exact absurd hmem (by decide)

/-- One rule is read from the parts in front of which the name of the property is dropped. -/
theorem readParts_of_readRule {start : Moment} {r : Rule} {qs : List (Text × Text)}
    (hone : IsOneRule (joinParts qs)) (h : readRule start (joinParts qs) = .ok r) :
    ∃ draft, readParts (joinParts (unmarked qs)) = .ok draft ∧ draft.toRule start = .ok r := by
  unfold readRule at h
  dsimp only at h
  cases qs with
  | nil => exact bind_eq_ok_iff.mp h
  | cons q rest =>
    obtain ⟨k, v⟩ := q
    have hstarts := startsWith_joinParts k v rest
    unfold unmarked
    dsimp only
    rw [← hstarts]
    cases hmark : Text.startsWith propertyMark (joinParts ((k, v) :: rest)) with
    | false =>
      rw [if_neg Bool.false_ne_true]
      rcases hone.colon with hcolon | hmark'
      · rw [Text.pieces_of_not_mem hcolon] at h
        exact bind_eq_ok_iff.mp h
      · rw [hmark] at hmark'
        cases hmark'
    | true =>
      rw [hmark] at hstarts
      obtain ⟨k', rfl⟩ := List.isPrefixOf_iff_prefix.mp hstarts.symm
      have hbody : joinParts ((propertyMark ++ k', v) :: rest) =
          "RRULE".toList ++ ':' :: joinParts ((k', v) :: rest) := by
        cases rest <;> rfl
      rw [if_pos rfl, List.drop_left]
      rw [hbody, Text.pieces_append, Text.pieces_of_not_mem (by decide), List.singleton_append] at h
      split at h
      · next heq => exact absurd (List.cons.inj heq).2 (Text.pieces_ne_nil _ _)
      · next heq =>
        rw [Text.eq_of_pieces_eq (List.cons.inj heq).2]
        split at h
        · exact bind_eq_ok_iff.mp h
        · cases h
      · cases h

/-! ## The numbers as they are read again -/

/-- The names of the parts that give the numbers of a component. -/
def numberNames : List String := ["FREQ", "INTERVAL", "COUNT"]

section Reread

variable {value : Text} {all : List (Text × Text)} {draft : Draft} (hall : parts value = .ok all)
  (hreads : Reads {} (reread all) draft)

include hall hreads

/-- The parts that are read again are those that were read, behind at most one part with another
name. -/
theorem reads_reread : ∃ d₀ ps, Reads d₀ ps draft ∧ (ps.map Prod.fst).Nodup ∧
    (∀ name ∈ numberNames, Keeps all ps name) ∧
    (d₀ = {} ∧ (∀ name v, ¬ IsHidden all name v) ∨ ∃ name v, Sets v {} name d₀ ∧
      ∀ name' v', IsHidden all name' v' ↔ name' = name ∧ v' = v ∧ part? all name = none) := by
  obtain ⟨hnodup, hcut⟩ := parts_spec hall
  have hcut : ∀ p ∈ withoutUntil all, IsCut value p := fun p hp => hcut p (mem_of_mem_withoutUntil hp)
  have hhidden : ∀ name v, IsHidden all name v ↔
      (name.toList, v) ∈ reread all ∧ part? all name = none := fun _ _ => Iff.rfl
  rcases unmarked_cases (raised (withoutUntil all)) with heq | ⟨k, v, rest', hraised, heq⟩
  · have heq : reread all = raised (withoutUntil all) := heq
    rw [heq] at hreads hhidden
    have hupper := upper_name_of_reads hcut hreads
    refine ⟨{}, _, hreads, nodup_raised hnodup hupper, fun name hname => ?_,
      .inl ⟨rfl, fun name v h => ?_⟩⟩
    · exact keeps_raised hupper (by rintro rfl; exact absurd hname (by decide))
    · obtain ⟨hmem, hnone⟩ := (hhidden name v).mp h
      exact not_mem_raised hupper (not_mem_of_part? hnone) (List.mem_map_of_mem hmem)
  · obtain ⟨p, rest, hparts, hp, rfl⟩ := List.map_eq_cons_iff.mp hraised
    have heq : reread all = (k, v) :: raised rest := heq
    rw [heq] at hreads hhidden
    have hsub : rest.Sublist (withoutUntil all) := hparts ▸ List.sublist_cons_self p rest
    cases hreads with
    | @cons _ d₁ _ _ _ _ hsets hrest =>
      have hupper := upper_name_of_reads (fun q hq => hcut q (hsub.subset hq)) hrest
      have hkeys : (rest.map Prod.fst).Sublist (all.map Prod.fst) :=
        (hsub.trans List.filter_sublist).map Prod.fst
      have habsent : ∀ name, part? all name = none → name.toList ∉ (raised rest).map Prod.fst := by
        intro name hnone hkey
        rw [keys_raised hupper] at hkey
        exact not_mem_of_part? hnone (hkeys.subset hkey)
      refine ⟨d₁, raised rest, hrest, ?_, fun name hname => ⟨fun v hv => ?_, habsent name⟩,
        .inr ⟨_, _, hsets, fun name' v' => ?_⟩⟩
      · rw [keys_raised hupper]
        exact hnodup.sublist hkeys
      · have hmem := mem_withoutUntil (by rintro rfl; exact absurd hname (by decide)) hv
        rw [hparts] at hmem
        rcases List.mem_cons.mp hmem with rfl | hmem
        · -- none of these names begins with the name of the property
          have hnames : ∀ name ∈ numberNames,
              Text.startsWith propertyMark (Text.upper name.toList) = false := by decide
          have hmark := hnames name hname
          rw [(Prod.mk.inj hp).1] at hmark
          exact absurd (List.isPrefixOf_iff_prefix.mpr (List.prefix_append _ _))
            (Bool.eq_false_iff.mp hmark)
        · exact mem_raised hupper hmem
      · rw [hhidden]
        constructor
        · rintro ⟨hmem, hnone⟩
          rcases List.mem_cons.mp hmem with heq | hmem
          · obtain ⟨hname, hvalue⟩ := Prod.mk.inj heq
            rw [← hname, String.ofList_toList]
            exact ⟨rfl, hvalue, hnone⟩
          · exact absurd (List.mem_map_of_mem hmem) (habsent name' hnone)
        · rintro ⟨rfl, rfl, hnone⟩
          rw [String.toList_ofList]
          exact ⟨List.mem_cons_self, hnone⟩

/-- The numbers that are read again are those of the component, if no part with their names is
hidden. -/
theorem numbers_of_reread {f : Frequency} {interval : Nat} {count : Option Nat}
    (hf : Frequency.ofName? (Text.upper ((part? all "FREQ").getD [])) = some f)
    (hinterval : positive "INTERVAL" ((part? all "INTERVAL").getD ['1']) = .ok interval)
    (hcount : countOf all = .ok count) :
    draft.freq = some f ∧
      (draft.interval = interval ↔ ∀ v, IsHidden all "INTERVAL" v → Text.toInt? v = some 1) ∧
      (draft.count.map Int.toNat = count ↔ ∀ v, ¬ IsHidden all "COUNT" v) ∧
      ∀ v, ¬ IsHidden all "UNTIL" v := by
  obtain ⟨d₀, ps, hps, hnodup, hkeeps, hbefore⟩ := reads_reread hall hreads
  refine ⟨(hkeeps "FREQ" (by decide)).freq hnodup hps hf, ?_, ?_, fun v hv => ?_⟩
  · rw [(hkeeps "INTERVAL" (by decide)).interval_iff hnodup hps hinterval]
    rcases hbefore with ⟨rfl, hnone⟩ | ⟨name, v, hsets, hhidden⟩
    · exact iff_of_true (fun _ => rfl) fun v hv => absurd hv (hnone _ v)
    · simp only [hhidden]
      rcases interval_of_sets hsets with ⟨rfl, hvalue⟩ | ⟨hname, hone⟩
      · have hone : Text.toInt? v = some 1 ↔ d₀.interval = 1 := by rw [hvalue, Option.some_inj]
        rw [← hone]
        exact ⟨fun h v' ⟨_, hv', hnone⟩ => hv' ▸ h hnone, fun h hnone => h v ⟨rfl, rfl, hnone⟩⟩
      · exact iff_of_true (fun _ => hone) fun v' hv' => absurd hv'.1.symm hname
  · rw [(hkeeps "COUNT" (by decide)).count_iff hnodup hps hcount]
    rcases hbefore with ⟨rfl, hnone⟩ | ⟨name, v, hsets, hhidden⟩
    · exact iff_of_true (fun _ => rfl) (hnone _)
    · simp only [hhidden]
      rcases count_of_sets hsets with ⟨rfl, hsome⟩ | ⟨hname, hzero⟩
      · exact ⟨fun h v' ⟨_, _, hnone⟩ => hsome (h hnone), fun h hnone => absurd ⟨rfl, rfl, hnone⟩ (h v)⟩
      · exact iff_of_true (fun _ => hzero) fun v' hv' => hname hv'.1.symm
  · exact absurd (hreads.names _ hv.1) (by rw [String.ofList_toList]; decide)

end Reread

/-! ## The rule of a component -/

/-- A rule that is anchored at the start and has the numbers of a component. -/
structure Agrees (c : Component) (start : Moment) (r : Rule) : Prop where
  anchor_eq : r.anchor = { start with wall := start.wall.wholeSecond }
  freq_eq : c.freq = some r.freq
  interval_eq : r.interval = c.interval
  count_eq : r.count = c.count
  bound_eq : r.bound = c.bound

/-- A rule is still one with a last moment, and has its own numbers. -/
theorem single_of_withBound {f : Frequency} {anchor : Moment} {interval weekStart : Nat}
    {count : Option Nat} {p : Parts} {rule : Rule} {bound : Option Moment} {rules : Rules}
    (hrule : Rule.ofParts f anchor interval weekStart count none p = .ok rule)
    (h : Rules.withBound (.single rule) bound = .ok rules) :
    ∃ r, rules = .single r ∧ r.anchor = { anchor with wall := anchor.wall.wholeSecond } ∧
      r.freq = f ∧ r.interval = interval ∧ r.count = count ∧ r.bound = bound := by
  have hr := (Rule.ofParts_eq_ok_iff.mp hrule).2.2.2.2
  have hanchor : rule.anchor = { anchor with wall := anchor.wall.wholeSecond } :=
    congrArg Rule.anchor hr
  have hfreq : rule.freq = f := congrArg Rule.freq hr
  have hinterval : rule.interval = interval := congrArg Rule.interval hr
  have hcount : rule.count = count := congrArg Rule.count hr
  cases bound with
  | none =>
    cases h
    exact ⟨rule, rfl, hanchor, hfreq, hinterval, hcount, congrArg Rule.bound hr⟩
  | some bound =>
    obtain ⟨r, hbounded, rfl⟩ := map_eq_ok_iff.mp h
    have hr := (Rule.ofParts_eq_ok_iff.mp hbounded).2.2.2.2
    refine ⟨r, rfl, (congrArg Rule.anchor hr).trans ?_, (congrArg Rule.freq hr).trans hfreq,
      (congrArg Rule.interval hr).trans hinterval, (congrArg Rule.count hr).trans hcount,
      congrArg Rule.bound hr⟩
    show { rule.anchor with wall := rule.anchor.wall.wholeSecond } = _
    rw [hanchor, Rule.wholeSecond_wholeSecond]

/-- Several rules are still several with a last moment. -/
theorem single_of_withBound_single {read : Rules} {bound : Option Moment} {r : Rule}
    (h : Rules.withBound read bound = .ok (.single r)) : ∃ rule, read = .single rule := by
  cases read with
  | single rule => exact ⟨rule, rfl⟩
  | several rs exs => cases bound <;> cases h

theorem bare_joinParts_raised {value : Text} {all : List (Text × Text)} (hall : parts value = .ok all) :
    (Text.upper (joinParts (withoutUntil all))).Bare := by
  have hparts : ∀ p ∈ all, p.1.Bare ∧ p.2.Bare :=
    (@partsFrom_spec (fun p => p.1.Bare ∧ p.2.Bare) [] all _ List.nodup_nil
      (fun _ hp => absurd hp List.not_mem_nil)
      (fun _ _ _ _ _ => ⟨(Text.bare_trim _).upper, Text.bare_trim _⟩) hall).2
  refine Text.Bare.upper (Text.bare_intercalate (fun t ht => ?_) (by decide))
  obtain ⟨p, hp, rfl⟩ := List.mem_map.mp ht
  obtain ⟨hname, hvalue⟩ := hparts p (mem_of_mem_withoutUntil hp)
  exact hname.join hvalue (by decide)

/-- The rule of a component of which the parts give one rule. -/
theorem exists_rule_of_isOneRule {value : Text} {start : Moment} {clock : Clock}
    {all : List (Text × Text)} {c : Component} (hall : parts value = .ok all)
    (hread : IsRead start clock all c)
    (hone : IsOneRule (Text.upper (joinParts (withoutUntil all)))) :
    ∃ r, c.rules = some (.single r) ∧ (c.Agrees start r ↔
      (∀ v, IsHidden all "INTERVAL" v → Text.toInt? v = some 1) ∧
        (∀ v, ¬ IsHidden all "COUNT" v) ∧ ∀ v, ¬ IsHidden all "UNTIL" v) := by
  obtain ⟨rules, read, hrules, hread', hbound⟩ := hread.rules_eq
  obtain ⟨f, hf, hname⟩ := hread.freq_eq
  have hsep : AreSeparable (raised (withoutUntil all)) :=
    areSeparable_raised fun p hp => (parts_spec hall).2 p (mem_of_mem_withoutUntil hp)
  obtain ⟨v, hv⟩ := exists_freq_part hname
  obtain ⟨p, rest, hparts⟩ := List.exists_cons_of_ne_nil
    (List.ne_nil_of_mem (mem_withoutUntil (by decide) hv))
  have hne : unmarked (raised (withoutUntil all)) ≠ [] := by
    rw [hparts]
    exact List.cons_ne_nil _ _
  have hnonempty : Text.upper (joinParts (withoutUntil all)) ≠ [] := by
    rw [upper_joinParts, hparts]
    exact joinParts_ne_nil (List.cons_ne_nil _ _)
  obtain ⟨rule, hrule, rfl⟩ := map_eq_ok_iff.mp
    ((read_of_isOneRule hone hnonempty start).symm.trans hread')
  rw [upper_joinParts] at hrule hone
  obtain ⟨draft, hdraft, hrule⟩ := readParts_of_readRule hone hrule
  obtain ⟨hfreq, hinterval, hcount, huntil⟩ := numbers_of_reread hall (hsep.unmarked.reads hne hdraft)
    hname hread.interval_eq hread.count_eq
  unfold Draft.toRule at hrule
  rw [hfreq] at hrule
  obtain ⟨r, rfl, hranchor, hrfreq, hrinterval, hrcount, hrbound⟩ := single_of_withBound hrule hbound
  refine ⟨r, hrules, ?_⟩
  have hpos := (positive_of_ok hread.interval_eq).1
  have hsame : r.interval = c.interval ↔ draft.interval = c.interval := by
    rw [hrinterval]
    omega
  rw [← hinterval, ← hcount, ← hsame, ← hrcount]
  constructor
  · intro hagrees
    exact ⟨hagrees.interval_eq, hagrees.count_eq, huntil⟩
  · rintro ⟨hinterval, hcount, -⟩
    exact ⟨hranchor, by rw [hf, hrfreq], hinterval, hcount, hrbound⟩

end Component

end ScanPolicy
