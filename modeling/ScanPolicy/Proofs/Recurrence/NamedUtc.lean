import ScanPolicy.Proofs.Moment.NamedUtc
import ScanPolicy.Proofs.Recurrence.BoundedWalk
import ScanPolicy.Proofs.Recurrence.Completion
import ScanPolicy.Proofs.Recurrence.Moved
import ScanPolicy.Proofs.Recurrence.Spelling

/-!
# Rules in the zone `UTC` and in universal time

A rule that is anchored in the zone `UTC` takes the same steps as the one that is anchored on the
universal clock, and so do several of them: wherever a step compares two moments, alike moments compare
alike.

- `Rule.Alike`, `Walk.Alike`, `RuleSet.Alike`: rules, and how far they have been walked.
- `Rule.ofParts_alike`, `RuleText.read_alike`: completed rules, and rules that are read.
- `Walk.step_alike`, `RuleSet.step_alike`: steps of alike walks.
- `search_alike`: what is found.
-/

namespace ScanPolicy

/-! ## Rules -/

/-- Rules that are the same but for the name of universal time. -/
inductive Rule.Alike : Rule → Rule → Prop
  | mk (r : Rule) {anchor anchor' : Moment} {bound bound' : Option Moment}
      (hanchor : anchor.Alike anchor') (hbound : Option.Rel Moment.Alike bound bound') :
      Alike { r with anchor, bound } { r with anchor := anchor', bound := bound' }

/-- One rule or several that are the same but for the name of universal time. -/
inductive Rules.Alike : Rules → Rules → Prop
  | single {r r' : Rule} (h : r.Alike r') : Alike (.single r) (.single r')
  | several {rs rs' exs exs' : List Rule} (h : List.Forall₂ Rule.Alike rs rs')
      (hex : List.Forall₂ Rule.Alike exs exs') : Alike (.several rs exs) (.several rs' exs')

namespace Rule

theorem ofParts_alike {anchor anchor' : Moment} (hanchor : anchor.Alike anchor')
    {bound bound' : Option Moment} (hbound : Option.Rel Moment.Alike bound bound') (f : Frequency)
    (interval weekStart : Nat) (count : Option Nat) (p : Parts) :
    Corresponds Eq Alike (ofParts f anchor interval weekStart count bound p)
      (ofParts f anchor' interval weekStart count bound' p) := by
  have hwhole : Moment.Alike { anchor with wall := anchor.wall.wholeSecond }
      { anchor' with wall := anchor'.wall.wholeSecond } := by
    cases hanchor with
    | utc t h h' => exact .utc _ h h'
    | foreign h => exact .foreign h
  have hcompleted : ∀ hours minutes dayTimes,
      Alike (completed f anchor interval weekStart count bound p hours minutes dayTimes)
        (completed f anchor' interval weekStart count bound' p hours minutes dayTimes) := by
    intro hours minutes dayTimes
    have hmk := Alike.mk (completed f anchor interval weekStart count bound p hours minutes dayTimes)
      hwhole hbound
    unfold completed at hmk ⊢
    rw [← hanchor.wall_eq] at hmk ⊢
    exact hmk
  rw [ofParts_eq, ofParts_eq, hanchor.wall_eq]
  split
  · exact .bind_self _ fun hours => .bind_self _ fun minutes => .bind_self _ fun dayTimes =>
      .ok (hcompleted hours minutes dayTimes)
  · exact .error rfl

theorem withUntil_alike {r r' : Rule} (h : r.Alike r') {bound bound' : Moment}
    (hbound : bound.Alike bound') : Corresponds Eq Alike (r.withUntil bound) (r'.withUntil bound') := by
  cases h with
  | mk r hanchor _ => exact ofParts_alike hanchor (.some hbound) ..

theorem reanchor_alike {r r' : Rule} (h : r.Alike r') {anchor anchor' : Moment}
    (hanchor : anchor.Alike anchor') (change : Parts → Parts) :
    Corresponds Eq Alike (r.reanchor anchor change) (r'.reanchor anchor' change) := by
  cases h with
  | mk r _ hbound => exact ofParts_alike hanchor hbound ..

/-- The anchor and the last moment of a rule take no part in how its periods follow each other. -/
theorem nextPeriod_mk (r : Rule) (anchor : Moment) (bound : Option Moment) (skips : Bool) (p : Period) :
    ({ r with anchor, bound } : Rule).nextPeriod skips p = r.nextPeriod skips p :=
  (nextPeriod_movedTo (r := { r with bound }) skips p).trans (nextPeriod_withBound r bound skips p)

end Rule

/-! ## Texts of rules -/

namespace RuleText

variable {anchor anchor' : Moment} (h : anchor.Alike anchor')

include h

theorem readRule_alike (t : Text) :
    Corresponds Eq Rule.Alike (readRule anchor t) (readRule anchor' t) := by
  have hdraft (body : Text) : Corresponds Eq Rule.Alike (readParts body >>= (·.toRule anchor))
      (readParts body >>= (·.toRule anchor')) := by
    refine .bind_self _ fun d => ?_
    unfold Draft.toRule
    cases d.freq with
    | none => exact .error rfl
    | some f => exact Rule.ofParts_alike h .none ..
  unfold readRule
  split
  · exact hdraft _
  · split
    · exact hdraft _
    · exact .error rfl
  · exact .error rfl

theorem severalOf_alike (rules excluded dates : List Text) :
    Corresponds Eq Rules.Alike (severalOf anchor rules excluded dates)
      (severalOf anchor' rules excluded dates) := by
  have hread (ts : List Text) : Corresponds Eq (List.Forall₂ Rule.Alike) (ts.mapM (readRule anchor))
      (ts.mapM (readRule anchor')) := by
    refine Corresponds.mapM (R := Eq) (by rw [List.forall₂_eq_eq_eq]) fun t t' ht => ?_
    rw [ht]
    exact readRule_alike h t'
  refine (hread rules).bind fun rs rs' hrs => ?_
  cases dates with
  | cons body _ => exact .error rfl
  | nil => exact (hread excluded).bind fun exs exs' hexs => .ok (.several hrs hexs)

theorem rulesOf_alike (rules excluded dates : List Text) :
    Corresponds Eq Rules.Alike (rulesOf anchor rules excluded dates)
      (rulesOf anchor' rules excluded dates) := by
  unfold rulesOf
  split
  · exact (readRule_alike h _).bind fun r r' hr => .ok (.single hr)
  · exact severalOf_alike h ..

theorem readPieces_alike (pieces : List Text) :
    Corresponds Eq Rules.Alike (readPieces anchor pieces) (readPieces anchor' pieces) := by
  rw [readPieces_eq, readPieces_eq]
  exact .bind_self _ fun ps => rulesOf_alike h ..

theorem read_alike (text : Text) : Corresponds Eq Rules.Alike (read anchor text) (read anchor' text) := by
  unfold read
  dsimp only
  split
  · exact .error rfl
  · split
    · exact (readRule_alike h _).bind fun r r' hr => .ok (.single hr)
    · exact readPieces_alike h _
  · exact readPieces_alike h _

end RuleText

/-! ## Walks -/

/-- Outcomes of a step whose dates are alike and that go on in related states. -/
inductive Step.Alike {σ : Type} (R : σ → σ → Prop) : Step σ → Step σ → Prop
  | done : Alike R .done .done
  | silent {s s' : σ} (h : R s s') : Alike R (.silent s) (.silent s')
  | emit {m m' : Moment} {s s' : σ} (hm : m.Alike m') (h : R s s') : Alike R (.emit m s) (.emit m' s')

/-- Walks that have come equally far through alike rules. -/
inductive Walk.Alike : Walk → Walk → Prop
  | mk {r r' : Rule} (h : r.Alike r') (place : Walk.Place) (left : Option Nat) :
      Alike ⟨r, place, left⟩ ⟨r', place, left⟩

namespace Walk

theorem ofRule_alike {r r' : Rule} (h : r.Alike r') : Alike (ofRule r) (ofRule r') := by
  have hfirst : r.firstPeriod = r'.firstPeriod ∧ r.count = r'.count := by
    cases h with
    | mk r hanchor _ =>
      refine ⟨?_, rfl⟩
      unfold Rule.firstPeriod
      dsimp only
      rw [hanchor.wall_eq]
  unfold ofRule
  rw [hfirst.1, hfirst.2]
  exact .mk h _ _

theorem isPast_alike {r r' : Rule} (h : r.Alike r') {m m' : Moment} (hm : m.Alike m') :
    isPast r m = isPast r' m' := by
  cases h with
  | mk r _ hbound =>
    unfold isPast
    cases hbound with
    | none => rfl
    | some hlast => exact hlast.before_eq hm

theorem layout_mk (r : Rule) (anchor : Moment) (bound : Option Moment) (p : Period) (isFirst : Bool) :
    layout { r with anchor, bound } p isFirst = layout r p isFirst := rfl

theorem step_alike {w w' : Walk} (h : w.Alike w') : Corresponds Eq (Step.Alike Alike) w.step w'.step := by
  obtain ⟨hr, place, left⟩ := h
  have hpast := @isPast_alike _ _ hr
  cases hr with | @mk r anchor anchor' bound bound' hanchor hbound =>
  have hwalk := Alike.mk (.mk r hanchor hbound)
  match place with
  | .over => exact .ok .done
  | .before p isFirst =>
    unfold step
    dsimp only
    rw [layout_mk r anchor bound, layout_mk r anchor' bound']
    split
    · exact .error rfl
    · exact .ok (.silent (hwalk _ _))
  | .within p skips [] none =>
    unfold step
    dsimp only
    rw [Rule.nextPeriod_mk r anchor bound, Rule.nextPeriod_mk r anchor' bound']
    split
    · exact .ok (.silent (hwalk _ _))
    · exact .ok .done
    · exact .error rfl
  | .within p skips [] (some e) => exact .error rfl
  | .within p skips (t :: rest) fault =>
    have hdate := Moment.alike_of_clock t hanchor.clock
    unfold step
    dsimp only
    rw [hpast hdate, hanchor.wall_eq]
    split
    · exact .ok .done
    · split
      · exact .ok (.silent (hwalk _ _))
      · split
        · exact .ok (.emit hdate (hwalk _ _))
        · exact .ok .done
        · exact .ok (.emit hdate (hwalk _ _))

end Walk

/-! ## Several rules -/

/-- Lanes that are the same but for the name of universal time. -/
inductive Lane.Alike : Lane → Lane → Prop
  | waiting {w w' : Walk} (h : w.Alike w') : Alike (.waiting w) (.waiting w')
  | ready {m m' : Moment} (hm : m.Alike m') {w w' : Walk} (h : w.Alike w') :
      Alike (.ready m w) (.ready m' w')

namespace Lane

theorem advance_alike {w w' : Walk} (h : w.Alike w') :
    Corresponds Eq (List.Forall₂ Alike) (advance w) (advance w') := by
  refine (Walk.step_alike h).bind fun o o' ho => ?_
  cases ho with
  | done => exact .ok .nil
  | silent h => exact .ok (.cons (.waiting h) .nil)
  | emit hm h => exact .ok (.cons (.ready hm h) .nil)

theorem advanceFirst_alike {lanes lanes' : List Lane} (h : List.Forall₂ Alike lanes lanes') :
    Corresponds Eq (Option.Rel (List.Forall₂ Alike)) (advanceFirst lanes) (advanceFirst lanes') := by
  induction h with
  | nil => exact .ok .none
  | cons hlane hrest ih =>
    cases hlane with
    | waiting hw => exact (advance_alike hw).bind fun _ _ hmoved => .ok (.some (List.rel_append hmoved hrest))
    | ready hm hw =>
      refine ih.bind fun o o' ho => ?_
      cases ho with
      | none => exact .ok .none
      | some hmoved => exact .ok (.some (.cons (.ready hm hw) hmoved))

theorem earliest_alike {lanes lanes' : List Lane} (h : List.Forall₂ Alike lanes lanes') :
    Option.Rel (fun p p' => p.1.Alike p'.1 ∧ p.2.1.Alike p'.2.1 ∧ List.Forall₂ Alike p.2.2 p'.2.2)
      (earliest lanes) (earliest lanes') := by
  induction h with
  | nil => exact .none
  | @cons lane lane' rest rest' hlane hrest ih =>
    cases hlane with
    | waiting hw =>
      unfold earliest
      generalize earliest rest = o, earliest rest' = o' at ih ⊢
      cases ih with
      | none => exact .none
      | some h => exact .some ⟨h.1, h.2.1, .cons (.waiting hw) h.2.2⟩
    | ready hm hw =>
      unfold earliest
      generalize earliest rest = o, earliest rest' = o' at ih ⊢
      cases ih with
      | none => exact .some ⟨hm, hw, hrest⟩
      | some h =>
        dsimp only
        rw [h.1.before_eq hm]
        split
        · exact .some ⟨h.1, h.2.1, .cons (.ready hm hw) h.2.2⟩
        · exact .some ⟨hm, hw, hrest⟩

end Lane

/-- Walks through several rules that are the same but for the name of universal time. -/
structure RuleSet.Alike (s s' : RuleSet) : Prop where
  lanes : List.Forall₂ Lane.Alike s.lanes s'.lanes
  excludedLanes : List.Forall₂ Lane.Alike s.excludedLanes s'.excludedLanes
  excluded : List.Forall₂ Moment.Alike s.excluded s'.excluded
  last : Option.Rel Moment.Alike s.last s'.last

namespace RuleSet

theorem ofRules_alike {rs rs' exs exs' : List Rule} (h : List.Forall₂ Rule.Alike rs rs')
    (hex : List.Forall₂ Rule.Alike exs exs') {excluded excluded' : List Moment}
    (hexcluded : List.Forall₂ Moment.Alike excluded excluded') :
    Alike (ofRules rs exs excluded) (ofRules rs' exs' excluded') where
  lanes := List.rel_map (fun _ _ h => .waiting (Walk.ofRule_alike h)) h
  excludedLanes := List.rel_map (fun _ _ h => .waiting (Walk.ofRule_alike h)) hex
  excluded := Moment.sort_alike hexcluded
  last := .none

theorem any_same_alike {m m' : Moment} (hm : m.Alike m') {o o' : Option Moment}
    (h : Option.Rel Moment.Alike o o') : o.any (·.same m) = o'.any (·.same m') := by
  cases h with
  | none => rfl
  | some h => exact h.same_eq hm

theorem head?_alike {ms ms' : List Moment} (h : List.Forall₂ Moment.Alike ms ms') :
    Option.Rel Moment.Alike ms.head? ms'.head? := by
  cases h with
  | nil => exact .none
  | cons hx _ => exact .some hx

theorem dropWhile_alike {m m' : Moment} (hm : m.Alike m') {ms ms' : List Moment}
    (h : List.Forall₂ Moment.Alike ms ms') :
    List.Forall₂ Moment.Alike (ms.dropWhile (·.before m)) (ms'.dropWhile (·.before m')) := by
  induction h with
  | nil => exact .nil
  | cons hx hrest ih =>
    rw [List.dropWhile_cons, List.dropWhile_cons, hx.before_eq hm]
    split
    · exact ih
    · exact .cons hx hrest

theorem step_alike {s s' : RuleSet} (h : s.Alike s') :
    Corresponds Eq (Step.Alike Alike) s.step s'.step := by
  unfold step
  refine (Lane.advanceFirst_alike h.lanes).bind fun o o' ho => ?_
  -- a date is only taken when the next dates of all lanes are known
  cases ho with
  | some hlanes => exact .ok (.silent { h with lanes := hlanes })
  | none =>
    refine (Lane.advanceFirst_alike h.excludedLanes).bind fun o o' ho => ?_
    cases ho with
    | some hlanes => exact .ok (.silent { h with excludedLanes := hlanes })
    | none =>
      have hearliest := Lane.earliest_alike h.lanes
      have hfirst := Lane.earliest_alike h.excludedLanes
      dsimp only
      generalize Lane.earliest s.lanes = e, Lane.earliest s'.lanes = e' at hearliest ⊢
      generalize Lane.earliest s.excludedLanes = f, Lane.earliest s'.excludedLanes = f' at hfirst ⊢
      cases hearliest with
      | none => exact .ok .done
      | some he =>
        obtain ⟨hdate, hwalk, hothers⟩ := he
        have hpassed := List.Forall₂.cons (Lane.Alike.waiting hwalk) hothers
        have hexcluded := dropWhile_alike hdate h.excluded
        have hhead := any_same_alike hdate (head?_alike hexcluded)
        unfold repeats
        dsimp only
        rw [any_same_alike hdate h.last]
        split
        · exact .ok (.silent { h with lanes := hpassed })
        · cases hfirst with
          | none =>
            dsimp only
            rw [hhead]
            split
            · exact .ok (.silent ⟨hpassed, h.excludedLanes, hexcluded, .some hdate⟩)
            · exact .ok (.emit hdate ⟨hpassed, h.excludedLanes, hexcluded, .some hdate⟩)
          | some hf =>
            dsimp only
            rw [hf.1.before_eq hdate, hf.1.same_eq hdate, hhead]
            split
            · exact .ok (.silent { h with excludedLanes := .cons (.waiting hf.2.1) hf.2.2 })
            · split
              · exact .ok (.silent ⟨hpassed, h.excludedLanes, hexcluded, .some hdate⟩)
              · exact .ok (.emit hdate ⟨hpassed, h.excludedLanes, hexcluded, .some hdate⟩)

end RuleSet

/-! ## Searching -/

/-- Searches that have come equally far. -/
inductive Sought.Alike : Sought → Sought → Prop
  | after (count : Nat) : Alike (.after count) (.after count)
  | found {m m' : Moment} (h : m.Alike m') : Alike (.found m) (.found m')

theorem Sought.result_alike {x x' : Sought} (h : x.Alike x') :
    Option.Rel Moment.Alike x.result x'.result := by
  cases h with
  | after => exact .none
  | found h => exact .some h

/-- Searches in alike walks find alike dates, or fail in one way. -/
theorem search_alike {σ : Type} {step : σ → Except Fault (Step σ)} {R : σ → σ → Prop}
    (hstep : ∀ s s', R s s' → Corresponds Eq (Step.Alike R) (step s) (step s')) {now now' : Moment}
    (hnow : now.Alike now') (fuel : Nat) {x x' : Sought} (hx : x.Alike x') {s s' : σ} (h : R s s') :
    Corresponds Eq (Option.Rel Moment.Alike) (search step now fuel x s) (search step now' fuel x' s') := by
  induction fuel generalizing x x' s s' with
  | zero => exact .ok (Sought.result_alike hx)
  | succ fuel ih =>
    have ho := hstep s s' h
    unfold search
    generalize step s = o, step s' = o' at ho ⊢
    cases ho with
    | error he => exact .error he
    | ok ho =>
      cases ho with
      | done => exact .ok (Sought.result_alike hx)
      | silent h => exact ih hx h
      | emit hm h =>
        dsimp only
        rw [hnow.before_eq hm]
        split
        · cases hx with
          | found hfound => exact .ok (.some hfound)
          | after count =>
            cases count with
            | zero => exact ih (.found hm) h
            | succ n => exact ih (.after n) h
        · exact ih hx h

end ScanPolicy
