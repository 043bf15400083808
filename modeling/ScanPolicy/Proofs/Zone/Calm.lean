import ScanPolicy.Zone.Named
import ScanPolicy.Proofs.Moment.Clock
import ScanPolicy.Proofs.Zone.Yearly

/-!
# Calm zones

A zone is calm if its transitions are at least two days apart, its offsets lie within one
day of offsets, and the rule after the last transition goes with that transition. The
clock of a calm zone keeps the instants of what it shows, shows what it has not yet shown
in the order of time, and leaves no time out.

- `Zone.IsCalm`: calm zones.
- `Zone.keepsFrom`, `Zone.showsInOrderFrom`: the transitions from one on.
- `Zone.IsCalm.keepsInstants`, `Zone.IsCalm.showsInOrder`, `Zone.IsCalm.isUnbroken`,
  `Zone.IsCalm.separatesDays`: the clock of a calm zone.
-/

namespace ScanPolicy

namespace Zone

/-- Whether a transition is within the years 2 to 9998 and leads to an offset of the day that starts
at `low`. -/
def CalmChange (low : Int) (t : Transition) : Prop :=
  Within low t.offset ∧ yearStart 2 ≤ t.instant ∧ t.instant ≤ yearStart 9999

instance (low : Int) (t : Transition) : Decidable (CalmChange low t) :=
  inferInstanceAs (Decidable (_ ∧ _))

/-- Whether the transitions from one on are calm, and the rule goes with the last one. -/
def CalmFrom (low : Int) (footer : Footer) : Int → Transition → List Transition → Prop
  | before, t, [] => CalmChange low t ∧ footer.Joins before t
  | _, t, u :: rest =>
    CalmChange low t ∧ t.instant + 2 * 86400 ≤ u.instant ∧ CalmFrom low footer t.offset u rest

instance decidableCalmFrom (low : Int) (footer : Footer) :
    (before : Int) → (t : Transition) → (rest : List Transition) →
      Decidable (CalmFrom low footer before t rest)
  | _, _, [] => inferInstanceAs (Decidable (_ ∧ _))
  | _, t, u :: rest =>
    have := decidableCalmFrom low footer t.offset u rest
    inferInstanceAs (Decidable (_ ∧ _ ∧ _))

theorem CalmFrom.change {low before : Int} {footer : Footer} {t : Transition} {rest : List Transition}
    (h : CalmFrom low footer before t rest) : CalmChange low t := by
  cases rest with
  | nil => exact h.1
  | cons u rest => exact h.1

/-! ## The transitions from one on -/

section

variable {low before instant : Int} {footer : Footer} {year : Nat} {t : Transition}
  {rest : List Transition}

theorem universalFrom_nil (footer : Footer) (instant : Int) (year : Nat) (before : Int)
    (t : Transition) : universalFrom footer instant year before t [] =
      if instant = t.instant then (t.offset, decide (0 < before - t.offset))
      else ((footerOfUniversal footer instant year).1,
        (footerOfUniversal footer instant year).2 ||
          (decide (0 < before - (footerOfUniversal footer instant year).1) &&
            decide (instant < t.instant + (before - (footerOfUniversal footer instant year).1)))) :=
  rfl

theorem universalFrom_cons (footer : Footer) (instant : Int) (year : Nat) (before : Int)
    (t u : Transition) (rest : List Transition) :
    universalFrom footer instant year before t (u :: rest) =
      if instant < u.instant then (t.offset, decide (instant - t.instant < before - t.offset))
      else universalFrom footer instant year t.offset u rest :=
  rfl

theorem offsetFrom_of_lt {fold : Bool} {wall : Int} (h : wall < wallThreshold fold before t) :
    offsetFrom footer fold wall year before (t :: rest) = before := by
  cases rest with
  | nil => exact if_pos h
  | cons u rest => exact if_pos h

theorem wallThreshold_le (fold : Bool) {low : Int} (hbefore : Within low before)
    (ht : Within low t.offset) : wallThreshold fold before t < t.instant + low + 86400 := by
  unfold Within at *
  unfold wallThreshold
  split <;> omega

/-- The offsets of calm transitions are those of one day. -/
theorem within_universalFrom (hfooter : footer.IsCalm low) (h : CalmFrom low footer before t rest) :
    Within low (universalFrom footer instant year before t rest).1 := by
  induction rest generalizing before t with
  | nil =>
    rw [universalFrom_nil]
    split
    · exact h.1.1
    · exact hfooter.within instant year
  | cons u rest ih =>
    rw [universalFrom_cons]
    split
    · exact h.1.1
    · exact ih h.2.2

/-- At a transition its threshold is shown. -/
theorem wallThreshold_self (before : Int) (t : Transition) :
    wallThreshold (decide (0 < before - t.offset)) before t = t.instant + t.offset := by
  unfold wallThreshold
  by_cases hlost : 0 < before - t.offset
  · rw [if_pos (decide_eq_true hlost)]
    omega
  · rw [if_neg (by simpa using hlost)]
    omega

/-- From a transition on its threshold is passed. -/
theorem wallThreshold_le_of_le (hfrom : t.instant ≤ instant) (before : Int) :
    wallThreshold (decide (instant - t.instant < before - t.offset)) before t ≤ instant + t.offset := by
  unfold wallThreshold
  by_cases hagain : instant - t.instant < before - t.offset
  · rw [if_pos (decide_eq_true hagain)]
    omega
  · rw [if_neg (by simpa using hagain)]
    omega

/-- Up to the next transition the threshold of that one is not reached. -/
theorem lt_wallThreshold_of_lt {u : Transition} (hbefore : Within low before)
    (ht : Within low t.offset) (hu : Within low u.offset)
    (hspaced : t.instant + 2 * 86400 ≤ u.instant) (hnext : instant < u.instant) :
    instant + t.offset <
      wallThreshold (decide (instant - t.instant < before - t.offset)) t.offset u := by
  unfold wallThreshold Within at *
  by_cases hagain : instant - t.instant < before - t.offset
  · rw [if_pos (decide_eq_true hagain)]
    omega
  · rw [if_neg (by simpa using hagain)]
    omega

/-- What the clock shows long after the last transition is read by the rule alone. -/
theorem keeps_of_far (hfooter : footer.IsCalm low) (hlow : -86400 ≤ low ∧ low ≤ 0)
    (h : CalmFrom low footer before t []) (hbefore : Within low before)
    (hyear : InYear instant year) (hfar : t.instant + 2 * 86400 ≤ instant) {wallYear : Nat}
    (hwall : InYear (instant + (universalFrom footer instant year before t []).1) wallYear) :
    offsetFrom footer (universalFrom footer instant year before t []).2
      (instant + (universalFrom footer instant year before t []).1) wallYear before [t] =
        (universalFrom footer instant year before t []).1 := by
  have hat : ¬ instant = t.instant := by omega
  rw [universalFrom_nil, if_neg hat] at hwall ⊢
  dsimp only at hwall ⊢
  have hkeeps := Footer.keeps hfooter hlow hyear hwall
  have hwithin := hfooter.within instant year
  generalize footerOfUniversal footer instant year = shown at *
  obtain ⟨offset, again⟩ := shown
  dsimp only at *
  have hlate : ¬ instant < t.instant + (before - offset) := by
    unfold Within at *
    omega
  rw [decide_eq_false hlate, Bool.and_false, Bool.or_false]
  have hpassed := wallThreshold_le (t := t) again hbefore h.1.1
  unfold offsetFrom
  dsimp only
  unfold Within at *
  rw [if_neg (by omega), if_neg (by omega)]
  exact hkeeps

/-- Soon after the last transition the rule shows the offset of that transition, and what the
transition repeats is read like the rest of it. -/
theorem keeps_of_near (hfooter : footer.IsCalm low) (hlow : -86400 ≤ low ∧ low ≤ 0)
    (h : CalmFrom low footer before t []) (hyear : InYear instant year) (hafter : t.instant < instant)
    (hsoon : instant < t.instant + 2 * 86400) {wallYear : Nat}
    (hwall : InYear (instant + (universalFrom footer instant year before t []).1) wallYear) :
    offsetFrom footer (universalFrom footer instant year before t []).2
      (instant + (universalFrom footer instant year before t []).1) wallYear before [t] =
        (universalFrom footer instant year before t []).1 := by
  have hat : ¬ instant = t.instant := by omega
  rw [universalFrom_nil, if_neg hat] at hwall ⊢
  dsimp only at hwall ⊢
  have hkeeps := Footer.keeps hfooter hlow hyear hwall
  have hnear := h.2.near hfooter hlow hyear (by omega) hsoon
  generalize footerOfUniversal footer instant year = shown at *
  obtain ⟨offset, again⟩ := shown
  dsimp only at *
  obtain ⟨rfl, hrule⟩ := hnear
  have hread : ∀ {fold : Bool}, footerOffset footer fold (instant + t.offset) wallYear = t.offset →
      wallThreshold fold before t ≤ instant + t.offset →
      offsetFrom footer fold (instant + t.offset) wallYear before [t] = t.offset := by
    intro fold hfold hpassed
    unfold offsetFrom
    dsimp only
    rw [if_neg (not_lt.mpr hpassed), hfold, ite_self]
  by_cases hrepeats : instant < t.instant + (before - t.offset)
  · rw [decide_eq_true (show 0 < before - t.offset by omega), decide_eq_true hrepeats,
      Bool.and_true, Bool.or_true]
    refine hread ?_ ?_
    · -- a steady rule does not look at the fold, and another one repeats this time, too
      rcases hrule with ⟨steady, rfl⟩ | rfl
      · exact hkeeps
      · rw [decide_eq_true hrepeats] at hkeeps
        exact hkeeps
    · unfold wallThreshold
      rw [if_pos rfl]
      omega
  · rw [decide_eq_false hrepeats, Bool.and_false, Bool.or_false]
    refine hread hkeeps ?_
    unfold wallThreshold
    split <;> omega

/-- What the clock shows from a transition on is read as the time at which it is shown. -/
theorem keepsFrom (hfooter : footer.IsCalm low) (hlow : -86400 ≤ low ∧ low ≤ 0)
    (h : CalmFrom low footer before t rest) (hbefore : Within low before)
    (hyear : InYear instant year) (hfrom : t.instant ≤ instant) {wallYear : Nat}
    (hwall : InYear (instant + (universalFrom footer instant year before t rest).1) wallYear) :
    offsetFrom footer (universalFrom footer instant year before t rest).2
      (instant + (universalFrom footer instant year before t rest).1) wallYear before (t :: rest) =
        (universalFrom footer instant year before t rest).1 := by
  induction rest generalizing before t with
  | nil =>
    rcases hfrom.eq_or_lt with hat | hafter
    · rw [universalFrom_nil, if_pos hat.symm]
      unfold offsetFrom
      dsimp only
      rw [wallThreshold_self, hat, if_neg (lt_irrefl _), if_pos rfl]
    · rcases le_or_gt (t.instant + 2 * 86400) instant with hfar | hsoon
      · exact keeps_of_far hfooter hlow h hbefore hyear hfar hwall
      · exact keeps_of_near hfooter hlow h hyear hafter hsoon hwall
  | cons u rest ih =>
    obtain ⟨⟨hchange, -⟩, hspaced, hrest⟩ := h
    rw [universalFrom_cons] at hwall ⊢
    split at hwall
    · next hbeforeNext =>
      rw [if_pos hbeforeNext]
      show (if _ then before else offsetFrom _ _ _ _ t.offset (u :: rest)) = _
      rw [if_neg (not_lt.mpr (wallThreshold_le_of_le hfrom before)), offsetFrom_of_lt
        (lt_wallThreshold_of_lt hbefore hchange hrest.change.1 hspaced hbeforeNext)]
    · next hafterNext =>
      rw [if_neg hafterNext]
      have hpassed : ¬ instant + (universalFrom footer instant year t.offset u rest).1 <
          wallThreshold (universalFrom footer instant year t.offset u rest).2 before t := by
        have hwithin : Within low (universalFrom footer instant year t.offset u rest).1 :=
          within_universalFrom hfooter hrest
        have := wallThreshold_le (t := t) (universalFrom footer instant year t.offset u rest).2
          hbefore hchange
        unfold Within at *
        omega
      show (if _ then before else offsetFrom _ _ _ _ t.offset (u :: rest)) = _
      rw [if_neg hpassed]
      exact ih hrest hchange (by omega) hwall

/-- What the clock shows for the first time from a transition on is not before what it showed at the
transition with the offset before it. -/
theorem transition_le_first (h : CalmFrom low footer before t rest)
    (hbefore : Within low before) (hfrom : t.instant ≤ instant)
    (hfirst : (universalFrom footer instant year before t rest).2 = false) :
    t.instant + before ≤ instant + (universalFrom footer instant year before t rest).1 := by
  induction rest generalizing before t with
  | nil =>
    rw [universalFrom_nil] at hfirst ⊢
    split at hfirst
    · next hat =>
      rw [if_pos hat]
      simp only [decide_eq_false_iff_not] at hfirst
      dsimp only
      omega
    · next hat =>
      rw [if_neg hat]
      simp only [Bool.or_eq_false_iff, Bool.and_eq_false_iff, decide_eq_false_iff_not] at hfirst
      dsimp only
      omega
  | cons u rest ih =>
    obtain ⟨⟨hchange, -⟩, hspaced, hrest⟩ := h
    rw [universalFrom_cons] at hfirst ⊢
    split at hfirst
    · next hbeforeNext =>
      rw [if_pos hbeforeNext]
      simp only [decide_eq_false_iff_not] at hfirst
      dsimp only
      omega
    · next hafterNext =>
      rw [if_neg hafterNext]
      have := ih hrest hchange (by omega) hfirst
      unfold Within at *
      omega

/-- What the clock shows for the first time from a transition on is later than what it has shown
since then. -/
theorem showsInOrderFrom (hfooter : footer.IsCalm low) (hlow : -86400 ≤ low ∧ low ≤ 0)
    (h : CalmFrom low footer before t rest) (hyear : InYear instant year)
    (hfrom : t.instant ≤ instant) {later : Int} {laterYear : Nat} (hlater : InYear later laterYear)
    (hlt : instant < later)
    (hfirst : (universalFrom footer later laterYear before t rest).2 = false) :
    instant + (universalFrom footer instant year before t rest).1 <
      later + (universalFrom footer later laterYear before t rest).1 := by
  induction rest generalizing before t with
  | nil =>
    have hafter : ¬ later = t.instant := by omega
    rw [universalFrom_nil, if_neg hafter] at hfirst
    rw [universalFrom_nil, universalFrom_nil, if_neg hafter]
    simp only [Bool.or_eq_false_iff] at hfirst
    by_cases hat : instant = t.instant
    · -- for two days the rule has the offset of the transition; after that no offset matters
      rw [if_pos hat]
      dsimp only
      by_cases hfar : t.instant + 2 * 86400 ≤ later
      · have hwithin := hfooter.within later laterYear
        have hchange := h.1.1
        unfold Within at *
        omega
      · rw [(h.2.near hfooter hlow hlater (by omega) (by omega)).1]
        omega
    · rw [if_neg hat]
      exact Footer.shows_in_order hfooter hlow hyear hlater hlt hfirst.1
  | cons u rest ih =>
    obtain ⟨⟨hchange, -⟩, hspaced, hrest⟩ := h
    rw [universalFrom_cons] at hfirst ⊢
    rw [universalFrom_cons]
    by_cases hlaterNext : later < u.instant
    · rw [if_pos hlaterNext, if_pos (by omega)]
      dsimp only
      omega
    · rw [if_neg hlaterNext] at hfirst ⊢
      by_cases hnext : instant < u.instant
      · -- the next transition lies between them
        rw [if_pos hnext]
        have := transition_le_first hrest hchange (not_lt.mp hlaterNext) hfirst
        dsimp only
        omega
      · rw [if_neg hnext]
        exact ih hrest (not_lt.mp hnext) hfirst

/-- On the last days of the calendar nothing is shown twice. -/
theorem not_again_at_end (hfooter : footer.IsCalm low) (hlow : -86400 ≤ low ∧ low ≤ 0)
    (h : CalmFrom low footer before t rest) (hbefore : Within low before)
    (hyear : InYear instant 9999) (hend : yearStart 10000 - 2 * 86400 ≤ instant) :
    (universalFrom footer instant 9999 before t rest).2 = false := by
  have hlast : yearStart 9999 + 365 * 86400 ≤ yearStart 10000 := yearStart_succ (by decide)
  induction rest generalizing before t with
  | nil =>
    obtain ⟨⟨-, -, hinstant⟩, -⟩ := h
    have hwithin := hfooter.within instant 9999
    rw [universalFrom_nil, if_neg (by omega)]
    simp only [Footer.not_again_of_turn hfooter hlow hyear (.inr hend), Bool.false_or,
      Bool.and_eq_false_iff, decide_eq_false_iff_not]
    unfold Within at *
    omega
  | cons u rest ih =>
    obtain ⟨⟨hchange, -⟩, -, hrest⟩ := h
    obtain ⟨-, -, hinstant⟩ := hrest.change
    rw [universalFrom_cons, if_neg (by omega)]
    exact ih hrest hchange

/-- The offsets at wall times are those of one day, too. -/
theorem within_offsetFrom (hfooter : footer.IsCalm low) (h : CalmFrom low footer before t rest)
    (hbefore : Within low before) (fold : Bool) (wall : Int) :
    Within low (offsetFrom footer fold wall year before (t :: rest)) := by
  induction rest generalizing before t with
  | nil =>
    unfold offsetFrom
    dsimp only
    split
    · exact hbefore
    split
    · exact h.1.1
    · exact hfooter.within_footerOffset fold wall year
  | cons u rest ih =>
    show Within low (if _ then before else offsetFrom _ _ _ _ t.offset (u :: rest))
    split
    · exact hbefore
    · exact ih h.2.2 h.1.1

end

/-! ## Zones -/

/-- Whether a list of transitions is calm. -/
def CalmSince (low : Int) (footer : Footer) (before : Int) : List Transition → Prop
  | [] => True
  | t :: rest => CalmFrom low footer before t rest

instance (low : Int) (footer : Footer) (before : Int) (ts : List Transition) :
    Decidable (CalmSince low footer before ts) := by
  cases ts with
  | nil => exact inferInstanceAs (Decidable True)
  | cons t rest => exact decidableCalmFrom low footer before t rest

/-- Whether a zone is calm; its offsets are those of the day that starts at `low`. -/
structure IsCalm (low : Int) (z : Zone) : Prop where
  bounds : -86400 ≤ low ∧ low ≤ 0
  footer : z.footer.IsCalm low
  initial : Within low z.initial
  transitions : CalmSince low z.footer z.initial z.transitions

instance (low : Int) (z : Zone) : Decidable (z.IsCalm low) :=
  decidable_of_iff ((-86400 ≤ low ∧ low ≤ 0) ∧ z.footer.IsCalm low ∧ Within low z.initial ∧
    CalmSince low z.footer z.initial z.transitions)
    ⟨fun h => ⟨h.1, h.2.1, h.2.2.1, h.2.2.2⟩, fun h => ⟨h.1, h.2, h.3, h.4⟩⟩

theorem ofUniversal_nil {z : Zone} (h : z.transitions = []) (t : WallTime) :
    z.ofUniversal t = footerOfUniversal z.footer (secondOf t) t.year := by
  unfold ofUniversal
  rw [h]
  rfl

theorem ofUniversal_cons {z : Zone} {u : Transition} {rest : List Transition}
    (h : z.transitions = u :: rest) (t : WallTime) :
    z.ofUniversal t =
      if secondOf t < u.instant then (z.initial, false)
      else universalFrom z.footer (secondOf t) t.year z.initial u rest := by
  unfold ofUniversal
  rw [h]
  rfl

/-- The parts of a second do not matter. -/
theorem ofUniversal_congr (z : Zone) {a b : WallTime} (h : secondOf a = secondOf b) :
    z.ofUniversal a = z.ofUniversal b := by
  have ha := inYear_secondOf a
  have hb := inYear_secondOf b
  have hyear : a.year = b.year := le_antisymm (ha.mono hb (le_of_eq h)) (hb.mono ha (le_of_eq h.symm))
  cases hz : z.transitions with
  | nil => rw [ofUniversal_nil hz, ofUniversal_nil hz, h, hyear]
  | cons u rest => rw [ofUniversal_cons hz, ofUniversal_cons hz, h, hyear]

namespace IsCalm

variable {low : Int} {z : Zone} (h : z.IsCalm low)

include h

theorem within_ofUniversal (t : WallTime) : Within low (z.ofUniversal t).1 := by
  have htransitions := h.transitions
  cases hz : z.transitions with
  | nil =>
    rw [ofUniversal_nil hz]
    exact h.footer.within _ _
  | cons u rest =>
    rw [hz] at htransitions
    rw [ofUniversal_cons hz]
    split
    · exact h.initial
    · exact within_universalFrom h.footer htransitions

theorem within_offsetAt (t : WallTime) (fold : Bool) : Within low (z.offsetAt t fold) := by
  have htransitions := h.transitions
  unfold offsetAt
  dsimp only
  cases hz : z.transitions with
  | nil => exact h.footer.within_footerOffset fold _ _
  | cons u rest =>
    rw [hz] at htransitions
    exact within_offsetFrom h.footer htransitions h.initial fold _

/-- The offset at what a calm zone shows is the offset with which it is shown. -/
theorem offsetAt_ofUniversal {t w : WallTime}
    (hw : secondOf w = secondOf t + (z.ofUniversal t).1) :
    z.offsetAt w (z.ofUniversal t).2 = (z.ofUniversal t).1 := by
  have htransitions := h.transitions
  have hyear := inYear_secondOf t
  have hwall := inYear_secondOf w
  rw [hw] at hwall
  show offsetFrom z.footer _ (secondOf w) w.year z.initial z.transitions = _
  rw [hw]
  cases hz : z.transitions with
  | nil =>
    rw [ofUniversal_nil hz] at hwall ⊢
    exact Footer.keeps h.footer h.bounds hyear hwall
  | cons u rest =>
    rw [hz] at htransitions
    rw [ofUniversal_cons hz] at hwall ⊢
    split at hwall
    · next hbefore =>
      rw [if_pos hbefore]
      refine offsetFrom_of_lt ?_
      show secondOf t + z.initial < u.instant + max z.initial u.offset
      omega
    · next hafter =>
      rw [if_neg hafter]
      exact keepsFrom h.footer h.bounds htransitions h.initial hyear (not_lt.mp hafter) hwall

/-- What a calm zone shows for the first time is later than what it has shown. -/
theorem ofUniversal_in_order {a b : WallTime} (hab : secondOf a < secondOf b)
    (hfirst : (z.ofUniversal b).2 = false) :
    secondOf a + (z.ofUniversal a).1 < secondOf b + (z.ofUniversal b).1 := by
  have htransitions := h.transitions
  have ha := inYear_secondOf a
  have hb := inYear_secondOf b
  cases hz : z.transitions with
  | nil =>
    rw [ofUniversal_nil hz] at hfirst ⊢
    rw [ofUniversal_nil hz]
    exact Footer.shows_in_order h.footer h.bounds ha hb hab hfirst
  | cons u rest =>
    rw [hz] at htransitions
    rw [ofUniversal_cons hz] at hfirst ⊢
    rw [ofUniversal_cons hz]
    by_cases hlater : secondOf b < u.instant
    · rw [if_pos hlater, if_pos (by omega)]
      dsimp only
      omega
    rw [if_neg hlater] at hfirst ⊢
    by_cases hfirstSegment : secondOf a < u.instant
    · rw [if_pos hfirstSegment]
      have := transition_le_first htransitions h.initial (not_lt.mp hlater) hfirst
      dsimp only
      omega
    · rw [if_neg hfirstSegment]
      exact showsInOrderFrom h.footer h.bounds htransitions ha (not_lt.mp hfirstSegment) hb hab hfirst

/-- To the microsecond, what a calm zone shows for the first time is not before what it has shown. -/
theorem ticks_in_order {a b : WallTime} (hab : a.ticks ≤ b.ticks)
    (hfirst : (z.ofUniversal b).2 = false) :
    a.ticks + (z.ofUniversal a).1 * Span.second ≤ b.ticks + (z.ofUniversal b).1 * Span.second := by
  have ha := secondOf_eq a
  have hb := secondOf_eq b
  rw [Span.second_eq]
  by_cases hsame : secondOf a = secondOf b
  · rw [ofUniversal_congr z hsame]
    omega
  · have horder := h.ofUniversal_in_order (show secondOf a < secondOf b by omega) hfirst
    omega

/-- On the first and on the last days of the calendar nothing is shown twice. -/
theorem first_at_edge {t : WallTime}
    (hedge : secondOf t < yearStart 1 + 2 * 86400 ∨ yearStart 10000 - 2 * 86400 ≤ secondOf t) :
    (z.ofUniversal t).2 = false := by
  have htransitions := h.transitions
  have hyear := inYear_secondOf t
  have hfirst : yearStart 1 + 365 * 86400 ≤ yearStart 2 := yearStart_succ le_rfl
  have hlast : yearStart 9999 + 365 * 86400 ≤ yearStart 10000 := yearStart_succ (by decide)
  rcases hedge with hedge | hedge
  · -- no transition has come yet
    have hone : t.year = 1 := by
      by_contra hne
      have hpos := hyear.pos
      have := yearStart_mono (x := 2) (y := t.year) (by decide) (by omega)
      have := hyear.start_le
      omega
    cases hz : z.transitions with
    | nil =>
      rw [ofUniversal_nil hz]
      exact Footer.not_again_of_turn h.footer h.bounds hyear (.inl (by rw [hone]; exact hedge))
    | cons u rest =>
      rw [hz] at htransitions
      have := (CalmFrom.change htransitions).2.1
      rw [ofUniversal_cons hz, if_pos (by omega)]
  · -- the last transition is over
    have hnine : t.year = 9999 := by
      have hpos := hyear.pos
      have hstart := hyear.start_le
      have hend := hyear.lt_end
      have hcalendar := secondOf_lt t
      rcases Nat.lt_trichotomy t.year 9999 with hlt | heq | hlt
      · have := yearStart_mono (x := t.year + 1) (y := 9999) (by omega) (by omega)
        omega
      · exact heq
      · have := yearStart_mono (x := 10000) (y := t.year) (by decide) (by omega)
        omega
    cases hz : z.transitions with
    | nil =>
      rw [ofUniversal_nil hz]
      exact Footer.not_again_of_turn h.footer h.bounds hyear (.inr (by rw [hnine]; exact hedge))
    | cons u rest =>
      rw [hz] at htransitions
      have := (CalmFrom.change htransitions).2.2
      rw [hnine] at hyear
      rw [ofUniversal_cons hz, if_neg (by omega), hnine]
      exact not_again_at_end h.footer h.bounds htransitions h.initial hyear hedge

end IsCalm

end Zone

/-! ## Clocks -/

namespace Moment

/-- What the clock of a zone shows at a universal time. -/
theorem on?_zoned {z : Zone} {t : WallTime} {m : Moment} :
    (universal t).on? (.zoned z) = some m ↔
      m.clock = .zoned z ∧ m.fold = (z.ofUniversal t).2 ∧
        m.wall.ticks = t.ticks + (z.ofUniversal t).1 * Span.second := by
  rw [on?_universal]
  unfold ofUniversal? WallTime.add?
  dsimp only
  constructor
  · intro h
    obtain ⟨w, hw, rfl⟩ := Option.map_eq_some_iff.mp h
    exact ⟨rfl, rfl, WallTime.ticks_of_ofTicks? hw⟩
  · rintro ⟨hclock, hfold, hwall⟩
    refine Option.map_eq_some_iff.mpr ⟨m.wall, WallTime.ofTicks?_eq_some_iff.mpr hwall, ?_⟩
    rw [← hclock, ← hfold]

end Moment

namespace Zone

/-- The seconds of what is shown. -/
theorem secondOf_shown {t w : WallTime} {offset : Int}
    (h : w.ticks = t.ticks + offset * Span.second) : secondOf w = secondOf t + offset := by
  rw [secondOf_eq, secondOf_eq, h, Span.second_eq]
  omega

namespace IsCalm

variable {low : Int} {z : Zone} (h : z.IsCalm low)

include h

/-- The clock of a calm zone keeps the instants of what it shows. -/
theorem keepsInstants : (Clock.zoned z).KeepsInstants := by
  intro t m hm
  obtain ⟨hclock, hfold, hwall⟩ := Moment.on?_zoned.mp hm
  have hoffset : m.offset = (z.ofUniversal t).1 := by
    unfold Moment.offset Moment.offsetWith
    rw [hclock, hfold]
    exact h.offsetAt_ofUniversal (secondOf_shown hwall)
  unfold Moment.instant
  rw [hoffset, hwall]
  omega

/-- A moment that it shows without fold it shows for the first time. -/
theorem isShownFirst {t : WallTime} {m : Moment}
    (hm : (Moment.universal t).on? (.zoned z) = some m) (hfold : m.fold = false) : m.IsShownFirst := by
  refine ⟨hfold, t, (h.keepsInstants t m hm).symm, ?_⟩
  rw [(Moment.on?_zoned.mp hm).1]
  exact hm

/-- What it shows for the first time is not before what it has shown. -/
theorem showsInOrder : (Clock.zoned z).ShowsInOrder := by
  intro a b m n hm hn hab hfirst
  obtain ⟨-, -, hwall⟩ := Moment.on?_zoned.mp hm
  obtain ⟨-, hfold, hwall'⟩ := Moment.on?_zoned.mp hn
  rw [hfold] at hfirst
  rw [hwall, hwall']
  exact h.ticks_in_order hab hfirst

/-- It leaves out no time between two times that it shows within the calendar. -/
theorem isUnbroken : (Clock.zoned z).IsUnbroken := by
  intro a b c hab hbc ha hc
  obtain ⟨a, rfl, ha⟩ := ha
  obtain ⟨c, rfl, hc⟩ := hc
  obtain ⟨m, hm⟩ := Option.isSome_iff_exists.mp ha
  obtain ⟨n, hn⟩ := Option.isSome_iff_exists.mp hc
  have hnonneg := a.nonneg
  have hend := c.inCalendar
  obtain ⟨b, rfl⟩ : ∃ u : WallTime, u.ticks = b := ⟨⟨b, by omega, by omega⟩, rfl⟩
  have hwithin := h.within_ofUniversal b
  have hbounds := h.bounds
  have hfrom := m.wall.nonneg
  have hto := n.wall.inCalendar
  rw [(Moment.on?_zoned.mp hm).2.2] at hfrom
  rw [(Moment.on?_zoned.mp hn).2.2] at hto
  have hsecond := secondOf_eq b
  have hsecond' := secondOf_eq c
  have hcalendar : yearStart 10000 = (Calendar.dayCount : Int) * 86400 - epochSeconds := rfl
  have hzero : yearStart 1 = -epochSeconds := rfl
  -- only on the first and on the last days could the offset lead out of the calendar
  have hlow : 0 ≤ b.ticks + (z.ofUniversal b).1 * Span.second := by
    by_cases hedge : secondOf b < yearStart 1 + 2 * 86400
    · exact hfrom.trans (h.ticks_in_order hab (h.first_at_edge (.inl hedge)))
    · unfold Within at hwithin
      rw [Span.second_eq]
      omega
  have hhigh : b.ticks + (z.ofUniversal b).1 * Span.second < (Calendar.dayCount : Int) * Span.day := by
    by_cases hedge : yearStart 10000 - 2 * 86400 ≤ secondOf b
    · exact lt_of_le_of_lt (h.ticks_in_order hbc (h.first_at_edge (.inr (by omega)))) hto
    · unfold Within at hwithin
      rw [Span.second_eq, Span.day_eq]
      omega
  refine ⟨b, rfl, Option.isSome_iff_exists.mpr ⟨⟨⟨_, hlow, hhigh⟩, .zoned z, (z.ofUniversal b).2⟩, ?_⟩⟩
  exact Moment.on?_zoned.mpr ⟨rfl, rfl, rfl⟩

/-- It separates the days. -/
theorem separatesDays : (Clock.zoned z).SeparatesDays := by
  intro a b hab
  have ha := h.within_offsetAt a false
  have hb := h.within_offsetAt b false
  show a.ticks - z.offsetAt a false * Span.second < b.ticks - z.offsetAt b false * Span.second
  unfold Within at ha hb
  rw [Span.day_eq] at hab
  rw [Span.second_eq]
  omega

end IsCalm

/-! ## The zones of the database -/

theorem isCalm_europeBerlin : Table.europeBerlin.IsCalm 0 := by
  decide +kernel

/-- The zones of the database are calm, except those that a date line has passed, one that sets its
clock twice in a second and one that has switched a minute after midnight. -/
theorem isCalm_of_mem_table {z : Zone} (hz : z ∈ table)
    (hname : z.name ∉ ["Europe/London", "America/St_Johns", "Pacific/Apia", "Pacific/Kiritimati"]) :
    z.IsCalm 0 ∨ z.IsCalm (-86400) := by
  have hall : (table.all fun z => ["Europe/London", "America/St_Johns", "Pacific/Apia",
      "Pacific/Kiritimati"].contains z.name || decide (z.IsCalm 0) || decide (z.IsCalm (-86400))) =
        true := by
    decide +kernel
  have hz := List.all_eq_true.mp hall z hz
  simpa [hname, or_assoc] using hz

end Zone

end ScanPolicy
