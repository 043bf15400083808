import Mathlib.Data.List.Forall2
import ScanPolicy.Proofs.Moment.Utc
import ScanPolicy.Proofs.Moment.Comparison
import ScanPolicy.Proofs.Outcome
import ScanPolicy.Zone.Table.Fixed

/-!
# The zone `UTC` and the universal clock

Moments in the zone `UTC` are on a clock of their own. They compare with other moments by another rule
than those of the universal clock do, on the wall where these compare by instants and the other way
round, but to the same effect.

- `Clock.Alike`, `Moment.Alike`: clocks and moments that are the same but for the name of universal time.
- `Moment.Alike.since_eq`, `Moment.Alike.same_eq`: such moments compare alike.
- `Moment.Alike.add?`, `Moment.Alike.on?`: they stay alike in every movement.
- `Moment.isIn_alike`, `Moment.distinct_alike`, `Moment.sort_alike`: so do lists of them.
-/

namespace ScanPolicy

/-! ## Clocks -/

namespace Clock

/-- The clock of the zone `UTC`. -/
def namedUtc : Clock := .zoned Zone.Table.utcNamed

/-- The universal clock, or the clock of the zone `UTC`. -/
def IsEitherUtc (c : Clock) : Prop := c = .universal ∨ c = namedUtc

/-- A clock that is the same as neither of the two. -/
structure IsForeign (c : Clock) : Prop where
  universal : c.same .universal = false
  named : c.same namedUtc = false

/-- Clocks that are the same but for the name of universal time. -/
inductive Alike : Clock → Clock → Prop
  | utc {c c' : Clock} (h : c.IsEitherUtc) (h' : c'.IsEitherUtc) : Alike c c'
  | foreign {c : Clock} (h : c.IsForeign) : Alike c c

variable {c c' : Clock}

theorem IsEitherUtc.isUtc (h : c.IsEitherUtc) : c.IsUtc := by
  rcases h with rfl | rfl
  · trivial
  · exact ⟨rfl, rfl, rfl⟩

theorem IsEitherUtc.eq_of_same (h : c.IsEitherUtc) (h' : c'.IsEitherUtc) (hsame : c.same c' = true) :
    c = c' := by
  rcases h with rfl | rfl <;> rcases h' with rfl | rfl <;> first | rfl | cases hsame

theorem IsForeign.not_same (h : c.IsForeign) (h' : c'.IsEitherUtc) : c.same c' = false := by
  rcases h' with rfl | rfl
  · exact h.universal
  · exact h.named

theorem IsForeign.not_same' (h : c.IsForeign) (h' : c'.IsEitherUtc) : c'.same c = false := by
  rw [same_comm]
  exact h.not_same h'

/-- A clock that is known by its name is alike itself. -/
theorem alike_self (h : c.same namedUtc = true → c = namedUtc) : Alike c c := by
  cases hnamed : c.same namedUtc with
  | true => exact .utc (.inr (h hnamed)) (.inr (h hnamed))
  | false =>
    cases c with
    | universal => exact .utc (.inl rfl) (.inl rfl)
    | zoned z => exact .foreign ⟨rfl, hnamed⟩

theorem alike_universal : Alike .universal .universal := .utc (.inl rfl) (.inl rfl)

end Clock

/-! ## Moments -/

namespace Moment

/-- Moments that are the same but for the name of universal time. -/
inductive Alike : Moment → Moment → Prop
  | utc (t : WallTime) {c c' : Clock} (h : c.IsEitherUtc) (h' : c'.IsEitherUtc) :
      Alike ⟨t, c, false⟩ ⟨t, c', false⟩
  | foreign {m : Moment} (h : m.clock.IsForeign) : Alike m m

/-- A reading of alike clocks. -/
theorem alike_of_clock (t : WallTime) {c c' : Clock} (h : c.Alike c') :
    Alike ⟨t, c, false⟩ ⟨t, c', false⟩ := by
  cases h with
  | utc h h' => exact .utc t h h'
  | foreign h => exact .foreign h

/-- In universal time the wall tells what is the same. -/
theorem same_utc {a b : Moment} (ha : a.clock.IsUtc) (hb : b.clock.IsUtc) :
    a.same b = (a.wall.ticks == b.wall.ticks) := by
  unfold same
  split
  · rfl
  · unfold isProblematic
    rw [instant_utc ha, instant_utc hb, offsetWith_utc ha, offsetWith_utc ha, offsetWith_utc hb,
      offsetWith_utc hb]
    simp

theorem alike_universal (t : WallTime) : Alike (universal t) (universal t) := .utc t (.inl rfl) (.inl rfl)

namespace Alike

variable {a a' b b' : Moment}

theorem wall_eq (h : Alike a a') : a.wall = a'.wall := by
  cases h <;> rfl

theorem clock (h : Alike a a') : a.clock.Alike a'.clock := by
  cases h with
  | utc _ h h' => exact .utc h h'
  | foreign h => exact .foreign h

theorem offsetWith_eq (h : Alike a a') (fold : Bool) : a.offsetWith fold = a'.offsetWith fold := by
  cases h with
  | utc _ h h' => rw [offsetWith_utc h.isUtc, offsetWith_utc h'.isUtc]
  | foreign h => rfl

theorem instant_eq (h : Alike a a') : a.instant = a'.instant := by
  cases h with
  | utc _ h h' => rw [instant_utc h.isUtc, instant_utc h'.isUtc]
  | foreign h => rfl

theorem isProblematic_eq (h : Alike a a') : a.isProblematic = a'.isProblematic := by
  unfold isProblematic
  rw [h.offsetWith_eq, h.offsetWith_eq]

/-- Two pairs of alike moments are all in universal time, or neither pair has a common clock, or they are
one pair. -/
theorem pair_cases (ha : Alike a a') (hb : Alike b b') :
    ((a.clock.IsUtc ∧ b.clock.IsUtc) ∧ a'.clock.IsUtc ∧ b'.clock.IsUtc) ∨
    (a.clock.same b.clock = false ∧ a'.clock.same b'.clock = false) ∨ (a = a' ∧ b = b') := by
  cases ha with
  | utc t ha ha' =>
    cases hb with
    | utc t' hb hb' => exact .inl ⟨⟨ha.isUtc, hb.isUtc⟩, ha'.isUtc, hb'.isUtc⟩
    | foreign hb => exact .inr (.inl ⟨hb.not_same' ha, hb.not_same' ha'⟩)
  | foreign ha =>
    cases hb with
    | utc t' hb hb' => exact .inr (.inl ⟨ha.not_same hb, ha.not_same hb'⟩)
    | foreign hb => exact .inr (.inr ⟨rfl, rfl⟩)

/-- The span between two moments does not depend on the name of universal time. -/
theorem since_eq (ha : Alike a a') (hb : Alike b b') : a.since b = a'.since b' := by
  obtain ⟨⟨ua, ub⟩, ua', ub'⟩ | ⟨hclocks, hclocks'⟩ | ⟨rfl, rfl⟩ := pair_cases ha hb
  · rw [since_utc ua ub, since_utc ua' ub', ha.wall_eq, hb.wall_eq]
  · rw [since_of_not_same hclocks, since_of_not_same hclocks', ha.instant_eq, hb.instant_eq]
  · rfl

theorem before_eq (ha : Alike a a') (hb : Alike b b') : a.before b = a'.before b' := by
  unfold before
  rw [ha.since_eq hb]

theorem notAfter_eq (ha : Alike a a') (hb : Alike b b') : a.notAfter b = a'.notAfter b' := by
  unfold notAfter
  rw [ha.since_eq hb]

/-- Neither does it matter for whether they are the same. -/
theorem same_eq (ha : Alike a a') (hb : Alike b b') : a.same b = a'.same b' := by
  obtain ⟨⟨ua, ub⟩, ua', ub'⟩ | ⟨hclocks, hclocks'⟩ | ⟨rfl, rfl⟩ := pair_cases ha hb
  · rw [same_utc ua ub, same_utc ua' ub', ha.wall_eq, hb.wall_eq]
  · unfold same
    rw [if_neg (Bool.eq_false_iff.mp hclocks), if_neg (Bool.eq_false_iff.mp hclocks'), ha.instant_eq,
      hb.instant_eq, ha.isProblematic_eq, hb.isProblematic_eq]
  · rfl

theorem coincides_eq (ha : Alike a a') (hb : Alike b b') : a.coincides b = a'.coincides b' := by
  unfold coincides firstInstant
  rw [ha.same_eq hb, ha.wall_eq, hb.wall_eq, ha.offsetWith_eq, hb.offsetWith_eq]

/-! ## Movement -/

theorem add? (h : Alike a a') (span : Int) : Option.Rel Alike (a.add? span) (a'.add? span) := by
  unfold Moment.add?
  rw [h.wall_eq]
  cases a'.wall.add? span with
  | none => exact .none
  | some t => exact .some (alike_of_clock t h.clock)

end Alike

/-- A reading of universal time on a clock. -/
theorem ofUniversal?_alike (t : WallTime) {c c' : Clock} (h : c.Alike c') :
    Option.Rel Alike (ofUniversal? c t) (ofUniversal? c' t) := by
  cases h with
  | utc h h' =>
    rw [← on?_universal, ← on?_universal, on?_utc h.isUtc, on?_utc h'.isUtc]
    exact .some (.utc t h h')
  | foreign h =>
    cases c with
    | universal => exact .some (.foreign h)
    | zoned z =>
      unfold ofUniversal?
      dsimp only
      cases t.add? ((z.ofUniversal t).1 * Span.second) with
      | none => exact .none
      | some w => exact .some (.foreign h)

/-- A conversion between the two clocks of universal time keeps the wall. -/
theorem on?_eitherUtc (t : WallTime) {c c' : Clock} (h : c.IsEitherUtc) (h' : c'.IsEitherUtc) :
    (⟨t, c, false⟩ : Moment).on? c' = some ⟨t, c', false⟩ := by
  have hinstant : (⟨t, c, false⟩ : Moment).instant = t.ticks := instant_utc (m := ⟨t, c, false⟩) h.isUtc
  unfold on?
  split
  · next hsame => rw [h.eq_of_same h' hsame]
  · rw [hinstant, WallTime.ofTicks?_ticks, Option.bind_some, ← on?_universal, on?_utc h'.isUtc]

theorem on?_of_not_same {m : Moment} {c : Clock} (h : m.clock.same c = false) :
    m.on? c = (WallTime.ofTicks? m.instant).bind (ofUniversal? c) := by
  unfold on?
  rw [if_neg (Bool.eq_false_iff.mp h)]

theorem Alike.on? {m m' : Moment} (h : Alike m m') {c c' : Clock} (hc : c.Alike c') :
    Option.Rel Alike (m.on? c) (m'.on? c') := by
  have hthrough : Option.Rel Alike ((WallTime.ofTicks? m.instant).bind (ofUniversal? c))
      ((WallTime.ofTicks? m'.instant).bind (ofUniversal? c')) := by
    rw [h.instant_eq]
    cases WallTime.ofTicks? m'.instant with
    | none => exact .none
    | some t => exact ofUniversal?_alike t hc
  cases h with
  | utc t h h' =>
    cases hc with
    | utc hc hc' =>
      rw [on?_eitherUtc t h hc, on?_eitherUtc t h' hc']
      exact .some (.utc t hc hc')
    | foreign hc =>
      rw [on?_of_not_same (hc.not_same' h), on?_of_not_same (hc.not_same' h')]
      exact hthrough
  | foreign h =>
    cases hc with
    | utc hc hc' =>
      rw [on?_of_not_same (h.not_same hc), on?_of_not_same (h.not_same hc')]
      exact hthrough
    | foreign hc =>
      unfold Moment.on?
      split
      · exact .some (.foreign h)
      · exact hthrough

/-- On the universal clock, moments that are alike are one. -/
theorem Alike.universal?_eq {m m' : Moment} (h : Alike m m') : m.universal? = m'.universal? := by
  cases h with
  | utc t h h' =>
    unfold universal?
    rw [on?_eitherUtc t h (.inl rfl), on?_eitherUtc t h' (.inl rfl)]
  | foreign h => rfl

/-! ## Lists -/

theorem isIn_alike {m m' : Moment} (h : Alike m m') {ms ms' : List Moment}
    (hms : List.Forall₂ Alike ms ms') : m.isIn ms = m'.isIn ms' := by
  induction hms with
  | nil => rfl
  | cons hx _ ih =>
    unfold isIn at ih ⊢
    rw [List.any_cons, List.any_cons, h.coincides_eq hx, ih]

theorem distinct_alike {ms ms' : List Moment} (h : List.Forall₂ Alike ms ms') :
    List.Forall₂ Alike (distinct ms) (distinct ms') := by
  unfold distinct
  refine List.rel_foldl (P := List.Forall₂ Alike) (fun seen seen' hseen m m' hm => ?_) .nil h
  rw [isIn_alike hm hseen]
  split
  · exact hseen
  · exact .cons hm hseen

/-- Lists that are related one by one are so after a sort by orders that agree on what is related. -/
theorem forall₂_mergeSort {α β : Type} {R : α → β → Prop} {le : α → α → Bool} {le' : β → β → Bool}
    (hle : ∀ a a' b b', R a b → R a' b' → le a a' = le' b b') {as : List α} {bs : List β}
    (h : List.Forall₂ R as bs) : List.Forall₂ R (as.mergeSort le) (bs.mergeSort le') := by
  -- both lists are sorted as the list of the pairs is
  have hlength := h.length_eq
  have hpair : ∀ p ∈ as.zip bs, R p.1 p.2 := fun p hp => List.forall₂_zip h hp
  have hfirst : as.mergeSort le = ((as.zip bs).mergeSort fun p q => le p.1 q.1).map Prod.fst := by
    refine .trans ?_ (List.map_mergeSort (s := le) fun _ _ _ _ => rfl).symm
    rw [List.map_fst_zip hlength.le]
  have hsecond : bs.mergeSort le' = ((as.zip bs).mergeSort fun p q => le p.1 q.1).map Prod.snd := by
    refine .trans ?_ (List.map_mergeSort (s := le') fun p hp q hq =>
      hle _ _ _ _ (hpair p hp) (hpair q hq)).symm
    rw [List.map_snd_zip hlength.ge]
  rw [hfirst, hsecond, List.forall₂_map_left_iff, List.forall₂_map_right_iff, List.forall₂_same]
  exact fun p hp => hpair p (List.mem_mergeSort.mp hp)

theorem sort_alike {ms ms' : List Moment} (h : List.Forall₂ Alike ms ms') :
    List.Forall₂ Alike (sort ms) (sort ms') :=
  forall₂_mergeSort (fun _ _ _ _ ha hb => by rw [hb.before_eq ha]) h

end Moment

end ScanPolicy
