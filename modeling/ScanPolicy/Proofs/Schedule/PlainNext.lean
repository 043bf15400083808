import ScanPolicy.Schedule.Next
import ScanPolicy.Proofs.Outcome
import ScanPolicy.Proofs.Recurrence.Increasing
import ScanPolicy.Proofs.Schedule.Enumeration
import ScanPolicy.Proofs.Schedule.PlainDates

/-!
# The further dates of a plain rule in universal time

The dates of a plain rule are found by their numbers: an estimate is moved to
the first number after a moment, and from there on the numbers of the excluded
dates are passed over.

- `Plain.firstIndexAfter_spec`: the first number after a moment.
- `Plain.mem_excludedIndices`: which numbers are excluded.
- `Component.points`: the dates of a component, as a set.
- `Source.plainNth_spec`: the further dates of a plain rule are those of the set.
-/

namespace ScanPolicy

namespace Plain

variable {start : WallTime} {c : Component} {f : Frequency}

/-- A date that the calendar has is found by its number. -/
theorem occurrence_eq (hf : c.freq = some f) {index : Nat}
    (h : point start f c.interval index < WallTime.calendarEnd) :
    ∃ t : WallTime, t.ticks = point start f c.interval index ∧
      occurrence (Moment.universal start) c index = .ok (Moment.universal t) := by
  rcases isAt_occurrence start hf index with hok | ⟨hend, -⟩
  · exact hok
  · exact absurd h (not_lt.mpr hend)

/-! ## The first number after a moment -/

theorem descend_eq (hf : c.freq = some f) {now : WallTime} {n : Nat}
    (h : ∀ i < n, point start f c.interval i ≤ now.ticks) :
    descend (Moment.universal start) c (Moment.universal now) n = .ok n := by
  cases n with
  | zero => rfl
  | succ n =>
    have hn := h n (Nat.lt_succ_self n)
    obtain ⟨t, ht, ho⟩ := occurrence_eq hf (lt_of_le_of_lt hn now.inCalendar)
    unfold descend
    rw [ho]
    simp only [Moment.before_universal, decide_eq_true_eq]
    rw [if_neg (by omega)]

/-- What going up to the number `first` gives. -/
def Arrives (start : WallTime) (c : Component) (f : Frequency) (first : Nat)
    (x : Except Fault Nat) : Prop :=
  if point start f c.interval first < WallTime.calendarEnd then x = .ok first
  else ∃ e : Fault, e.endsSearch ∧ x = .error e

theorem ascend_arrives (hf : c.freq = some f) {now : WallTime} {first : Nat}
    (hfirst : ∀ i, now.ticks < point start f c.interval i ↔ first ≤ i) {fuel n : Nat}
    (hn : n ≤ first) (hfuel : first < n + fuel) :
    Arrives start c f first
      (ascend (Moment.universal start) c (Moment.universal now) fuel n) := by
  induction fuel generalizing n with
  | zero => omega
  | succ fuel ih =>
    unfold ascend
    rcases Nat.eq_or_lt_of_le hn with rfl | hlt
    · have hnow := (hfirst n).mpr le_rfl
      unfold Arrives
      rcases isAt_occurrence start hf n with ⟨t, ht, ho⟩ | ⟨hend, e, he, ho⟩
      · rw [if_pos (ht ▸ t.inCalendar), ho]
        simp only [Moment.notAfter_universal, decide_eq_true_eq]
        rw [if_neg (by omega)]
      · rw [if_neg (not_lt.mpr hend), ho]
        exact ⟨e, he, rfl⟩
    · have hle : point start f c.interval n ≤ now.ticks :=
        not_lt.mp fun h => absurd ((hfirst n).mp h) (not_le.mpr hlt)
      obtain ⟨t, ht, ho⟩ := occurrence_eq hf (lt_of_le_of_lt hle now.inCalendar)
      rw [ho]
      simp only [Moment.notAfter_universal, decide_eq_true_eq]
      rw [if_pos (by omega)]
      exact ih hlt (by omega)

/-- The first number after a moment is found if the calendar has its date;
otherwise the search ends. -/
theorem firstIndexAfter_spec (start : WallTime) (hf : c.freq = some f) (hinterval : 0 < c.interval)
    (hspan : HasSpan f c.interval) (now : WallTime) :
    ∃ first, (∀ i, now.ticks < point start f c.interval i ↔ first ≤ i) ∧
      Arrives start c f first
        (firstIndexAfter (Moment.universal start) c (Moment.universal now)) := by
  have hlate : now.ticks < point start f c.interval (1440 * Calendar.dayCount) :=
    lt_of_lt_of_le now.inCalendar (calendarEnd_le_point start f hinterval le_rfl)
  obtain ⟨first, hbound, hpassed⟩ := exists_lt_iff
    (fun i j hij h => (point_mono start f hinterval hij).trans h) (not_le.mpr hlate)
  have hfirst : ∀ i, now.ticks < point start f c.interval i ↔ first ≤ i := fun i => by
    rw [← not_le, ← hpassed, not_lt]
  refine ⟨first, hfirst, ?_⟩
  obtain ⟨elapsed, helapsed, hestimate⟩ := elapsedPeriods_spec start hinterval hspan now
  have hle : elapsed.toNat ≤ first := by
    by_contra hlt
    exact lt_irrefl first ((hpassed first).mpr (hestimate first (not_le.mp hlt)))
  unfold firstIndexAfter
  rw [hf]
  show Arrives start c f _ (elapsedPeriods _ c f _ >>= fun estimate =>
    descend _ c _ estimate.toNat >>= fun index => ascend _ c _ horizon index)
  rw [helapsed]
  show Arrives start c f _ (descend _ c _ elapsed.toNat >>= fun index => ascend _ c _ horizon index)
  rw [descend_eq hf hestimate]
  exact ascend_arrives hf hfirst hle (by unfold horizon; omega)

/-! ## Excluded dates -/

/-- The steps of finding the number of an excluded date. -/
theorem excludedIndex_eq {start date before o : Moment} {first : Nat}
    (hbefore : date.add? (-1) = some before) (hfirst : firstIndexAfter start c before = .ok first)
    (ho : occurrence start c first = .ok o) :
    excludedIndex start c date = .ok (if o.same date then some first else none) := by
  unfold excludedIndex
  rw [hbefore]
  show (firstIndexAfter start c before >>= _) = _
  rw [hfirst]
  show (occurrence start c first >>= _) = _
  rw [ho]
  rfl

/-- An excluded date removes the first number whose date is after the moment just before it, if that is
its date. -/
theorem exists_of_excludedIndex {start date : Moment} {index : Nat}
    (h : excludedIndex start c date = .ok (some index)) : ∃ before o, date.add? (-1) = some before ∧
      firstIndexAfter start c before = .ok index ∧ occurrence start c index = .ok o ∧ o.same date := by
  unfold excludedIndex at h
  obtain ⟨before, hbefore, h⟩ := bind_eq_ok_iff.mp h
  obtain ⟨first, hfirst, h⟩ := bind_eq_ok_iff.mp h
  obtain ⟨o, ho, h⟩ := bind_eq_ok_iff.mp h
  split at h
  · next hsame =>
    cases h
    exact ⟨before, o, some_of_within hbefore, hfirst, ho, hsame⟩
  · cases h

/-- The moment just before a date. -/
theorem exists_just_before {date : WallTime} (hdate : 0 < date.ticks) :
    ∃ before : WallTime, (Moment.universal date).add? (-1) = some (Moment.universal before) ∧
      before.ticks = date.ticks - 1 := by
  obtain ⟨before, hbefore, hticks⟩ := WallTime.ofTicks?_isSome (n := date.ticks + -1) (by omega)
    (by have := date.inCalendar; omega)
  refine ⟨before, ?_, hticks⟩
  rw [Moment.add?_universal, WallTime.add?, hbefore]
  rfl

/-- An excluded date removes the number whose date it is. -/
theorem excludedIndex_eq_iff (start : WallTime) (hf : c.freq = some f) (hinterval : 0 < c.interval)
    (hspan : HasSpan f c.interval) {date : WallTime} (hdate : 0 < date.ticks) (index : Nat) :
    excludedIndex (Moment.universal start) c (Moment.universal date) = .ok (some index) ↔
      point start f c.interval index = date.ticks := by
  obtain ⟨before, hadd, hticks⟩ := exists_just_before hdate
  obtain ⟨first, hfirst, harrives⟩ :=
    firstIndexAfter_spec start hf hinterval hspan before
  by_cases hend : point start f c.interval first < WallTime.calendarEnd
  · obtain ⟨t, ht, ho⟩ := occurrence_eq hf hend
    rw [Arrives, if_pos hend] at harrives
    rw [excludedIndex_eq hadd harrives ho]
    simp only [Moment.same_universal, decide_eq_true_eq]
    have hnow := (hfirst first).mpr le_rfl
    constructor
    · intro h
      split at h
      · next heq =>
        cases h
        omega
      · cases h
    · intro hindex
      have hle : first ≤ index := (hfirst index).mp (by omega)
      have hle' : index ≤ first := by
        by_contra hlt
        have := point_strictMono start f hinterval (not_le.mp hlt)
        omega
      obtain rfl : first = index := le_antisymm hle hle'
      rw [if_pos (by omega)]
  · rw [Arrives, if_neg hend] at harrives
    obtain ⟨e, -, harrives⟩ := harrives
    refine ⟨fun h => ?_, fun hindex => ?_⟩
    · obtain ⟨b, o, hb, hfound, -⟩ := exists_of_excludedIndex h
      obtain rfl : Moment.universal before = b := Option.some.inj (hadd.symm.trans hb)
      rw [harrives] at hfound
      cases hfound
    · have hle : first ≤ index := (hfirst index).mp (by omega)
      have := point_mono start f hinterval hle
      have := date.inCalendar
      unfold WallTime.calendarEnd at hend
      omega

/-- An excluded number is the number of an excluded date that is not before the
start. -/
theorem mem_excludedIndices_iff {d : Descriptor} {index : Nat} :
    index ∈ excludedIndices d c ↔
      ∃ m ∈ d.excluded, ¬ m.before d.start ∧ excludedIndex d.start c m = .ok (some index) := by
  show index ∈ Rule.increasing _ _ ↔ _
  rw [Rule.mem_increasing, List.mem_filterMap]
  constructor
  · rintro ⟨m, hm, h⟩
    obtain ⟨hm, hstart⟩ := List.mem_filter.mp hm
    refine ⟨m, hm, by simpa using hstart, ?_⟩
    cases hindex : excludedIndex d.start c m with
    | error e => simp [hindex] at h
    | ok o =>
      rw [hindex] at h
      exact congrArg Except.ok h
  · rintro ⟨m, hm, hstart, h⟩
    exact ⟨m, List.mem_filter.mpr ⟨hm, by simpa using hstart⟩, by rw [h]⟩

/-- The excluded numbers are those of the excluded dates; an excluded date at the
first moment of the calendar has nothing before it and removes nothing. -/
theorem mem_excludedIndices {d : Descriptor} (hstart : d.start = Moment.universal start)
    (hexcluded : ∀ m ∈ d.excluded, m.IsUniversal)
    (hf : c.freq = some f) (hinterval : 0 < c.interval) (hspan : HasSpan f c.interval)
    {index : Nat} (hindex : 0 < point start f c.interval index) :
    index ∈ excludedIndices d c ↔
      ∃ e ∈ d.excluded, e.wall.ticks = point start f c.interval index := by
  rw [mem_excludedIndices_iff, hstart]
  constructor
  · rintro ⟨m, hm, -, h⟩
    rw [show m = _ from hexcluded m hm] at h
    by_cases hpos : 0 < m.wall.ticks
    · exact ⟨m, hm, ((excludedIndex_eq_iff start hf hinterval hspan hpos index).mp h).symm⟩
    · -- the moment before the calendar is not there
      have hnone : (Moment.universal m.wall).add? (-1) = none := by
        rw [Moment.add?_universal, WallTime.add?, WallTime.ofTicks?_eq_none_iff.mpr (.inl (by omega))]
        rfl
      obtain ⟨b, o, hb, -⟩ := exists_of_excludedIndex h
      rw [hnone] at hb
      cases hb
  · rintro ⟨e, he, hticks⟩
    have hpoint := start_le_point start f hinterval index
    refine ⟨e, he, ?_, ?_⟩
    · rw [show e = _ from hexcluded e he]
      simp only [Moment.before_universal, decide_eq_true_eq]
      omega
    · rw [show e = _ from hexcluded e he]
      exact (excludedIndex_eq_iff start hf hinterval hspan (by omega) index).mpr hticks.symm

theorem excludedIndices_pairwise (d : Descriptor) (c : Component) :
    (excludedIndices d c).Pairwise (· < ·) := Rule.increasing_nat _

end Plain

/-! ## The dates of a component -/

/-- Whether a component has the date with a number at a point of time: the
calendar, the count and the last moment all reach so far. -/
structure Component.Has (c : Component) (index : Nat) (point : Int) : Prop where
  inCalendar : point < WallTime.calendarEnd
  inCount : ∀ n ∈ c.count, index < n
  inBound : ∀ u ∈ c.bound, point ≤ u.wall.ticks

/-- The dates that a component has are those with the first numbers. -/
theorem Component.exists_length (start : WallTime) (c : Component) (f : Frequency)
    (hinterval : 0 < c.interval) :
    ∃ n, ∀ i, i < n ↔ c.Has i (Plain.point start f c.interval i) := by
  have hsmaller : ∀ i j, i ≤ j → c.Has j (Plain.point start f c.interval j) →
      c.Has i (Plain.point start f c.interval i) := by
    intro i j hij h
    have hpoint := Plain.point_mono start f hinterval hij
    exact ⟨lt_of_le_of_lt hpoint h.inCalendar, fun n hn => lt_of_le_of_lt hij (h.inCount n hn),
      fun u hu => le_trans hpoint (h.inBound u hu)⟩
  obtain ⟨n, -, hn⟩ := exists_lt_iff hsmaller fun h =>
    absurd h.inCalendar (not_lt.mpr (Plain.calendarEnd_le_point start f hinterval le_rfl))
  exact ⟨n, hn⟩

/-- The dates of a component of a schedule in universal time without the
excluded ones. A component without a frequency has the start only. -/
def Component.points (d : Descriptor) (c : Component) : Set Int :=
  {t | (∃ index, (match c.freq with
      | none => index = 0 ∧ t = d.start.wall.ticks
      | some f => t = Plain.point d.start.wall f c.interval index) ∧ c.Has index t) ∧
    ∀ e ∈ d.excluded, e.wall.ticks ≠ t}

namespace Source

open Plain

/-- A rule without expanding parts is a plain rule. -/
theorem nthAfter_plain {d : Descriptor} {c : Component} (h : c.expanders = []) (now : Moment) (k : Nat) :
    (Source.rule c).nthAfter d now k = orNone (plainNth d c now k) := by
  unfold nthAfter
  simp only [h]

/-- A rule with expanding parts is walked. -/
theorem nthAfter_expanded {d : Descriptor} {c : Component} {rules : Rules} (h : c.expanders ≠ [])
    (hrules : c.rules = some rules) (now : Moment) (k : Nat) :
    (Source.rule c).nthAfter d now k = orNone (expandedNth d c rules now k) := by
  unfold nthAfter
  cases he : c.expanders with
  | nil => exact absurd he h
  | cons e rest => simp only [he, hrules]

/-- A counted rule is not moved. -/
theorem anchored_of_count {start : Moment} {c : Component} {n : Nat} (h : c.count = some n)
    (rules : Rules) (now : Moment) : anchored start c rules now = .ok rules := by
  unfold anchored
  rw [h]

/-- The steps after the first number is found. -/
theorem plainNth_eq {d : Descriptor} {c : Component} {now : Moment} {first : Nat}
    (hfirst : firstIndexAfter d.start c now = .ok first) (k : Nat) :
    plainNth d c now k =
      if c.count.any (· ≤ advance first k (excludedIndices d c)) then .ok none
      else occurrence d.start c (advance first k (excludedIndices d c)) >>= fun o =>
        if c.bound.any (·.before o) then .ok none else .ok (some o) := by
  unfold plainNth
  rw [hfirst]
  rfl

/-- The date with the number reached is given if the component has it. -/
theorem plainNth_of_index {d : Descriptor} {c : Component} {f : Frequency}
    (hstart : d.start.IsUniversal) (hbound : ∀ m ∈ c.bound, m.IsUniversal)
    (hf : c.freq = some f) {now : Moment} {first k index : Nat}
    (hfirst : firstIndexAfter d.start c now = .ok first)
    (hindex : advance first k (excludedIndices d c) = index) :
    (c.Has index (point d.start.wall f c.interval index) → ∃ t : WallTime,
      t.ticks = point d.start.wall f c.interval index ∧
        orNone (plainNth d c now k) = .ok (some (Moment.universal t))) ∧
    (¬ c.Has index (point d.start.wall f c.interval index) →
      orNone (plainNth d c now k) = .ok none) := by
  rw [plainNth_eq hfirst, hindex]
  have hcount : (c.count.any (· ≤ index)) = true ↔ ¬ ∀ n ∈ c.count, index < n := by
    cases c.count <;> simp
  by_cases hany : (c.count.any (· ≤ index)) = true
  · rw [if_pos hany]
    exact ⟨fun h => absurd h.inCount (hcount.mp hany), fun _ => rfl⟩
  rw [if_neg hany]
  have hcount := not_not.mp fun h => hany (hcount.mpr h)
  have hat := isAt_occurrence d.start.wall hf index
  rw [← show d.start = Moment.universal d.start.wall from hstart] at hat
  rcases hat with ⟨t, ht, ho⟩ | ⟨hend, e, he, ho⟩
  · have hbind : ((Except.ok (Moment.universal t) : Except Fault Moment) >>= fun o =>
        if c.bound.any (·.before o) then .ok none else .ok (some o)) =
        if c.bound.any (·.before (Moment.universal t)) then .ok none
        else .ok (some (Moment.universal t)) := rfl
    rw [ho, hbind]
    have hpast : (c.bound.any (·.before (Moment.universal t))) = true ↔
        ¬ ∀ u ∈ c.bound, t.ticks ≤ u.wall.ticks := by
      cases hu : c.bound with
      | none => simp
      | some u =>
        rw [show u = Moment.universal u.wall from hbound u hu]
        simp
    by_cases hpast' : (c.bound.any (·.before (Moment.universal t))) = true
    · rw [if_pos hpast']
      refine ⟨fun h => absurd (fun u hu => ?_) (hpast.mp hpast'), fun _ => rfl⟩
      rw [ht]
      exact h.inBound u hu
    · rw [if_neg hpast']
      refine ⟨fun _ => ⟨t, ht, rfl⟩, fun h => absurd ⟨?_, hcount, ?_⟩ h⟩
      · rw [← ht]
        exact t.inCalendar
      · rw [← ht]
        exact not_not.mp fun h => hpast' (hpast.mpr h)
  · rw [ho]
    refine ⟨fun h => absurd h.inCalendar (not_lt.mpr hend), fun _ => ?_⟩
    show (if e.endsSearch then _ else _) = _
    rw [if_pos he]

/-- The further dates of a plain rule. -/
theorem plainNth_spec {d : Descriptor} {c : Component} {f : Frequency}
    (hstart : d.start.IsUniversal) (hexcluded : ∀ m ∈ d.excluded, m.IsUniversal)
    (hbound : ∀ m ∈ c.bound, m.IsUniversal) (hf : c.freq = some f) (hinterval : 0 < c.interval)
    (hspan : HasSpan f c.interval) (now : WallTime) (k : Nat) :
    ∃ t : Option WallTime, orNone (plainNth d c (Moment.universal now) k) =
        .ok (t.map Moment.universal) ∧
      NthAfter (c.points d) now.ticks k (t.map WallTime.ticks) := by
  obtain ⟨first, hfirst, harrives⟩ := firstIndexAfter_spec d.start.wall hf hinterval hspan now
  rw [← show d.start = Moment.universal d.start.wall from hstart] at harrives
  have hreached := advance_spec (excludedIndices_pairwise d c) first k
  obtain ⟨n, hkept⟩ := Component.exists_length d.start.wall c f hinterval
  have hanswer : NthAfter (c.points d) now.ticks k
      (if advance first k (excludedIndices d c) < n then
        some (point d.start.wall f c.interval (advance first k (excludedIndices d c))) else none) := by
    refine nthAfter_of_index (fun i j hij _ => point_strictMono d.start.wall f hinterval hij) ?_
      (fun i _ => hfirst i) hreached.le hreached.notMem hreached.count
    intro t ht
    have hmem : ∀ i, point d.start.wall f c.interval i = t →
        (i ∈ excludedIndices d c ↔ ∃ e ∈ d.excluded, e.wall.ticks = t) := by
      rintro i rfl
      exact mem_excludedIndices hstart hexcluded hf hinterval hspan (lt_of_le_of_lt now.nonneg ht)
    simp only [Component.points, hf, Set.mem_ofPred_eq]
    constructor
    · rintro ⟨⟨i, rfl, hhas⟩, hout⟩
      refine ⟨i, (hkept i).mpr hhas, fun hi => ?_, rfl⟩
      obtain ⟨e, he, heq⟩ := (hmem i rfl).mp hi
      exact hout e he heq
    · rintro ⟨i, hi, hout, rfl⟩
      exact ⟨⟨i, rfl, (hkept i).mp hi⟩, fun e he heq => hout ((hmem i rfl).mpr ⟨e, he, heq⟩)⟩
  have hnone : ¬ advance first k (excludedIndices d c) < n →
      orNone (plainNth d c (Moment.universal now) k) = .ok none := by
    intro hout
    unfold Arrives at harrives
    split at harrives
    · exact (plainNth_of_index hstart hbound hf harrives rfl).2 fun h => hout ((hkept _).mpr h)
    · obtain ⟨e, he, harrives⟩ := harrives
      unfold plainNth
      rw [harrives]
      show (if e.endsSearch then _ else _) = _
      rw [if_pos he]
  by_cases hin : advance first k (excludedIndices d c) < n
  · rw [if_pos hin] at hanswer
    have hhas := (hkept _).mp hin
    have hend := lt_of_le_of_lt (point_mono d.start.wall f hinterval hreached.le) hhas.inCalendar
    rw [Arrives, if_pos hend] at harrives
    obtain ⟨t, ht, hgives⟩ := (plainNth_of_index hstart hbound hf harrives rfl).1 hhas
    exact ⟨some t, hgives, by rwa [Option.map_some, ht]⟩
  · rw [if_neg hin] at hanswer
    exact ⟨none, hnone hin, hanswer⟩

end Source

end ScanPolicy
