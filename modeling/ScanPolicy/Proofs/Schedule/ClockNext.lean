import ScanPolicy.Proofs.Moment.Comparison
import ScanPolicy.Proofs.Outcome
import ScanPolicy.Proofs.Schedule.ClockDates
import ScanPolicy.Proofs.Schedule.PlainNext

/-!
# The further dates of a plain rule on any clock

The estimate of the passed periods is made on the wall of the clock, but dates are
compared with a moment by their instants. Where the clock is set forward or back the
estimate may be too small or too large; going down and then up repairs both.

- `Plain.firstIndexAfter_failsOnly`: a search that breaks off only means that there is no date.
- `Plain.descend_spec`, `Plain.ascend_spec`: one way and the other.
- `Plain.firstIndexAfter_of_comparesOn`: the first number after a moment that compares with
  the dates as its instant does; `Plain.firstIndexAfter_on_clock`: on the universal clock.
- `Component.Gives`: which moment a component gives for a number.
- `Source.plainNth_on_clock`: the further dates of a plain rule.
-/

namespace ScanPolicy

/-! ## Faults -/

theorem within_failsOnly {α : Type} (x : Option α) : FailsOnly (·.endsSearch = true) (within x) := by
  cases x with
  | none => exact failsOnly_error rfl
  | some a => exact failsOnly_ok a

namespace Plain

section

variable (start : Moment) (c : Component) (now : Moment)

theorem occurrence_failsOnly (index : Nat) :
    FailsOnly (·.endsSearch = true) (occurrence start c index) := by
  unfold occurrence
  split
  · exact failsOnly_ok _
  · dsimp only
    split
    · exact within_failsOnly _
    · exact within_failsOnly _
    · unfold addMonths
      dsimp only
      split
      · split <;> exact failsOnly_error rfl
      · exact within_failsOnly _

theorem elapsedPeriods_failsOnly (f : Frequency) :
    FailsOnly (·.endsSearch = true) (elapsedPeriods start c f now) := by
  unfold elapsedPeriods
  split
  · exact (within_failsOnly _).bind fun _ _ => failsOnly_ok _
  · exact (within_failsOnly _).bind fun _ _ => (within_failsOnly _).bind fun _ _ => failsOnly_ok _
  · exact (within_failsOnly _).bind fun _ _ => failsOnly_ok _

theorem descend_failsOnly (n : Nat) : FailsOnly (·.endsSearch = true) (descend start c now n) := by
  induction n with
  | zero => exact failsOnly_ok _
  | succ n ih =>
    unfold descend
    split
    · next e he => exact failsOnly_error (occurrence_failsOnly start c n e he)
    · split
      · exact ih
      · exact failsOnly_ok _

theorem ascend_failsOnly (fuel n : Nat) :
    FailsOnly (·.endsSearch = true) (ascend start c now fuel n) := by
  induction fuel generalizing n with
  | zero => exact failsOnly_error rfl
  | succ fuel ih =>
    unfold ascend
    split
    · next e he => exact failsOnly_error (occurrence_failsOnly start c n e he)
    · split
      · exact ih _
      · exact failsOnly_ok _

/-- The search for the first number after a moment breaks off only where there is no date. -/
theorem firstIndexAfter_failsOnly : FailsOnly (·.endsSearch = true) (firstIndexAfter start c now) := by
  unfold firstIndexAfter
  split
  · exact failsOnly_ok _
  · exact (elapsedPeriods_failsOnly start c now _).bind fun _ _ =>
      (descend_failsOnly start c now _).bind fun _ _ => ascend_failsOnly start c now _ _

end

/-! ## The first number after a moment -/

variable {start : Moment} {c : Component} {f : Frequency} {t : Int}

/-- Whether `first` is the first number of which the date is not at a moment or before it; if it
has no date, no later number has one. -/
def IsFirstAfter (start : Moment) (f : Frequency) (interval : Nat) (now : Int) (first : Nat) : Prop :=
  ∀ i, i < first ↔ ∃ t, IsDate start f interval i t ∧ t ≤ now

variable (hcounts : CountsFrom start f) (hf : c.freq = some f) (hinterval : 0 < c.interval)

include hcounts hinterval

/-- What is not after a moment stays so for smaller numbers. -/
theorem not_after_of_le {now : Int} {i j : Nat} (hij : i ≤ j)
    (h : ∃ t, IsDate start f c.interval j t ∧ t ≤ now) :
    ∃ t, IsDate start f c.interval i t ∧ t ≤ now := by
  obtain ⟨t, ht, hnow⟩ := h
  obtain ⟨s, hs⟩ := exists_isDate_of_le hcounts hinterval ht hij
  exact ⟨s, hs, (hs.le hcounts hinterval ht hij).trans hnow⟩

/-- There is a first number after a moment. -/
theorem exists_first (now : Int) : ∃ first ≤ 1440 * Calendar.dayCount,
    IsFirstAfter start f c.interval now first := by
  refine exists_lt_iff (fun i j hij h => not_after_of_le hcounts hinterval hij h) fun h => ?_
  obtain ⟨t, ht, -⟩ := h
  exact not_isDate_of_late hcounts hinterval le_rfl t ht

variable {now : Moment} (hcompares : now.ComparesOn start.clock)

include hf hcompares

/-- Going down stops before the first number after a moment. -/
theorem descend_spec {n : Nat} (hn : ∀ i < n, ∃ t, IsDate start f c.interval i t) :
    ∃ m ≤ n, descend start c now n = .ok m ∧
      ∀ i < m, ∃ t, IsDate start f c.interval i t ∧ t ≤ now.instant := by
  induction n with
  | zero => exact ⟨0, le_rfl, rfl, fun i hi => absurd hi (Nat.not_lt_zero i)⟩
  | succ n ih =>
    obtain ⟨t, ht⟩ := hn n (Nat.lt_succ_self n)
    obtain ⟨o, ho, hon, rfl⟩ := ht.exists_occurrence hcounts hf
    have hbefore := (hcompares o hon.clock_eq).1
    unfold descend
    rw [ho]
    dsimp only
    by_cases hlt : now.instant < o.instant
    · obtain ⟨m, hm, hdown, hpassed⟩ := ih fun i hi => hn i (Nat.lt_succ_of_lt hi)
      rw [if_pos (hbefore.mpr hlt)]
      exact ⟨m, Nat.le_succ_of_le hm, hdown, hpassed⟩
    · -- the way down ends here, and smaller numbers have earlier dates
      rw [if_neg fun h => hlt (hbefore.mp h)]
      refine ⟨n + 1, le_rfl, rfl, fun i hi => ?_⟩
      exact not_after_of_le hcounts hinterval (Nat.le_of_lt_succ hi) ⟨_, ht, not_lt.mp hlt⟩

omit hinterval in
/-- Going up stops at the first number after a moment if it has a date, and breaks off there if it
has none. -/
theorem ascend_spec {first n fuel : Nat} (hfirst : IsFirstAfter start f c.interval now.instant first)
    (hn : n ≤ first) (hfuel : first < n + fuel) :
    (∃ t, IsDate start f c.interval first t) ∧ ascend start c now fuel n = .ok first ∨
      (∀ t, ¬ IsDate start f c.interval first t) ∧
        ∃ e : Fault, e.endsSearch ∧ ascend start c now fuel n = .error e := by
  induction fuel generalizing n with
  | zero => omega
  | succ fuel ih =>
    unfold ascend
    rcases Nat.eq_or_lt_of_le hn with rfl | hlt
    · rcases occurrence_spec hcounts hf n with ⟨o, ho, hon, hdate⟩ | ⟨hnone, e, he, ho⟩
      · refine .inl ⟨⟨_, hdate⟩, ?_⟩
        have hafter : ¬ o.instant ≤ now.instant := fun hle =>
          lt_irrefl n ((hfirst n).mpr ⟨_, hdate, hle⟩)
        rw [ho]
        dsimp only
        rw [if_neg fun h => hafter ((hcompares.notAfter_iff hon.clock_eq).mp h)]
      · refine .inr ⟨hnone, e, he, ?_⟩
        rw [ho]
    · obtain ⟨t, ht, hnow⟩ := (hfirst n).mp hlt
      obtain ⟨o, ho, hon, rfl⟩ := ht.exists_occurrence hcounts hf
      rw [ho]
      dsimp only
      rw [if_pos ((hcompares.notAfter_iff hon.clock_eq).mpr hnow)]
      exact ih hlt (by omega)

/-- The first number after a moment is found if it has a date; otherwise the search ends. -/
theorem firstIndexAfter_of_comparesOn (hspan : HasSpan f c.interval) (hreach : Reaches start f now) :
    ∃ first, IsFirstAfter start f c.interval now.instant first ∧
      ((∃ t, IsDate start f c.interval first t) ∧ firstIndexAfter start c now = .ok first ∨
        (∀ t, ¬ IsDate start f c.interval first t) ∧
          ∃ e : Fault, e.endsSearch ∧ firstIndexAfter start c now = .error e) := by
  obtain ⟨first, hlimit, hfirst⟩ := exists_first hcounts hinterval now.instant
  obtain ⟨elapsed, helapsed, hdates⟩ := elapsedPeriods_isDate hcounts hinterval hspan hreach
  obtain ⟨m, -, hdown, hpassed⟩ := descend_spec hcounts hf hinterval hcompares hdates
  -- the way down does not end after the first number, so that the way up reaches it
  have hle : m ≤ first := by
    by_contra hlt
    exact lt_irrefl first ((hfirst first).mpr (hpassed first (not_le.mp hlt)))
  have hway : firstIndexAfter start c now = ascend start c now horizon m := by
    unfold firstIndexAfter
    rw [hf]
    show (elapsedPeriods start c f _ >>= fun estimate =>
      descend start c _ estimate.toNat >>= fun index => ascend start c _ horizon index) = _
    rw [helapsed]
    show (descend start c _ elapsed.toNat >>= fun index => ascend start c _ horizon index) = _
    rw [hdown]
    rfl
  rw [hway]
  exact ⟨first, hfirst, ascend_spec hcounts hf hcompares hfirst hle (by unfold horizon; omega)⟩

omit hcompares

/-- So it is for a moment on the universal clock. -/
theorem firstIndexAfter_on_clock (hspan : HasSpan f c.interval) {now : WallTime}
    (hnow : start.clock.Shows now.ticks) : ∃ first, IsFirstAfter start f c.interval now.ticks first ∧
      ((∃ t, IsDate start f c.interval first t) ∧
          firstIndexAfter start c (Moment.universal now) = .ok first ∨
        (∀ t, ¬ IsDate start f c.interval first t) ∧
          ∃ e : Fault, e.endsSearch ∧ firstIndexAfter start c (Moment.universal now) = .error e) := by
  have h := firstIndexAfter_of_comparesOn hcounts hf hinterval
    (Moment.comparesOn_of_universal (m := Moment.universal now) rfl) hspan
    (reaches_universal start f hnow)
  rwa [Moment.instant_universal] at h

end Plain

/-! ## The dates of a component -/

/-- Whether a component gives a moment for a number: the count and the last moment reach so far. -/
structure Component.Gives (c : Component) (start : Moment) (index : Nat) (m : Moment) : Prop where
  inCount : ∀ n ∈ c.count, index < n
  isOccurrence : Plain.occurrence start c index = .ok m
  inBound : ∀ u ∈ c.bound, ¬ u.before m

namespace Source

open Plain

/-- A fault that ends the search means that there is no date. -/
theorem orNone_error {e : Fault} (he : e.endsSearch) : orNone (.error e) = .ok none := if_pos he

theorem orNone_eq_some {x : Except Fault (Option Moment)} {m : Moment}
    (h : orNone x = .ok (some m)) : x = .ok (some m) := by
  unfold orNone at h
  split at h
  · split at h <;> cases h
  · exact h

variable {d : Descriptor} {c : Component} {f : Frequency} {now : Moment} {first k : Nat}

/-- The moment that a component gives for the number reached is the answer. -/
theorem plainNth_of_gives (hfirst : firstIndexAfter d.start c now = .ok first) {m : Moment}
    (h : c.Gives d.start (advance first k (excludedIndices d c)) m) :
    plainNth d c now k = .ok (some m) := by
  have hcount : ¬ c.count.any (· ≤ advance first k (excludedIndices d c)) = true := by
    have := h.inCount
    cases hc : c.count with
    | none => simp
    | some n => simpa using this n hc
  have hbound : ¬ c.bound.any (·.before m) = true := by
    have := h.inBound
    cases hu : c.bound with
    | none => simp
    | some u => simpa using this u hu
  rw [plainNth_eq hfirst, if_neg hcount, h.isOccurrence]
  show (if c.bound.any (·.before m) then _ else _) = _
  rw [if_neg hbound]

/-- If a component gives no moment for the number reached, there is no answer. -/
theorem plainNth_of_not_gives (hfirst : firstIndexAfter d.start c now = .ok first)
    (h : ∀ m, ¬ c.Gives d.start (advance first k (excludedIndices d c)) m) :
    orNone (plainNth d c now k) = .ok none := by
  rw [plainNth_eq hfirst]
  by_cases hcount : c.count.any (· ≤ advance first k (excludedIndices d c)) = true
  · rw [if_pos hcount]
    rfl
  rw [if_neg hcount]
  cases ho : occurrence d.start c (advance first k (excludedIndices d c)) with
  | error e => exact orNone_error (occurrence_failsOnly d.start c _ e ho)
  | ok m =>
    show orNone (if c.bound.any (·.before m) then .ok none else .ok (some m)) = _
    by_cases hbound : c.bound.any (·.before m) = true
    · rw [if_pos hbound]
      rfl
    · refine absurd ⟨fun n hn => ?_, ho, fun u hu => ?_⟩ (h m)
      · rw [Option.mem_def.mp hn] at hcount
        simpa using hcount
      · rw [Option.mem_def.mp hu] at hbound
        simpa using hbound

/-- The further dates of a plain rule: from the first number after the moment on, the excluded
numbers passed over, and as long as the component gives a date. -/
theorem plainNth_on_clock (hcounts : CountsFrom d.start f) (hf : c.freq = some f)
    (hinterval : 0 < c.interval) (hspan : HasSpan f c.interval) {now : WallTime}
    (hnow : d.start.clock.Shows now.ticks) :
    ∃ first, IsFirstAfter d.start f c.interval now.ticks first ∧ ∀ k,
      (∀ m, c.Gives d.start (advance first k (excludedIndices d c)) m →
        orNone (plainNth d c (Moment.universal now) k) = .ok (some m)) ∧
      ((∀ m, ¬ c.Gives d.start (advance first k (excludedIndices d c)) m) →
        orNone (plainNth d c (Moment.universal now) k) = .ok none) := by
  obtain ⟨first, hfirst, hsearch⟩ := firstIndexAfter_on_clock hcounts hf hinterval hspan hnow
  refine ⟨first, hfirst, fun k => ?_⟩
  rcases hsearch with ⟨-, hfound⟩ | ⟨hnone, e, he, herror⟩
  · exact ⟨fun m hm => by rw [plainNth_of_gives hfound hm]; rfl,
      plainNth_of_not_gives hfound⟩
  · refine ⟨fun m hm => ?_, fun _ => ?_⟩
    · -- after a number without a date there is no date
      have hle := (advance_spec (excludedIndices_pairwise d c) first k).le
      obtain ⟨t, ht⟩ := exists_isDate_of_le hcounts hinterval
        (isDate_of_occurrence hcounts hf hm.isOccurrence) hle
      exact absurd ht (hnone t)
    · unfold plainNth
      rw [herror]
      exact orNone_error he

end Source

end ScanPolicy
