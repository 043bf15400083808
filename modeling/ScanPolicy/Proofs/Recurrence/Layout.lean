import ScanPolicy.Proofs.Recurrence.Dates

/-!
# Faults and gaps in the layout of periods

Where weekdays are not numbered, laying out a year fails in the first year of the
calendar at most, or around Easter with a fault that does not end a search, and
listing the times of a period fails for all allowed periods or for none. A period
within a day has no dates if the day is not chosen, and then the rest of the day is
passed over.

- `Rule.frame_eq`, `Rule.frame_error`: the layout of a year without numbered weekdays.
- `Rule.timesIn_error`: a period without times of day.
- `Rule.dates_of_day`: the dates of a period within a day.
-/

namespace ScanPolicy

namespace Rule

variable {r : Rule}

/-! ## Years -/

/-- The layout of a year depends on the month only through numbered weekdays. -/
theorem frame_eq (hnumbered : r.numberedWeekdays = []) (heasters : r.easters = []) (y m : Nat) :
    r.frame y m = (YearFrame.chosenWeeks y (Calendar.yearLength y) r.weekStart r.weekNumbers).map
      fun weeks => {
        year := y, length := Calendar.yearLength y, weeks, numbered := [], easterDays := []
        first := Calendar.daysBeforeYear y
        nextLength := Calendar.yearLength (y + 1) } := by
  have hdays : YearFrame.numberedDays r y m = .ok [] := by
    unfold YearFrame.numberedDays
    rw [hnumbered]
    rfl
  have heaster : YearFrame.daysAroundEaster y r.easters = .ok [] := by
    rw [heasters]
    rfl
  unfold frame
  dsimp only
  rw [hdays, heaster]
  cases YearFrame.chosenWeeks y (Calendar.yearLength y) r.weekStart r.weekNumbers <;> rfl

/-- Choosing weeks fails in the first year at most. -/
theorem year_le_one_of_chosenWeeks {y length weekStart : Nat} {numbers : List Int} {e : Fault}
    (h : YearFrame.chosenWeeks y length weekStart numbers = .error e) : y ≤ 1 := by
  unfold YearFrame.chosenWeeks at h
  split at h
  · cases h
  dsimp only at h
  split at h
  · cases h
  split at h
  · cases h
  split at h
  · assumption
  split at h <;> cases h

/-- If weekdays are not numbered, only the first year may have no layout for its weeks, and any year
for the days around Easter. -/
theorem frame_error (hnumbered : r.numberedWeekdays = []) {y m : Nat} {e : Fault}
    (h : r.frame y m = .error e) :
    (y ≤ 1 ∧ ∀ m', r.frame y m' = .error e) ∨ ¬ e.endsSearch := by
  have hdays : ∀ m', YearFrame.numberedDays r y m' = .ok [] := by
    intro m'
    unfold YearFrame.numberedDays
    rw [hnumbered]
    rfl
  unfold frame at h
  dsimp only at h
  cases hweeks : YearFrame.chosenWeeks y (Calendar.yearLength y) r.weekStart r.weekNumbers with
  | error e' =>
    rw [hweeks] at h
    cases h
    refine .inl ⟨year_le_one_of_chosenWeeks hweeks, fun m' => ?_⟩
    unfold frame
    dsimp only
    rw [hweeks]
    rfl
  | ok weeks =>
    rw [hweeks, hdays] at h
    obtain ⟨offset, -, hoffset⟩ := mapM_error (bind_eq_error h)
    right
    dsimp only at hoffset
    split at hoffset
    · cases hoffset
      exact nofun
    · cases hoffset

/-! ## Times of day -/

theorem check_endsSearch {h m s : Int} {e : Fault} (he : TimeOfDay.check h m s = .error e) :
    e.endsSearch := by
  unfold TimeOfDay.check at he
  split_ifs at he <;> cases he <;> rfl

theorem timesOf_error {hours minutes seconds : List Int} {e : Fault}
    (he : timesOf hours minutes seconds = .error e) :
    ∃ h ∈ hours, ∃ m ∈ minutes, ∃ s ∈ seconds, TimeOfDay.check h m s = .error e := by
  obtain ⟨h, hh, he⟩ := mapM_error (bind_eq_error he)
  obtain ⟨m, hm, he⟩ := mapM_error (bind_eq_error he)
  obtain ⟨s, hs, he⟩ := mapM_error he
  exact ⟨h, hh, m, hm, s, hs, he⟩

theorem check_of_timesOf_ok {hours minutes seconds : List Int} {times : List TimeOfDay}
    (hok : timesOf hours minutes seconds = .ok times) :
    ∀ h ∈ hours, ∀ m ∈ minutes, ∀ s ∈ seconds, ∃ t, TimeOfDay.check h m s = .ok t := by
  intro h hh m hm s hs
  obtain ⟨rows, hrows, -⟩ := bind_eq_ok_iff.mp hok
  obtain ⟨row, hrow⟩ := exists_ok_of_mapM_ok hrows h hh
  obtain ⟨rows', hrows', -⟩ := bind_eq_ok_iff.mp hrow
  obtain ⟨row', hrow'⟩ := exists_ok_of_mapM_ok hrows' m hm
  exact exists_ok_of_mapM_ok hrow' s hs

/-- If the times of one period cannot be listed, then another period has none that can. -/
theorem timesIn_error {f : Frequency} {p : Period} (hp : p.Fits f) {e : Fault}
    (he : r.timesIn p = .error e) :
    e.endsSearch ∧ ∀ q, q.Fits f → ∀ times, r.timesIn q = .ok times → times = [] := by
  cases hp with
  | @hour d h hd hh =>
    simp only [timesIn] at he
    split at he
    · obtain ⟨h', hh', m, hm, s, hs, he⟩ := timesOf_error he
      refine ⟨check_endsSearch he, fun q hq times hok => ?_⟩
      cases hq with
      | @hour d₂ h₂ hd₂ hh₂ =>
        simp only [timesIn] at hok
        split at hok
        · obtain ⟨t, ht⟩ := check_of_timesOf_ok hok _ (List.mem_singleton_self _) m hm s hs
          obtain ⟨hvalid, -, hmin, hsec⟩ := TimeOfDay.check_eq_ok_iff.mp ht
          have hok' : TimeOfDay.check h' m s = .ok ⟨h, t.minute, t.second⟩ := by
            rw [List.mem_singleton.mp hh']
            exact TimeOfDay.check_eq_ok_iff.mpr ⟨⟨hh, hvalid.minute_lt, hvalid.second_lt⟩, rfl, hmin, hsec⟩
          rw [hok'] at he
          cases he
        · cases hok
          rfl
    · cases he
  | @minute d h m hd hh hm =>
    simp only [timesIn] at he
    split at he
    · obtain ⟨h', hh', m', hm', s, hs, he⟩ := timesOf_error he
      refine ⟨check_endsSearch he, fun q hq times hok => ?_⟩
      cases hq with
      | @minute d₂ h₂ m₂ hd₂ hh₂ hm₂ =>
        simp only [timesIn] at hok
        split at hok
        · obtain ⟨t, ht⟩ := check_of_timesOf_ok hok _ (List.mem_singleton_self _) _
            (List.mem_singleton_self _) s hs
          obtain ⟨hvalid, -, -, hsec⟩ := TimeOfDay.check_eq_ok_iff.mp ht
          have hok' : TimeOfDay.check h' m' s = .ok ⟨h, m, t.second⟩ := by
            rw [List.mem_singleton.mp hh', List.mem_singleton.mp hm']
            exact TimeOfDay.check_eq_ok_iff.mpr ⟨⟨hh, hm, hvalid.second_lt⟩, rfl, rfl, hsec⟩
          rw [hok'] at he
          cases he
        · cases hok
          rfl
    · cases he
  | year => cases he
  | month => cases he
  | week => cases he
  | day => cases he

/-! ## Dates -/

theorem datesIn_nil (f : YearFrame) (p : Period) : (r.datesIn f p []).1.times = [] := by
  have hall : ∀ days, (allDates days []).times = [] := by
    intro days
    induction days with
    | nil => rfl
    | cons day rest ih =>
      unfold allDates
      split
      · exact ih
      · rfl
  unfold datesIn
  dsimp only
  rw [List.isEmpty_nil, Bool.not_true, Bool.and_false]
  exact hall _

/-- What a period has dates from: the layout of its year and its times of day. -/
theorem dates_eq_ok_iff {p : Period} {isFirst : Bool} {found : Dates × Bool} :
    r.dates p isFirst = .ok found ↔ ∃ f times, r.frame p.yearMonth.1 p.yearMonth.2 = .ok f ∧
      r.timesIn p = .ok times ∧ r.datesIn f p times = found := by
  unfold dates Walk.layout
  dsimp only
  cases r.frame p.yearMonth.1 p.yearMonth.2 with
  | error e =>
    cases r.timesIn p <;> cases isFirst <;>
      exact ⟨(nomatch ·), fun ⟨_, _, h, _⟩ => (nomatch h)⟩
  | ok f =>
    cases r.timesIn p with
    | error e => cases isFirst <;> exact ⟨(nomatch ·), fun ⟨_, _, _, h, _⟩ => (nomatch h)⟩
    | ok times =>
      cases isFirst <;>
        exact ⟨fun h => ⟨f, times, rfl, rfl, Except.ok.inj h⟩, fun ⟨_, _, hf, ht, h⟩ => by
          cases hf
          cases ht
          exact congrArg _ h⟩

/-- A period that is laid out is laid out in the same way the first time and later. -/
theorem dates_of_ok {p : Period} {isFirst : Bool} {found : Dates × Bool}
    (h : r.dates p isFirst = .ok found) (isFirst' : Bool) : r.dates p isFirst' = .ok found :=
  dates_eq_ok_iff.mpr (dates_eq_ok_iff.mp h)

theorem dates_eq_error {p : Period} {isFirst : Bool} {e : Fault}
    (h : r.dates p isFirst = .error e) :
    r.frame p.yearMonth.1 p.yearMonth.2 = .error e ∨ r.timesIn p = .error e := by
  unfold dates Walk.layout at h
  dsimp only at h
  cases hf : r.frame p.yearMonth.1 p.yearMonth.2 with
  | error e' =>
    cases ht : r.timesIn p with
    | error e'' =>
      rw [hf, ht] at h
      cases isFirst <;> cases h
      · exact .inr rfl
      · exact .inl rfl
    | ok times =>
      rw [hf, ht] at h
      cases isFirst <;> cases h <;> exact .inl rfl
  | ok f =>
    cases ht : r.timesIn p with
    | error e'' =>
      rw [hf, ht] at h
      cases isFirst <;> cases h <;> exact .inr rfl
    | ok times =>
      rw [hf, ht] at h
      cases isFirst <;> cases h

/-- A period within a day has dates only if the day is chosen. -/
theorem datesIn_day {f : YearFrame} {p : Period} {d : Nat} (hdays : p.days r.weekStart = [d])
    (times : List TimeOfDay) : (r.datesIn f p times).2 = !r.choosesDay f d ∧
      (r.choosesDay f d = false → (r.datesIn f p times).1 = ⟨[], none⟩) := by
  unfold datesIn
  dsimp only
  rw [hdays]
  cases hchosen : r.choosesDay f d with
  | true =>
    rw [List.filter_cons_of_pos hchosen, List.filter_nil]
    exact ⟨rfl, (nomatch ·)⟩
  | false =>
    rw [List.filter_cons_of_neg (Bool.eq_false_iff.mp hchosen), List.filter_nil]
    refine ⟨rfl, fun _ => ?_⟩
    have hnone : ∀ position, atPosition [] times position = none := by
      intro position
      unfold atPosition
      dsimp only
      split
      · next d' t hd ht =>
        split_ifs at hd <;> simp at hd
      · rfl
    split
    · unfold datesAt
      dsimp only
      rw [List.filterMap_eq_nil_iff.mpr fun position _ => hnone position]
      rfl
    · rfl

end Rule

end ScanPolicy
