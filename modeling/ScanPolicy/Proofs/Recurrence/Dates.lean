import ScanPolicy.Proofs.Recurrence.Completion
import ScanPolicy.Proofs.Recurrence.Number
import ScanPolicy.Proofs.Recurrence.Run

/-!
# The dates of a period

The dates of a period come in order, each one once, and lie in the period. A fault
among them only means that the calendar ends.

- `Rule.IsDate`: a date on one of the days and at one of the times of a period.
- `Rule.datesIn_spec`: what the dates of a period are.
-/

namespace ScanPolicy

namespace Rule

/-- A date on one of the days, at one of the times. -/
def IsDate (days : List Nat) (times : List TimeOfDay) (w : WallTime) : Prop :=
  ∃ day ∈ days, ∃ t ∈ times, w.ticks = (day : Int) * Span.day + t.ticks

theorem dateAt_eq_some_iff {day : Nat} {t : TimeOfDay} {w : WallTime} :
    dateAt day t = some w ↔ w.ticks = (day : Int) * Span.day + t.ticks := by
  unfold dateAt
  rw [WallTime.ofTicks?_eq_some_iff]
  unfold WallTime.ticksAt TimeOfDay.ticks
  constructor <;> intro h <;> omega

theorem allDates_spec {days : List Nat} {times : List TimeOfDay} (hdays : days.Pairwise (· < ·))
    (htimes : times.Pairwise fun a b => a.ticks < b.ticks) (hvalid : ∀ t ∈ times, t.IsValid) :
    ((allDates days times).times.Pairwise fun a b => a.ticks < b.ticks) ∧
      ∀ w ∈ (allDates days times).times, IsDate days times w := by
  induction days with
  | nil => exact ⟨List.Pairwise.nil, fun w hw => (nomatch hw)⟩
  | cons day rest ih =>
    obtain ⟨hday, hrest⟩ := List.pairwise_cons.mp hdays
    obtain ⟨hsorted, hdates⟩ := ih hrest
    unfold allDates
    split
    · have hfirst : ∀ w ∈ times.filterMap (dateAt day), ∃ t ∈ times,
          w.ticks = (day : Int) * Span.day + t.ticks := by
        intro w hw
        obtain ⟨t, ht, hw⟩ := List.mem_filterMap.mp hw
        exact ⟨t, ht, dateAt_eq_some_iff.mp hw⟩
      constructor
      · refine List.pairwise_append.mpr ⟨?_, hsorted, ?_⟩
        · refine List.Pairwise.filterMap _ (fun a b hab w hw v hv => ?_) htimes
          rw [dateAt_eq_some_iff.mp hw, dateAt_eq_some_iff.mp hv]
          omega
        · intro w hw v hv
          obtain ⟨t, ht, hw⟩ := hfirst w hw
          obtain ⟨day', hday', t', ht', hv⟩ := hdates v hv
          have hlt := (hvalid t ht).ticks_bounds.2
          have hpos := (hvalid t' ht').ticks_bounds.1
          have hdd := hday day' hday'
          rw [hw, hv]
          rw [Span.day_eq] at *
          omega
      · intro w hw
        rcases List.mem_append.mp hw with hw | hw
        · obtain ⟨t, ht, hw⟩ := hfirst w hw
          exact ⟨day, List.mem_cons_self, t, ht, hw⟩
        · obtain ⟨day', hday', t, ht, hw⟩ := hdates w hw
          exact ⟨day', List.mem_cons_of_mem _ hday', t, ht, hw⟩
    · exact ⟨List.Pairwise.nil, fun w hw => (nomatch hw)⟩

theorem mem_of_atPosition {days : List Nat} {times : List TimeOfDay} {position : Int} {day : Nat}
    {t : TimeOfDay} (h : atPosition days times position = some (day, t)) :
    day ∈ days ∧ t ∈ times := by
  unfold atPosition at h
  simp only at h
  split at h
  · next d t' hd ht =>
    cases h
    refine ⟨?_, List.mem_of_getElem? ht⟩
    split_ifs at hd <;> exact List.mem_of_getElem? hd
  · cases h

theorem datesAt_spec (positions : List Int) (days : List Nat) (times : List TimeOfDay) :
    ((datesAt positions days times).times.Pairwise fun a b => a.ticks < b.ticks) ∧
      ∀ w ∈ (datesAt positions days times).times, IsDate days times w := by
  unfold datesAt
  simp only
  split
  · exact ⟨List.Pairwise.nil, fun w hw => (nomatch hw)⟩
  constructor
  · refine (increasing_pairwise (fun a b c => ?_) (fun a b => ?_) _).imp fun h => by simpa using h
    · simp only [decide_eq_true_eq]
      omega
    · simp only [decide_eq_false_iff_not, decide_eq_true_eq, beq_eq_false_iff_ne]
      intro hab hne
      have : a.ticks ≠ b.ticks := fun h => hne (WallTime.ext h)
      omega
  · intro w hw
    obtain ⟨⟨day, t⟩, hmem, hw⟩ := List.mem_filterMap.mp (mem_increasing.mp hw)
    obtain ⟨position, -, hat⟩ := List.mem_filterMap.mp hmem
    obtain ⟨hday, ht⟩ := mem_of_atPosition hat
    exact ⟨day, hday, t, ht, dateAt_eq_some_iff.mp hw⟩

/-- A fault among dates only means that a day is beyond the calendar. -/
theorem allDates_fault {days : List Nat} {times : List TimeOfDay} {e : Fault}
    (h : (allDates days times).fault = some e) :
    e.endsSearch ∧ ∃ day ∈ days, Calendar.dayCount ≤ day := by
  induction days with
  | nil => cases h
  | cons day rest ih =>
    unfold allDates at h
    split at h
    · obtain ⟨he, day', hday', hbeyond⟩ := ih h
      exact ⟨he, day', List.mem_cons_of_mem _ hday', hbeyond⟩
    · next hbeyond =>
      cases h
      exact ⟨rfl, day, List.mem_cons_self, Nat.le_of_not_lt hbeyond⟩

theorem datesAt_fault {positions : List Int} {days : List Nat} {times : List TimeOfDay} {e : Fault}
    (h : (datesAt positions days times).fault = some e) :
    e.endsSearch ∧ ∃ day ∈ days, Calendar.dayCount ≤ day := by
  unfold datesAt at h
  simp only at h
  split at h
  · next hany =>
    cases h
    obtain ⟨⟨day, t⟩, hmem, hbeyond⟩ := List.any_eq_true.mp hany
    obtain ⟨position, -, hat⟩ := List.mem_filterMap.mp hmem
    exact ⟨rfl, day, (mem_of_atPosition hat).1, of_decide_eq_true hbeyond⟩
  · cases h

/-! ## Times and days of a period -/

/-- Whether a time of day lies in a period that may be shorter than a day. -/
def OnClock (p : Period) (t : TimeOfDay) : Prop :=
  match p with
  | .hour _ h => t.hour = h
  | .minute _ h m => t.hour = h ∧ t.minute = m
  | _ => True

theorem timesIn_spec {r : Rule} (hr : r.IsComplete) {p : Period} {times : List TimeOfDay}
    (hok : r.timesIn p = .ok times) :
    (times.Pairwise fun a b => a.ticks < b.ticks) ∧ ∀ t ∈ times, t.IsValid ∧ OnClock p t := by
  have hdays : (r.dayTimes.Pairwise fun a b => a.ticks < b.ticks) ∧
      ∀ t ∈ r.dayTimes, t.IsValid ∧ True :=
    ⟨hr.dayTimes_sorted, fun t ht => ⟨hr.dayTimes_valid t ht, trivial⟩⟩
  cases p with
  | hour d h =>
    simp only [timesIn] at hok
    split at hok
    · obtain ⟨hsorted, htimes⟩ := timesOf_spec hok (List.pairwise_singleton _ _) hr.minutes_sorted
        hr.seconds_sorted
      refine ⟨hsorted, fun t ht => ?_⟩
      obtain ⟨h', hh', m, -, hvalid, hhour, -⟩ := htimes t ht
      rw [List.mem_singleton.mp hh'] at hhour
      exact ⟨hvalid, Int.ofNat.inj hhour⟩
    · cases hok
      exact ⟨List.Pairwise.nil, fun t ht => (nomatch ht)⟩
  | minute d h m =>
    simp only [timesIn] at hok
    split at hok
    · obtain ⟨hsorted, htimes⟩ := timesOf_spec hok (List.pairwise_singleton _ _)
        (List.pairwise_singleton _ _) hr.seconds_sorted
      refine ⟨hsorted, fun t ht => ?_⟩
      obtain ⟨h', hh', m', hm', hvalid, hhour, hminute⟩ := htimes t ht
      rw [List.mem_singleton.mp hh'] at hhour
      rw [List.mem_singleton.mp hm'] at hminute
      exact ⟨hvalid, Int.ofNat.inj hhour, Int.ofNat.inj hminute⟩
    · cases hok
      exact ⟨List.Pairwise.nil, fun t ht => (nomatch ht)⟩
  | year y =>
    cases hok
    exact hdays
  | month y m =>
    cases hok
    exact hdays
  | week d =>
    cases hok
    exact hdays
  | day d =>
    cases hok
    exact hdays

theorem days_sorted (weekStart : Nat) (p : Period) : (p.days weekStart).Pairwise (· < ·) := by
  cases p with
  | year y => exact List.pairwise_lt_range' _
  | month y m => exact List.pairwise_lt_range' _
  | week d => exact List.pairwise_lt_range' _
  | day d => exact List.pairwise_singleton _ _
  | hour d h => exact List.pairwise_singleton _ _
  | minute d h m => exact List.pairwise_singleton _ _

/-- A time on a day of a period lies in the period. -/
theorem spans_of_mem_days {f : Frequency} {p : Period} (hfits : p.Fits f) {weekStart : Nat}
    (hweek : weekStart < 7) {day : Nat} (hday : day ∈ p.days weekStart) {t : TimeOfDay}
    (ht : t.IsValid) (hclock : OnClock p t) :
    f.Spans weekStart (p.number weekStart) ((day : Int) * Span.day + t.ticks) := by
  obtain ⟨h₀, h₁⟩ := ht.ticks_bounds
  have htick : t.ticks = (t.hour : Int) * Span.hour + (t.minute : Int) * Span.minute +
      (t.second : Int) * Span.second := rfl
  have hsecond := ht.second_lt
  have hminute := ht.minute_lt
  rw [Span.hour_eq, Span.minute_eq, Span.second_eq] at htick
  rw [Span.day_eq] at h₁
  cases hfits with
  | @year y hpos hle =>
    obtain ⟨hlow, hhigh⟩ := List.mem_range'_1.mp hday
    have hsucc := Calendar.daysBeforeYear_succ hpos
    refine ⟨hpos, ?_, ?_⟩ <;> simp only [Frequency.startOf, Period.number] <;> rw [Span.day_eq] <;>
      omega
  | @month y m hpos hle hm hm' =>
    obtain ⟨hlow, hhigh⟩ := List.mem_range'_1.mp hday
    obtain ⟨hstart, hend⟩ := Date.monthStart_of_month hpos hm hm'
    refine ⟨show 12 ≤ 12 * y + (m - 1) by omega, ?_, ?_⟩ <;> simp only [Frequency.startOf, Period.number] <;>
      rw [Span.day_eq] <;> omega
  | @week d hd =>
    obtain ⟨hlow, hhigh⟩ := List.mem_range'_1.mp hday
    unfold Date.weekday at hhigh
    refine ⟨Nat.zero_le _, ?_, ?_⟩ <;> simp only [Frequency.startOf, Period.number] <;>
      rw [Span.day_eq] <;> omega
  | @day d hd =>
    rw [List.mem_singleton.mp hday]
    refine ⟨Nat.zero_le _, ?_, ?_⟩ <;> simp only [Frequency.startOf, Period.number] <;>
      rw [Span.day_eq] <;> omega
  | @hour d h hd hh =>
    rw [List.mem_singleton.mp hday]
    have hhour : t.hour = h := hclock
    refine ⟨Nat.zero_le _, ?_, ?_⟩ <;> simp only [Frequency.startOf, Period.number] <;>
      rw [Span.day_eq, Span.hour_eq] <;> omega
  | @minute d h m hd hh hm =>
    rw [List.mem_singleton.mp hday]
    obtain ⟨hhour, hmin⟩ : t.hour = h ∧ t.minute = m := hclock
    refine ⟨Nat.zero_le _, ?_, ?_⟩ <;> simp only [Frequency.startOf, Period.number] <;>
      rw [Span.day_eq, Span.minute_eq] <;> omega

/-- A period has a time of day. -/
theorem exists_onClock {f : Frequency} {p : Period} (hfits : p.Fits f) :
    ∃ t : TimeOfDay, t.IsValid ∧ OnClock p t := by
  cases hfits with
  | @hour d h hd hh => exact ⟨⟨h, 0, 0⟩, ⟨hh, Nat.zero_lt_succ 59, Nat.zero_lt_succ 59⟩, rfl⟩
  | @minute d h m hd hh hm => exact ⟨⟨h, m, 0⟩, ⟨hh, hm, Nat.zero_lt_succ 59⟩, rfl, rfl⟩
  | year => exact ⟨⟨0, 0, 0⟩, ⟨by decide, by decide, by decide⟩, trivial⟩
  | month => exact ⟨⟨0, 0, 0⟩, ⟨by decide, by decide, by decide⟩, trivial⟩
  | week => exact ⟨⟨0, 0, 0⟩, ⟨by decide, by decide, by decide⟩, trivial⟩
  | day => exact ⟨⟨0, 0, 0⟩, ⟨by decide, by decide, by decide⟩, trivial⟩

/-- A period has a day. -/
theorem exists_day {f : Frequency} {p : Period} (hfits : p.Fits f) (weekStart : Nat) :
    ∃ day, day ∈ p.days weekStart := by
  cases hfits with
  | @year y hpos hle =>
    have := Calendar.yearLength_pos y
    exact ⟨_, List.mem_range'_1.mpr ⟨le_rfl, by omega⟩⟩
  | @month y m hpos hle hm hm' =>
    have := (Calendar.daysIn_pos (y := y) hm hm').1
    exact ⟨_, List.mem_range'_1.mpr ⟨le_rfl, by omega⟩⟩
  | @week d hd => exact ⟨d, List.mem_range'_1.mpr ⟨le_rfl, by omega⟩⟩
  | @day d hd => exact ⟨d, List.mem_singleton_self d⟩
  | @hour d h hd hh => exact ⟨d, List.mem_singleton_self d⟩
  | @minute d h m hd hh hm => exact ⟨d, List.mem_singleton_self d⟩

/-! ## All dates of a period -/

/-- What the dates of a period are: in order, whole seconds, within the period; a fault
comes only if the period reaches beyond the calendar. -/
structure DatesOf (r : Rule) (p : Period) (dates : Dates) : Prop where
  sorted : dates.times.Pairwise fun a b => a.ticks < b.ticks
  wholeSecond : ∀ w ∈ dates.times, w.ticks % Span.second = 0
  spans : ∀ w ∈ dates.times, r.freq.Spans r.weekStart (p.number r.weekStart) w.ticks
  fault : ∀ e, dates.fault = some e → e.endsSearch ∧
    (Calendar.dayCount : Int) * Span.day < r.freq.startOf r.weekStart (p.number r.weekStart + 1)

theorem datesIn_spec {r : Rule} (hr : r.IsComplete) {p : Period} (hfits : p.Fits r.freq)
    {times : List TimeOfDay} (htimes : r.timesIn p = .ok times) (f : YearFrame) :
    DatesOf r p (r.datesIn f p times).1 := by
  obtain ⟨hsorted, hvalid⟩ := timesIn_spec hr htimes
  have hchosen : ((p.days r.weekStart).filter (r.choosesDay f)).Pairwise (· < ·) :=
    (days_sorted r.weekStart p).sublist List.filter_sublist
  have hspans : ∀ day ∈ (p.days r.weekStart).filter (r.choosesDay f), ∀ t ∈ times,
      r.freq.Spans r.weekStart (p.number r.weekStart) ((day : Int) * Span.day + t.ticks) :=
    fun day hday t ht => spans_of_mem_days hfits hr.weekStart_lt (List.mem_filter.mp hday).1
      (hvalid t ht).1 (hvalid t ht).2
  have hdates : ∀ w, IsDate ((p.days r.weekStart).filter (r.choosesDay f)) times w →
      w.ticks % Span.second = 0 ∧ r.freq.Spans r.weekStart (p.number r.weekStart) w.ticks := by
    rintro w ⟨day, hday, t, ht, hw⟩
    refine ⟨?_, hw ▸ hspans day hday t ht⟩
    rw [hw]
    unfold TimeOfDay.ticks
    rw [Span.day_eq, Span.hour_eq, Span.minute_eq, Span.second_eq]
    omega
  have hbeyond : ∀ e : Fault, (e.endsSearch ∧ ∃ day ∈ (p.days r.weekStart).filter (r.choosesDay f),
      Calendar.dayCount ≤ day) → e.endsSearch ∧ (Calendar.dayCount : Int) * Span.day <
        r.freq.startOf r.weekStart (p.number r.weekStart + 1) := by
    rintro e ⟨he, day, hday, hle⟩
    refine ⟨he, ?_⟩
    obtain ⟨t, ht, hclock⟩ := exists_onClock hfits
    have hend := (spans_of_mem_days hfits hr.weekStart_lt (List.mem_filter.mp hday).1 ht hclock).lt_end
    have hpos := ht.ticks_bounds.1
    rw [Span.day_eq] at *
    omega
  unfold datesIn
  dsimp only
  split
  · obtain ⟨hsort, hmem⟩ := datesAt_spec r.positions ((p.days r.weekStart).filter (r.choosesDay f))
      times
    exact ⟨hsort, fun w hw => (hdates w (hmem w hw)).1, fun w hw => (hdates w (hmem w hw)).2,
      fun e he => hbeyond e (datesAt_fault he)⟩
  · obtain ⟨hsort, hmem⟩ := allDates_spec hchosen hsorted fun t ht => (hvalid t ht).1
    exact ⟨hsort, fun w hw => (hdates w (hmem w hw)).1, fun w hw => (hdates w (hmem w hw)).2,
      fun e he => hbeyond e (allDates_fault he)⟩

theorem dates_spec {r : Rule} (hr : r.IsComplete) {p : Period} (hfits : p.Fits r.freq)
    {isFirst skips : Bool} {dates : Dates} (h : r.dates p isFirst = .ok (dates, skips)) :
    DatesOf r p dates := by
  obtain ⟨⟨f, times⟩, hlayout, hdates⟩ := map_eq_ok_iff.mp h
  have htimes : r.timesIn p = .ok times := by
    unfold Walk.layout at hlayout
    dsimp only at hlayout
    split at hlayout
    · obtain ⟨f, -, hlayout⟩ := bind_eq_ok_iff.mp hlayout
      obtain ⟨times, htimes, hlayout⟩ := bind_eq_ok_iff.mp hlayout
      cases hlayout
      exact htimes
    · obtain ⟨times, htimes, hlayout⟩ := bind_eq_ok_iff.mp hlayout
      obtain ⟨f, -, hlayout⟩ := bind_eq_ok_iff.mp hlayout
      cases hlayout
      exact htimes
  have hspec := datesIn_spec hr hfits htimes f
  rw [show r.datesIn f p times = (dates, skips) from hdates] at hspec
  exact hspec

/-- Whole seconds in order between two whole seconds are at most as many as the seconds
between them. -/
theorem length_le_seconds {a b : Int} {ts : List WallTime}
    (hsorted : ts.Pairwise fun s t => s.ticks < t.ticks)
    (hwhole : ∀ t ∈ ts, t.ticks % Span.second = 0) (hbounds : ∀ t ∈ ts, a ≤ t.ticks ∧ t.ticks < b)
    (hb : b % Span.second = 0) (hab : a ≤ b) : (ts.length : Int) * Span.second ≤ b - a := by
  induction ts generalizing a with
  | nil =>
    rw [List.length_nil]
    omega
  | cons t rest ih =>
    obtain ⟨hfirst, hrest⟩ := List.pairwise_cons.mp hsorted
    have ht := hwhole t List.mem_cons_self
    obtain ⟨hlow, hhigh⟩ := hbounds t List.mem_cons_self
    rw [Span.second_eq] at *
    have hnext : t.ticks + 1000000 ≤ b := by omega
    have := ih hrest (fun s hs => hwhole s (List.mem_cons_of_mem _ hs))
      (fun s hs => ⟨by
        have := hfirst s hs
        have := hwhole s (List.mem_cons_of_mem _ hs)
        omega, (hbounds s (List.mem_cons_of_mem _ hs)).2⟩) hnext
    rw [List.length_cons]
    omega

end Rule

end ScanPolicy
