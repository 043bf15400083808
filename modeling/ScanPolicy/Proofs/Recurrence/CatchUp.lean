import ScanPolicy.Proofs.Recurrence.Layout
import ScanPolicy.Proofs.Recurrence.RunDates

/-!
# Runs that meet

A rule that is started at a later period, a whole number of intervals after its
first one, has the same dates from there on. The run from the first period does not
jump over the period that follows the later start: it reaches that period, or it
ends before.

- `Rule.baseOf_le`: the steps from a period before the later start do not begin
  behind those from the later start.
- `Rule.catchesUp`: the run from a period before the later start.
- `Rule.Meets`: how the ends of the two runs go together; `Rule.runs_meet`.
-/

namespace ScanPolicy

namespace Rule

/-! ## Days that are passed over -/

/-- The last number of the day in steps, as the steps are counted from it when the rest of
the day is passed over. -/
theorem lastOfDay_le {limit interval n m : Nat} (hlimit : 0 < limit) (hinterval : 0 < interval)
    (hmod : n % interval = m % interval) {sn sm : Bool} (hsame : n / limit = m / limit → sn = sm)
    (hle : n ≤ if sm then limit * (m / limit) + lastBefore limit interval (m % limit) else m) :
    (if sn then limit * (n / limit) + lastBefore limit interval (n % limit) else n) ≤
        (if sm then limit * (m / limit) + lastBefore limit interval (m % limit) else m) ∧
      (m < n → sn = true ∧ n / limit = m / limit) := by
  obtain ⟨hn₀, hn₁, hn₂, hn₃⟩ := lastBefore_spec hinterval (Nat.mod_lt n hlimit)
  obtain ⟨hm₀, hm₁, hm₂, hm₃⟩ := lastBefore_spec hinterval (Nat.mod_lt m hlimit)
  have hn := Nat.div_add_mod n limit
  have hm := Nat.div_add_mod m limit
  -- The day of `n` is not after the day of `m`.
  have hday : n / limit ≤ m / limit := by
    by_contra hlt
    have := Nat.mul_le_mul_left limit (Nat.lt_of_not_le hlt)
    rw [Nat.mul_succ] at this
    split at hle <;> omega
  have hlater : m < n → n / limit = m / limit := by
    intro hmn
    refine le_antisymm hday ?_
    by_contra hlt
    have := Nat.mul_le_mul_left limit (Nat.lt_of_not_le hlt)
    rw [Nat.mul_succ] at this
    omega
  refine ⟨?_, fun hmn => ?_⟩
  · cases sn with
    | false => exact hle
    | true =>
      rw [if_pos rfl]
      rcases Nat.eq_or_lt_of_le hday with heq | hlt
      · rw [if_pos (hsame heq).symm, heq]
        have hlast : (limit * (m / limit) + lastBefore limit interval (n % limit)) % interval =
            (limit * (m / limit) + lastBefore limit interval (m % limit)) % interval := by
          rw [Nat.add_mod, hn₃, ← Nat.add_mod, Nat.add_mod _ (lastBefore limit interval (m % limit)),
            hm₃, ← Nat.add_mod, hm, ← heq, hn, hmod]
        by_contra hgt
        obtain ⟨i, hi, hsteps⟩ := exists_steps (Nat.lt_of_not_le hgt) hlast
        have := Nat.mul_le_mul_right interval hi
        omega
      · have := Nat.mul_le_mul_left limit hlt
        rw [Nat.mul_succ] at this
        split <;> omega
  · refine ⟨?_, hlater hmn⟩
    cases sm with
    | false =>
      rw [if_neg Bool.false_ne_true] at hle
      omega
    | true => exact hsame (hlater hmn)

variable {r : Rule} {p q : Period} {isFirst isFirst' skips skips' : Bool} {dates dates' : Dates}

/-- Two periods of one day are passed over both or neither, and have no dates if they are. -/
theorem skips_of_day {f : Frequency} (hf : f.isSubDaily = true) (hp : p.Fits f) (hq : q.Fits f)
    (hday : ∀ weekStart, p.days weekStart = q.days weekStart)
    (h : r.dates p isFirst = .ok (dates, skips)) (h' : r.dates q isFirst' = .ok (dates', skips')) :
    skips = skips' ∧ (skips = true → dates = ⟨[], none⟩) := by
  obtain ⟨fp, tp, hfp, -, hdp⟩ := dates_eq_ok_iff.mp h
  obtain ⟨fq, tq, hfq, -, hdq⟩ := dates_eq_ok_iff.mp h'
  obtain ⟨d, hdays, hym⟩ : ∃ d, p.days r.weekStart = [d] ∧ p.yearMonth = q.yearMonth := by
    cases hp with
    | @hour d h hd hh =>
      cases hq with
      | @hour d' h' hd' hh' =>
        have : [d] = [d'] := hday r.weekStart
        cases this
        exact ⟨d, rfl, rfl⟩
    | @minute d h m hd hh hm =>
      cases hq with
      | @minute d' h' m' hd' hh' hm' =>
        have : [d] = [d'] := hday r.weekStart
        cases this
        exact ⟨d, rfl, rfl⟩
    | year => cases hf
    | month => cases hf
    | week => cases hf
    | day => cases hf
  rw [hym, hfq] at hfp
  cases hfp
  obtain ⟨hskip, hnone⟩ := datesIn_day (f := fp) hdays tp
  obtain ⟨hskip', -⟩ := datesIn_day (f := fp) (hday r.weekStart ▸ hdays) tq
  rw [hdp] at hskip hnone
  rw [hdq] at hskip'
  dsimp only at hskip hskip' hnone
  refine ⟨hskip.trans hskip'.symm, fun hs => hnone ?_⟩
  rw [hs] at hskip
  simpa using hskip.symm

/-- A period that does not come after the last one of the day of `q` is not followed by one
that comes after the one that follows `q`. -/
theorem baseOf_le (hr : r.IsComplete) (hp : p.Fits r.freq) (hq : q.Fits r.freq)
    (hmod : r.number p % r.interval = r.number q % r.interval)
    (hdates : r.dates p isFirst = .ok (dates, skips))
    (hdates' : r.dates q isFirst' = .ok (dates', skips'))
    (hle : r.number p ≤ r.freq.baseOf r.interval skips' (r.number q)) :
    r.freq.baseOf r.interval skips (r.number p) ≤ r.freq.baseOf r.interval skips' (r.number q) ∧
      (r.number q < r.number p → dates = ⟨[], none⟩) := by
  generalize hf : r.freq = f at *
  cases hp with
  | @hour d h hd hh =>
    cases hq with
    | @hour d' h' hd' hh' =>
      have hday : r.number (.hour d h) / 24 = r.number (.hour d' h') / 24 → d = d' := by
        show (24 * d + h) / 24 = (24 * d' + h') / 24 → d = d'
        omega
      have hskips : r.number (.hour d h) / 24 = r.number (.hour d' h') / 24 →
          skips = skips' ∧ (skips = true → dates = ⟨[], none⟩) := fun heq =>
        skips_of_day rfl (.hour hd hh) (.hour hd' hh') (fun _ => congrArg (fun d => [d]) (hday heq))
          hdates hdates'
      obtain ⟨hbase, hlater⟩ := lastOfDay_le (show 0 < 24 by decide) hr.interval_pos hmod
        (fun heq => (hskips heq).1) hle
      exact ⟨hbase, fun hlt => (hskips (hlater hlt).2).2 (hlater hlt).1⟩
  | @minute d h m hd hh hm =>
    cases hq with
    | @minute d' h' m' hd' hh' hm' =>
      have hday : r.number (.minute d h m) / 1440 = r.number (.minute d' h' m') / 1440 →
          d = d' := by
        show (1440 * d + 60 * h + m) / 1440 = (1440 * d' + 60 * h' + m') / 1440 → d = d'
        omega
      have hskips : r.number (.minute d h m) / 1440 = r.number (.minute d' h' m') / 1440 →
          skips = skips' ∧ (skips = true → dates = ⟨[], none⟩) := fun heq =>
        skips_of_day rfl (.minute hd hh hm) (.minute hd' hh' hm')
          (fun _ => congrArg (fun d => [d]) (hday heq)) hdates hdates'
      obtain ⟨hbase, hlater⟩ := lastOfDay_le (show 0 < 1440 by decide) hr.interval_pos hmod
        (fun heq => (hskips heq).1) hle
      exact ⟨hbase, fun hlt => (hskips (hlater hlt).2).2 (hlater hlt).1⟩
  | year => exact ⟨hle, fun hlt => absurd hle (not_le.mpr hlt)⟩
  | month => exact ⟨hle, fun hlt => absurd hle (not_le.mpr hlt)⟩
  | week => exact ⟨hle, fun hlt => absurd hle (not_le.mpr hlt)⟩
  | day => exact ⟨hle, fun hlt => absurd hle (not_le.mpr hlt)⟩

/-! ## Catching up -/

/-- The allowed numbers repeat every day. -/
theorem allowedNumber_add (x y : Nat) : r.AllowedNumber (x + 1440 * y) ↔ r.AllowedNumber x := by
  unfold AllowedNumber
  cases r.freq with
  | hourly =>
    have hmod : (x + 1440 * y) % 24 = x % 24 := by omega
    show allows r.hours ((x + 1440 * y) % 24) = true ↔ _
    rw [hmod]
    rfl
  | minutely =>
    have hmod : (x + 1440 * y) % 60 = x % 60 := by omega
    have hdiv : (x + 1440 * y) / 60 % 24 = x / 60 % 24 := by omega
    show allows r.hours ((x + 1440 * y) / 60 % 24) = true ∧
      allows r.minutes ((x + 1440 * y) % 60) = true ↔ _
    rw [hmod, hdiv]
    rfl
  | yearly => rfl
  | monthly => rfl
  | weekly => rfl
  | daily => rfl

/-- If no later number is allowed, then no number in these steps is. -/
theorem not_allowedNumber_of_never {n x : Nat} (hinterval : 0 < r.interval)
    (h : IsNever r.AllowedNumber r.interval n) (hmod : x % r.interval = n % r.interval) :
    ¬ r.AllowedNumber x := by
  intro hx
  have hlater : n < x + 1440 * (r.interval * (n + 1)) := by
    have := Nat.mul_le_mul_right (n + 1) hinterval
    omega
  refine h _ hlater ?_ ((allowedNumber_add x _).mpr hx)
  rw [Nat.mul_left_comm, Nat.add_mul_mod_self_left, hmod]

/-- How a run goes on after the period that was to be caught up with. -/
def GoesOn (r : Rule) (next : Following Period) (late : List WallTime) (fault : Option Fault) :
    Prop :=
  match next with
  | .more t => ∃ cost, r.Run cost t false late fault
  | .done => late = [] ∧ fault = none
  | .failed _ => False

/-- Dates in periods up to the one with a number. -/
def UpTo (r : Rule) (n : Nat) (ts : List WallTime) : Prop :=
  ∀ t ∈ ts, ∃ m, m ≤ n ∧ r.freq.Spans r.weekStart m t.ticks

theorem UpTo.append {n : Nat} {ts us : List WallTime} (hts : r.UpTo n ts) (hus : r.UpTo n us) :
    r.UpTo n (ts ++ us) := by
  intro t ht
  rcases List.mem_append.mp ht with ht | ht
  · exact hts t ht
  · exact hus t ht

/-- The dates of a period that is to catch up with `q`. -/
theorem upTo_of_dates (hr : r.IsComplete) (hp : p.Fits r.freq)
    (hdates : r.dates p isFirst = .ok (dates, skips))
    (hnone : r.number q < r.number p → dates = ⟨[], none⟩) : r.UpTo (r.number q) dates.times := by
  intro t ht
  rcases Nat.lt_or_ge (r.number q) (r.number p) with hlt | hle
  · rw [hnone hlt] at ht
    cases ht
  · exact ⟨r.number p, hle, (dates_spec hr hp hdates).spans t ht⟩

/-- The run from a period before `q`, a whole number of intervals away, goes on as the run
from `q` does, unless it breaks off before. -/
theorem catchesUp (hr : r.IsComplete) (hq : q.Fits r.freq)
    (hdates' : r.dates q isFirst' = .ok (dates', skips')) {cost : Nat} {ts : List WallTime}
    {fault : Option Fault} (h : r.Run cost p isFirst ts fault) (hp : p.Fits r.freq)
    (hmod : r.number p % r.interval = r.number q % r.interval)
    (hle : r.number p ≤ r.freq.baseOf r.interval skips' (r.number q)) :
    ∃ early late, ts = early ++ late ∧ r.UpTo (r.number q) early ∧
      ((late = [] ∧ ∃ e, fault = some e) ∨ r.GoesOn (r.nextPeriod skips' q) late fault) := by
  have hinterval := hr.interval_pos
  have hqmod := (r.freq.baseOf_spec hinterval skips' (r.number q)).2
  have hqspec : Follows r (r.freq.baseOf r.interval skips' (r.number q)) (r.nextPeriod skips' q) :=
    nextPeriod_spec hr hq skips'
  -- A period that follows is one that the run from `q` has too, or it comes before that.
  induction h with
  | noDates => exact ⟨[], [], rfl, fun t ht => (nomatch ht), .inl ⟨rfl, _, rfl⟩⟩
  | @broken p isFirst skips times e hdates =>
    obtain ⟨-, hnone⟩ := baseOf_le hr hp hq hmod hdates hdates' hle
    exact ⟨times, [], (List.append_nil _).symm, upTo_of_dates hr hp hdates hnone, .inl ⟨rfl, _, rfl⟩⟩
  | @stuck p isFirst skips times e hdates hnext =>
    obtain ⟨-, hnone⟩ := baseOf_le hr hp hq hmod hdates hdates' hle
    exact ⟨times, [], (List.append_nil _).symm, upTo_of_dates hr hp hdates hnone, .inl ⟨rfl, _, rfl⟩⟩
  | @ended p isFirst skips times hdates hnext =>
    obtain ⟨hbase, hnone⟩ := baseOf_le hr hp hq hmod hdates hdates' hle
    refine ⟨times, [], (List.append_nil _).symm, upTo_of_dates hr hp hdates hnone, .inr ?_⟩
    cases hqnext : r.nextPeriod skips' q with
    | more t =>
      obtain ⟨ht, hM, -⟩ := nextPeriod_more hr hq hqnext
      exact absurd hnext (nextPeriod_ne_done hr hp ht hM.allowed
        (hM.mod_eq.trans (hqmod.trans hmod.symm)) (lt_of_le_of_lt hbase hM.lt))
    | done => exact ⟨rfl, rfl⟩
    | failed e =>
      have hpmod := (r.freq.baseOf_spec hinterval skips (r.number p)).2
      have hspec : Follows r (r.freq.baseOf r.interval skips (r.number p)) (r.nextPeriod skips p) :=
        nextPeriod_spec hr hp skips
      rw [hnext] at hspec
      rw [hqnext] at hqspec
      cases hqspec with
      | failed hnever =>
        cases hspec with
        | @done m hm hout =>
          refine absurd hm.allowed (not_allowedNumber_of_never hinterval hnever ?_)
          exact hm.mod_eq.trans (hpmod.trans (hmod.trans hqmod.symm))
  | @more p p' isFirst skips times later cost fault hdates hnext rest ih =>
    obtain ⟨hbase, hnone⟩ := baseOf_le hr hp hq hmod hdates hdates' hle
    have hupTo := upTo_of_dates hr hp hdates hnone
    have hpmod := (r.freq.baseOf_spec hinterval skips (r.number p)).2
    obtain ⟨hp', hm, hp'eq⟩ := nextPeriod_more hr hp hnext
    have hmod' : r.number p' % r.interval = r.number q % r.interval :=
      hm.mod_eq.trans (hpmod.trans hmod)
    have hgo : r.number p' ≤ r.freq.baseOf r.interval skips' (r.number q) →
        ∃ early late, times ++ later = early ++ late ∧ r.UpTo (r.number q) early ∧
          ((late = [] ∧ ∃ e, fault = some e) ∨ r.GoesOn (r.nextPeriod skips' q) late fault) := by
      intro hle'
      obtain ⟨early, late, heq, hearly, hlate⟩ := ih hp' hmod' hle'
      exact ⟨times ++ early, late, by rw [heq, List.append_assoc], hupTo.append hearly, hlate⟩
    cases hqnext : r.nextPeriod skips' q with
    | more t =>
      rw [hqnext] at hgo
      obtain ⟨ht, hM, hteq⟩ := nextPeriod_more hr hq hqnext
      have hmM := hm.least (r.number t) (lt_of_le_of_lt hbase hM.lt)
        (hM.mod_eq.trans (hqmod.trans (hmod.symm.trans hpmod.symm))) hM.allowed
      rcases Nat.eq_or_lt_of_le hmM with heq | hlt
      · refine ⟨times, later, rfl, hupTo, .inr ⟨cost, ?_⟩⟩
        rwa [hteq, ← heq, ← hp'eq]
      · refine hgo ?_
        by_contra hgt
        exact absurd (hM.least _ (Nat.lt_of_not_le hgt) (hmod'.trans hqmod.symm) hm.allowed)
          (Nat.not_le.mpr hlt)
    | done =>
      rw [hqnext] at hgo hqspec
      refine hgo ?_
      cases hqspec with
      | @done M hM hout =>
        by_contra hgt
        have hle' := hM.least _ (Nat.lt_of_not_le hgt) (hmod'.trans hqmod.symm) hm.allowed
        have hfirst : r.freq.firstNumber ≤ M :=
          hq.firstNumber_le.trans ((r.freq.baseOf_spec hinterval skips' (r.number q)).1.trans hM.lt.le)
        have hstart := r.freq.startOf_mono r.weekStart hfirst hle'
        have hin : r.freq.startOf r.weekStart (r.number p') < (Calendar.dayCount : Int) * Span.day :=
          hp'.start_lt hr.weekStart_lt
        omega
    | failed e =>
      rw [hqnext] at hqspec
      cases hqspec with
      | failed hnever =>
        exact absurd hm.allowed (not_allowedNumber_of_never hinterval hnever
          (hmod'.trans hqmod.symm))

end Rule

end ScanPolicy
