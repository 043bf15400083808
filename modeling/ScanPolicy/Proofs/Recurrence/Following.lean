import ScanPolicy.Proofs.Recurrence.Completion
import ScanPolicy.Proofs.Recurrence.Number

/-!
# The next period

The period that follows one is the first period after it, counted in steps of the
interval, in which the hour and the minute are allowed. If the day of a period is
passed over, the steps are counted from the last period of the day.

- `IsNext`, `IsNever`: the first number after one, in steps of a fixed length, that
  is allowed, or that there is none.
- `Rule.turn_spec`, `Rule.nextMinute_spec`: what the dials of the hours and of the
  minutes find.
- `Rule.nextPeriod_spec`: what follows a period.
-/

namespace ScanPolicy

/-! ## Steps of a fixed length -/

/-- `m` is the first allowed number after `n` in steps of a fixed length. -/
structure IsNext (P : Nat → Prop) (step n m : Nat) : Prop where
  lt : n < m
  mod_eq : m % step = n % step
  allowed : P m
  least : ∀ x, n < x → x % step = n % step → P x → m ≤ x

/-- No number after `n` in steps of a fixed length is allowed. -/
def IsNever (P : Nat → Prop) (step n : Nat) : Prop :=
  ∀ x, n < x → x % step = n % step → ¬ P x

/-- A number that is reached in steps is a multiple of the steps away. -/
theorem exists_steps {step n x : Nat} (hlt : n < x) (hmod : x % step = n % step) :
    ∃ i, 1 ≤ i ∧ x = n + i * step := by
  have hn := Nat.div_add_mod' n step
  have hx := Nat.div_add_mod' x step
  have hdiv : n / step < x / step := by
    by_contra hle
    have := Nat.mul_le_mul_right step (Nat.le_of_not_lt hle)
    omega
  refine ⟨x / step - n / step, by omega, ?_⟩
  rw [Nat.sub_mul]
  have := Nat.mul_le_mul_right step hdiv.le
  omega

section Steps

variable {P : Nat → Prop} {step n m : Nat}

theorem IsNext.unique {l : Nat} (hm : IsNext P step n m) (hl : IsNext P step n l) : m = l :=
  le_antisymm (hm.least l hl.lt hl.mod_eq hl.allowed) (hl.least m hm.lt hm.mod_eq hm.allowed)

theorem isNext_step (hstep : 0 < step) (h : P (n + step)) : IsNext P step n (n + step) := by
  refine ⟨by omega, Nat.add_mod_right n step, h, fun x hlt hmod _ => ?_⟩
  obtain ⟨i, hi, rfl⟩ := exists_steps hlt hmod
  have := Nat.mul_le_mul_right step hi
  omega

/-- Numbers that are not allowed may be left out. -/
theorem IsNext.of_later {l : Nat} (h : IsNext P step l m) (hlt : n < l)
    (hmod : l % step = n % step) (hnone : ∀ x, n < x → x ≤ l → x % step = n % step → ¬ P x) :
    IsNext P step n m := by
  refine ⟨hlt.trans h.lt, h.mod_eq.trans hmod, h.allowed, fun x hx hxmod hP => ?_⟩
  rcases Nat.lt_or_ge l x with hlx | hxl
  · exact h.least x hlx (hxmod.trans hmod.symm) hP
  · exact absurd hP (hnone x hx hxl hxmod)

/-- Counting from another number changes nothing. -/
theorem IsNext.shift {Q : Nat → Prop} (h : IsNext Q step n m) (c : Nat)
    (hPQ : ∀ x, P (c + x) ↔ Q x) : IsNext P step (c + n) (c + m) := by
  obtain ⟨i, hi, hm⟩ := exists_steps h.lt h.mod_eq
  refine ⟨by have := h.lt; omega, ?_, (hPQ m).mpr h.allowed, fun x hx hmod hP => ?_⟩
  · rw [hm, ← Nat.add_assoc]
    exact Nat.add_mul_mod_self_right (c + n) i step
  · obtain ⟨j, hj, rfl⟩ := exists_steps hx hmod
    rw [Nat.add_assoc] at hP
    have := h.least (n + j * step) (by omega) (Nat.add_mul_mod_self_right n j step) ((hPQ _).mp hP)
    omega

theorem IsNever.shift {Q : Nat → Prop} (h : IsNever Q step n) (c : Nat)
    (hPQ : ∀ x, P (c + x) ↔ Q x) : IsNever P step (c + n) := by
  intro x hx hmod hP
  obtain ⟨j, hj, rfl⟩ := exists_steps hx hmod
  rw [Nat.add_assoc] at hP
  exact h (n + j * step) (by omega) (Nat.add_mul_mod_self_right n j step) ((hPQ _).mp hP)

/-- If the allowed numbers repeat, then it is enough to look at one period of them. -/
theorem isNever_of_period {k : Nat} (hk : 0 < k) (hperiod : ∀ x, P (x + k * step) → P x)
    (h : ∀ i, 1 ≤ i → i ≤ k → ¬ P (n + i * step)) : IsNever P step n := by
  have hall : ∀ i, 1 ≤ i → ¬ P (n + i * step) := by
    intro i
    induction i using Nat.strong_induction_on with
    | _ i ih =>
      intro hi hP
      rcases Nat.lt_or_ge k i with hki | hik
      · refine ih (i - k) (by omega) (by omega) (hperiod _ ?_)
        rw [Nat.add_assoc, ← Nat.add_mul, Nat.sub_add_cancel hki.le]
        exact hP
      · exact h i hi hik hP
  intro x hx hmod
  obtain ⟨i, hi, rfl⟩ := exists_steps hx hmod
  exact hall i hi

end Steps

namespace Rule

/-! ## Dials -/

/-- Whether the value that a dial of `base` shows at a number is allowed. -/
def AllowedOn (values : List Int) (base x : Nat) : Prop := allows values (x % base) = true

theorem turnTo_spec {values : List Int} (hvalues : values.isEmpty = false) {interval base : Nat}
    (hinterval : 0 < interval) (hbase : 0 < base) (fuel : Nat) {turns value n : Nat}
    (hn : turns * base + value = n) :
    (∃ m, turnTo values interval base fuel turns value = some (m / base, m % base) ∧
        IsNext (AllowedOn values base) interval n m) ∨
      (turnTo values interval base fuel turns value = none ∧
        ∀ i, 1 ≤ i → i ≤ fuel → ¬ AllowedOn values base (n + i * interval)) := by
  induction fuel generalizing turns value n with
  | zero => exact .inr ⟨rfl, fun i hi hi' => by omega⟩
  | succ fuel ih =>
    have hsum : (turns + (value + interval) / base) * base + (value + interval) % base =
        n + interval := by
      have := Nat.div_add_mod' (value + interval) base
      rw [Nat.add_mul]
      omega
    have hmod : (value + interval) % base = (n + interval) % base := by
      rw [← hsum, Nat.add_comm _ ((value + interval) % base), Nat.add_mul_mod_self_right,
        Nat.mod_mod]
    have hdiv : turns + (value + interval) / base = (n + interval) / base := by
      rw [← hsum, Nat.add_comm _ ((value + interval) % base), Nat.add_mul_div_right _ _ hbase,
        Nat.div_eq_of_lt (Nat.mod_lt _ hbase), Nat.zero_add]
    unfold turnTo
    dsimp only
    by_cases hallowed : values.contains (((value + interval) % base : Nat) : Int) = true
    · rw [if_pos hallowed]
      refine .inl ⟨n + interval, by rw [hmod, hdiv], isNext_step hinterval ?_⟩
      unfold AllowedOn allows
      rw [hvalues, Bool.false_or, ← hmod]
      exact hallowed
    · rw [if_neg hallowed]
      have hnot : ¬ AllowedOn values base (n + interval) := by
        unfold AllowedOn allows
        rw [hvalues, Bool.false_or, ← hmod]
        exact hallowed
      rcases ih hsum with ⟨m, hm, hnext⟩ | ⟨hnone, hnever⟩
      · refine .inl ⟨m, hm, hnext.of_later (by omega) (Nat.add_mod_right n interval) ?_⟩
        intro x hx hxle hxmod
        obtain ⟨i, hi, rfl⟩ := exists_steps hx hxmod
        have hone : i = 1 := by
          by_contra hne
          have := Nat.mul_le_mul_right interval (show 2 ≤ i by omega)
          omega
        rw [hone, Nat.one_mul]
        exact hnot
      · refine .inr ⟨hnone, fun i hi hi' => ?_⟩
        rcases Nat.eq_or_lt_of_le hi with rfl | hlt
        · rw [Nat.one_mul]
          exact hnot
        · have := hnever (i - 1) (by omega) (by omega)
          have hsucc : n + interval + (i - 1) * interval = n + i * interval := by
            rw [Nat.add_assoc, Nat.add_comm interval, ← Nat.succ_mul]
            congr 2
            omega
          rwa [hsucc] at this

/-- The next allowed value of a dial. -/
theorem turn_spec (values : List Int) {interval base : Nat} (hinterval : 0 < interval)
    (hbase : 0 < base) (n : Nat) :
    (∃ m, turn values interval base n = some (m / base, m % base) ∧
        IsNext (AllowedOn values base) interval n m) ∨
      (turn values interval base n = none ∧ IsNever (AllowedOn values base) interval n) := by
  unfold turn
  by_cases hvalues : values.isEmpty = true
  · rw [if_pos hvalues]
    refine .inl ⟨n + interval, rfl, isNext_step hinterval ?_⟩
    unfold AllowedOn allows
    rw [hvalues, Bool.true_or]
  · rw [if_neg hvalues]
    rcases turnTo_spec (Bool.eq_false_iff.mpr hvalues) hinterval hbase base
      (show 0 * base + n = n by omega) with hnext | ⟨hnone, hnever⟩
    · exact .inl hnext
    · refine .inr ⟨hnone, isNever_of_period hbase (fun x hx => ?_) hnever⟩
      unfold AllowedOn at hx
      rwa [Nat.mul_comm, Nat.add_mul_mod_self_right] at hx

/-- Whether the hour and the minute of a minute, counted from a midnight, are allowed. -/
def AllowedMinute (r : Rule) (x : Nat) : Prop :=
  allows r.hours (x / 60 % 24) = true ∧ allows r.minutes (x % 60) = true

section Minutes

variable {r : Rule}

/-- The next allowed minute in an allowed hour, or none within as many minutes that are
allowed. -/
theorem nextMinute_spec (hinterval : 0 < r.interval) (fuel : Nat) {days hour minute n : Nat}
    (hn : 1440 * days + 60 * hour + minute = n) :
    (∃ m, r.nextMinute fuel days hour minute = .ok (m / 1440, m / 60 % 24, m % 60) ∧
        IsNext r.AllowedMinute r.interval n m) ∨
      ((∃ e, r.nextMinute fuel days hour minute = .error e) ∧
        (IsNever r.AllowedMinute r.interval n ∨
          ∀ i, 1 ≤ i → i ≤ fuel → ¬ r.AllowedMinute (n + i * r.interval))) := by
  induction fuel generalizing days hour minute n with
  | zero => exact .inr ⟨⟨_, rfl⟩, .inr fun i hi hi' => by omega⟩
  | succ fuel ih =>
    unfold nextMinute
    rcases turn_spec r.minutes hinterval (show 0 < 60 by decide) minute with
      ⟨m, hm, hnext⟩ | ⟨hnone, hnever⟩
    · rw [hm]
      dsimp only
      -- The minute that the dial shows next, counted from the same midnight as `n`.
      obtain ⟨i, hi, hsteps⟩ := exists_steps hnext.lt hnext.mod_eq
      have hlater : 1440 * (days + (hour + m / 60) / 24) + 60 * ((hour + m / 60) % 24) + m % 60 =
          n + i * r.interval := by omega
      have hbefore : ∀ x, n < x → x < n + i * r.interval → x % r.interval = n % r.interval →
          ¬ r.AllowedMinute x := by
        intro x hx hxlt hxmod hallowed
        obtain ⟨j, hj, rfl⟩ := exists_steps hx hxmod
        have hle := hnext.least (minute + j * r.interval) (by omega)
          (Nat.add_mul_mod_self_right minute j r.interval) (by
            have hmod : (n + j * r.interval) % 60 = (minute + j * r.interval) % 60 := by omega
            unfold AllowedOn
            rw [← hmod]
            exact hallowed.2)
        omega
      have hhour : (n + i * r.interval) / 60 % 24 = (hour + m / 60) % 24 := by omega
      have hminute : (n + i * r.interval) % 60 = m % 60 := by omega
      have hfirst : n < n + i * r.interval := by
        have := hnext.lt
        omega
      by_cases hallowed : allows r.hours ((hour + m / 60) % 24) = true
      · rw [if_pos hallowed]
        refine .inl ⟨n + i * r.interval, ?_, hfirst, Nat.add_mul_mod_self_right n i r.interval,
          ⟨hhour ▸ hallowed, ?_⟩, fun x hx hxmod hP => ?_⟩
        · rw [hhour, hminute]
          congr 2
          omega
        · rw [hminute]
          exact hnext.allowed
        · by_contra hlt
          exact hbefore x hx (Nat.lt_of_not_le hlt) hxmod hP
      · rw [if_neg hallowed]
        have hupto : ∀ x, n < x → x ≤ n + i * r.interval → x % r.interval = n % r.interval →
            ¬ r.AllowedMinute x := by
          intro x hx hxle hxmod hP
          rcases Nat.eq_or_lt_of_le hxle with rfl | hxlt
          · exact hallowed (hhour ▸ hP.1)
          · exact hbefore x hx hxlt hxmod hP
        rcases ih hlater with ⟨l, hl, hlnext⟩ | ⟨hfail, hnone⟩
        · exact .inl ⟨l, hl, hlnext.of_later hfirst (Nat.add_mul_mod_self_right n i r.interval) hupto⟩
        · refine .inr ⟨hfail, hnone.imp (fun hnever x hx hxmod => ?_) fun hnone j hj hj' => ?_⟩
          · rcases Nat.lt_or_ge (n + i * r.interval) x with hlt | hge
            · exact hnever x hlt (hxmod.trans (Nat.add_mul_mod_self_right n i r.interval).symm)
            · exact hupto x hx hge hxmod
          · rcases Nat.lt_or_ge i j with hij | hji
            · have := hnone (j - i) (by omega) (by omega)
              rwa [Nat.add_assoc, ← Nat.add_mul, Nat.add_sub_cancel' hij.le] at this
            · have hmul := Nat.mul_le_mul_right r.interval hji
              have hpos := Nat.mul_le_mul_right r.interval hj
              exact hupto _ (by omega) (by omega) (Nat.add_mul_mod_self_right n j r.interval)
    · rw [hnone]
      refine .inr ⟨⟨_, rfl⟩, .inl fun x hx hxmod hP => ?_⟩
      obtain ⟨i, hi, rfl⟩ := exists_steps hx hxmod
      have hmul := Nat.mul_le_mul_right r.interval hi
      refine hnever (minute + i * r.interval) (by omega)
        (Nat.add_mul_mod_self_right minute i r.interval) ?_
      have hmod : (n + i * r.interval) % 60 = (minute + i * r.interval) % 60 := by omega
      unfold AllowedOn
      rw [← hmod]
      exact hP.2

/-- If no minute is found within a day's worth of steps, then none is allowed. -/
theorem nextMinute_day_spec (hinterval : 0 < r.interval) {hour minute n : Nat}
    (hn : 60 * hour + minute = n) :
    (∃ m, r.nextMinute (1440 / Nat.gcd r.interval 1440) 0 hour minute =
        .ok (m / 1440, m / 60 % 24, m % 60) ∧ IsNext r.AllowedMinute r.interval n m) ∨
      ((∃ e, r.nextMinute (1440 / Nat.gcd r.interval 1440) 0 hour minute = .error e) ∧
        IsNever r.AllowedMinute r.interval n) := by
  rcases nextMinute_spec hinterval (1440 / Nat.gcd r.interval 1440)
    (show 1440 * 0 + 60 * hour + minute = n by omega) with hnext | ⟨hfail, hnever | hnone⟩
  · exact .inl hnext
  · exact .inr ⟨hfail, hnever⟩
  · refine .inr ⟨hfail, isNever_of_period ?_ (fun x hx => ?_) hnone⟩
    · exact Nat.div_pos (Nat.gcd_le_right _ (by decide)) (Nat.gcd_pos_of_pos_left _ hinterval)
    · obtain ⟨q, hq⟩ := Nat.gcd_dvd_left r.interval 1440
      have hturns : 1440 / Nat.gcd r.interval 1440 * r.interval = 1440 * q := by
        refine (congrArg (1440 / Nat.gcd r.interval 1440 * ·) hq).trans ?_
        rw [← Nat.mul_assoc, Nat.div_mul_cancel (Nat.gcd_dvd_right _ _)]
      rw [hturns] at hx
      obtain ⟨hhour, hminute⟩ := hx
      refine ⟨?_, ?_⟩
      · have : (x + 1440 * q) / 60 % 24 = x / 60 % 24 := by omega
        rwa [this] at hhour
      · have : (x + 1440 * q) % 60 = x % 60 := by omega
        rwa [this] at hminute

end Minutes

end Rule

/-! ## Numbers that follow -/

namespace Frequency

/-- The number from which the steps to the next period are counted: the last one of the
day if the rest of the day is passed over. -/
def baseOf (f : Frequency) (interval : Nat) (skips : Bool) (n : Nat) : Nat :=
  match f with
  | hourly => if skips then 24 * (n / 24) + Rule.lastBefore 24 interval (n % 24) else n
  | minutely => if skips then 1440 * (n / 1440) + Rule.lastBefore 1440 interval (n % 1440) else n
  | _ => n

theorem baseOf_of_not_isSubDaily {f : Frequency} (h : f.isSubDaily = false) (interval : Nat)
    (skips : Bool) (n : Nat) : f.baseOf interval skips n = n := by
  cases f <;> first | rfl | cases h

/-- Weekdays are numbered in periods that are longer than a day. -/
theorem isSubDaily_of_numbersWeekdays {f : Frequency} (h : f.numbersWeekdays = true) :
    f.isSubDaily = false := by
  cases f <;> first | rfl | cases h

end Frequency

namespace Period

/-- The period with a number; a week is a whole one. -/
def ofNumber (f : Frequency) (weekStart n : Nat) : Period :=
  match f with
  | .yearly => year n
  | .monthly => month (n / 12) (n % 12 + 1)
  | .weekly => week (7 * n + weekStart - 7)
  | .daily => day n
  | .hourly => hour (n / 24) (n % 24)
  | .minutely => minute (n / 1440) (n / 60 % 24) (n % 60)

end Period

namespace Rule

/-- Whether the hour and the minute of the period with a number are allowed, for periods
that have them. -/
def AllowedNumber (r : Rule) (n : Nat) : Prop :=
  match r.freq with
  | .hourly => AllowedOn r.hours 24 n
  | .minutely => r.AllowedMinute n
  | _ => True

/-- What comes after a period: the period with the next allowed number, unless it is
beyond the calendar; or a fault, if no number is allowed. -/
inductive Follows (r : Rule) (n : Nat) : Following Period → Prop
  | more {m : Nat} (hnext : IsNext r.AllowedNumber r.interval n m)
      (hin : r.freq.startOf r.weekStart m < (Calendar.dayCount : Int) * Span.day) :
      Follows r n (.more (Period.ofNumber r.freq r.weekStart m))
  | done {m : Nat} (hnext : IsNext r.AllowedNumber r.interval n m)
      (hout : (Calendar.dayCount : Int) * Span.day ≤ r.freq.startOf r.weekStart m) :
      Follows r n .done
  | failed {e : Fault} (hnever : IsNever r.AllowedNumber r.interval n) : Follows r n (.failed e)

theorem lastBefore_spec {limit interval value : Nat} (hinterval : 0 < interval)
    (hvalue : value < limit) : value ≤ lastBefore limit interval value ∧
      lastBefore limit interval value < limit ∧
      limit ≤ lastBefore limit interval value + interval ∧
      lastBefore limit interval value % interval = value % interval := by
  unfold lastBefore
  have hsteps := Nat.div_add_mod' (limit - 1 - value) interval
  have hlt := Nat.mod_lt (limit - 1 - value) hinterval
  exact ⟨by omega, by omega, by omega, Nat.add_mul_mod_self_right _ _ _⟩

section Following

variable {r : Rule} {p : Period}

/-- Periods of a day or longer are all allowed. -/
theorem allowedNumber_of_not_isSubDaily (h : r.freq.isSubDaily = false) (n : Nat) :
    r.AllowedNumber n := by
  unfold AllowedNumber
  cases hf : r.freq <;> first | trivial | (rw [hf] at h; cases h)

/-- The next period of a day or longer is a step away. -/
theorem follows_of_not_isSubDaily (hinterval : 0 < r.interval)
    (hlong : r.freq.isSubDaily = false) {n : Nat} {next : Following Period} (h : next =
      if r.freq.startOf r.weekStart (n + r.interval) < (Calendar.dayCount : Int) * Span.day then
        .more (Period.ofNumber r.freq r.weekStart (n + r.interval))
      else .done) : Follows r n next := by
  have hnext := isNext_step hinterval (allowedNumber_of_not_isSubDaily hlong (n + r.interval))
  rw [h]
  split
  · next hin => exact .more hnext hin
  · next hout => exact .done hnext (not_lt.mp hout)

/-- What comes after an hour. -/
theorem follows_hour (hinterval : 0 < r.interval) (hf : r.freq = .hourly) (d : Nat) {h : Nat}
    (hh : h < 24) (skips : Bool) :
    Follows r (r.freq.baseOf r.interval skips ((Period.hour d h).number r.weekStart))
      (r.nextPeriod skips (.hour d h)) := by
  -- The hour of the day from which the dial is turned.
  obtain ⟨h₀, hh₀⟩ : ∃ h₀, h₀ = if skips then lastBefore 24 r.interval h else h := ⟨_, rfl⟩
  have hbase : Frequency.hourly.baseOf r.interval skips ((Period.hour d h).number r.weekStart) =
      24 * d + h₀ := by
    have hmod : (24 * d + h) % 24 = h := by omega
    have hdiv : (24 * d + h) / 24 = d := by omega
    simp only [Frequency.baseOf, Period.number, hmod, hdiv, hh₀]
    split <;> rfl
  have hallowed : ∀ x, r.AllowedNumber (24 * d + x) ↔ AllowedOn r.hours 24 x := by
    intro x
    unfold AllowedNumber
    rw [hf]
    have hmod : (24 * d + x) % 24 = x % 24 := by omega
    show allows r.hours ((24 * d + x) % 24) = true ↔ _
    rw [hmod]
    rfl
  rw [hf, hbase]
  unfold nextPeriod
  dsimp only
  rw [← hh₀]
  rcases turn_spec r.hours hinterval (show 0 < 24 by decide) h₀ with
    ⟨m, hm, hnext⟩ | ⟨hnone, hnever⟩
  · rw [hm]
    have hnext := hnext.shift (24 * d) hallowed
    have hday : (24 * d + m) / 24 = d + m / 24 := by omega
    have hhour : (24 * d + m) % 24 = m % 24 := by omega
    have hstart : r.freq.startOf r.weekStart (24 * d + m) = ((24 * d + m : Nat) : Int) * Span.hour := by
      rw [hf]
      rfl
    show Follows r _ (if d + m / 24 < Calendar.dayCount then .more _ else .done)
    split
    · next hin =>
      have hperiod : Period.hour (d + m / 24) (m % 24) =
          Period.ofNumber r.freq r.weekStart (24 * d + m) := by
        rw [hf, Period.ofNumber, hday, hhour]
      show Follows r _ (.more (Period.hour (d + m / 24) (m % 24)))
      rw [hperiod]
      refine .more hnext ?_
      rw [hstart, Span.hour_eq, Span.day_eq]
      omega
    · next hout =>
      refine .done hnext ?_
      rw [hstart, Span.hour_eq, Span.day_eq]
      omega
  · rw [hnone]
    exact .failed (hnever.shift (24 * d) hallowed)

/-- What comes after a minute. -/
theorem follows_minute (hinterval : 0 < r.interval) (hf : r.freq = .minutely) (d : Nat) {h m : Nat}
    (hh : h < 24) (hm : m < 60) (skips : Bool) :
    Follows r (r.freq.baseOf r.interval skips ((Period.minute d h m).number r.weekStart))
      (r.nextPeriod skips (.minute d h m)) := by
  -- The minute, counted from midnight, from which the dial is turned.
  obtain ⟨m₀, hm₀⟩ : ∃ m₀, m₀ = if skips then lastBefore 1440 r.interval (60 * h + m) - 60 * h else m :=
    ⟨_, rfl⟩
  have hlast := (lastBefore_spec hinterval (show 60 * h + m < 1440 by omega)).1
  have hbase : Frequency.minutely.baseOf r.interval skips
      ((Period.minute d h m).number r.weekStart) = 1440 * d + (60 * h + m₀) := by
    have hmod : (1440 * d + 60 * h + m) % 1440 = 60 * h + m := by omega
    have hdiv : (1440 * d + 60 * h + m) / 1440 = d := by omega
    simp only [Frequency.baseOf, Period.number, hmod, hdiv, hm₀]
    split <;> omega
  have hallowed : ∀ x, r.AllowedNumber (1440 * d + x) ↔ r.AllowedMinute x := by
    intro x
    unfold AllowedNumber
    rw [hf]
    have hmod : (1440 * d + x) % 60 = x % 60 := by omega
    have hdiv : (1440 * d + x) / 60 % 24 = x / 60 % 24 := by omega
    show allows r.hours ((1440 * d + x) / 60 % 24) = true ∧
      allows r.minutes ((1440 * d + x) % 60) = true ↔ _
    rw [hmod, hdiv]
    rfl
  rw [hf, hbase]
  unfold nextPeriod
  dsimp only
  rw [← hm₀]
  rcases nextMinute_day_spec hinterval (show 60 * h + m₀ = _ from rfl) with
    ⟨n, hn, hnext⟩ | ⟨⟨e, he⟩, hnever⟩
  · rw [hn]
    have hnext := hnext.shift (1440 * d) hallowed
    have hday : (1440 * d + n) / 1440 = d + n / 1440 := by omega
    have hhour : (1440 * d + n) / 60 % 24 = n / 60 % 24 := by omega
    have hminute : (1440 * d + n) % 60 = n % 60 := by omega
    have hstart : r.freq.startOf r.weekStart (1440 * d + n) =
        ((1440 * d + n : Nat) : Int) * Span.minute := by
      rw [hf]
      rfl
    show Follows r _ (if d + n / 1440 < Calendar.dayCount then .more _ else .done)
    split
    · next hin =>
      have hperiod : Period.minute (d + n / 1440) (n / 60 % 24) (n % 60) =
          Period.ofNumber r.freq r.weekStart (1440 * d + n) := by
        rw [hf, Period.ofNumber, hday, hhour, hminute]
      show Follows r _ (.more (Period.minute (d + n / 1440) (n / 60 % 24) (n % 60)))
      rw [hperiod]
      refine .more hnext ?_
      rw [hstart, Span.minute_eq, Span.day_eq]
      omega
    · next hout =>
      refine .done hnext ?_
      rw [hstart, Span.minute_eq, Span.day_eq]
      omega
  · rw [he]
    exact .failed (hnever.shift (1440 * d) hallowed)

/-- What comes after a period. -/
theorem nextPeriod_spec (hr : r.IsComplete) (hfits : p.Fits r.freq) (skips : Bool) :
    Follows r (r.freq.baseOf r.interval skips (p.number r.weekStart)) (r.nextPeriod skips p) := by
  have hinterval := hr.interval_pos
  have hweek := hr.weekStart_lt
  generalize hf : r.freq = f at hfits
  cases hfits with
  | @year y hpos hle =>
    refine follows_of_not_isSubDaily hinterval (by rw [hf]; rfl) ?_
    rw [hf]
    refine if_congr ?_ rfl rfl
    have hend := Calendar.daysBeforeYear_lastYear_succ
    show _ ↔ (Calendar.daysBeforeYear (y + r.interval) : Int) * Span.day < _
    rw [Span.day_eq]
    constructor
    · intro hin
      have := Calendar.daysBeforeYear_strictMono (show 1 ≤ y + r.interval by omega)
        (Nat.lt_add_one_of_le hin)
      omega
    · intro hin
      by_contra hout
      have := Calendar.daysBeforeYear_mono (show 1 ≤ Calendar.lastYear + 1 by decide)
        (show Calendar.lastYear + 1 ≤ y + r.interval by omega)
      omega
  | @month y m hpos hle hm hm' =>
    refine follows_of_not_isSubDaily hinterval (by rw [hf]; rfl) ?_
    rw [hf]
    refine if_congr ?_ rfl rfl
    have hend := Calendar.monthStart_end
    show (12 * y + (m - 1) + r.interval) / 12 ≤ Calendar.lastYear ↔
      (Calendar.monthStart (12 * y + (m - 1) + r.interval) : Int) * Span.day < _
    rw [Span.day_eq]
    constructor
    · intro hin
      have := Calendar.monthStart_strictMono (show 12 ≤ 12 * y + (m - 1) + r.interval by omega)
        (show 12 * y + (m - 1) + r.interval < 12 * (Calendar.lastYear + 1) by omega)
      omega
    · intro hin
      by_contra hout
      have := Calendar.monthStart_mono (show 12 ≤ 12 * (Calendar.lastYear + 1) by decide)
        (show 12 * (Calendar.lastYear + 1) ≤ 12 * y + (m - 1) + r.interval by omega)
      omega
  | @week d hd =>
    refine follows_of_not_isSubDaily hinterval (by rw [hf]; rfl) ?_
    rw [hf]
    have hday : d + 7 * r.interval - (Date.weekday d + 7 - r.weekStart) % 7 =
        7 * ((d + 7 - r.weekStart) / 7 + r.interval) + r.weekStart - 7 := by
      unfold Date.weekday
      omega
    show (if d + 7 * r.interval - (Date.weekday d + 7 - r.weekStart) % 7 < Calendar.dayCount then
      Following.more (Period.week (d + 7 * r.interval - (Date.weekday d + 7 - r.weekStart) % 7))
      else .done) = _
    rw [hday]
    refine if_congr ?_ rfl rfl
    show _ ↔ (7 * (((d + 7 - r.weekStart) / 7 + r.interval : Nat) : Int) + r.weekStart - 7) *
      Span.day < _
    rw [Span.day_eq]
    omega
  | @day d hd =>
    refine follows_of_not_isSubDaily hinterval (by rw [hf]; rfl) ?_
    rw [hf]
    refine if_congr ?_ rfl rfl
    show _ ↔ ((d + r.interval : Nat) : Int) * Span.day < _
    rw [Span.day_eq]
    omega
  | @hour d h hd hh =>
    rw [← hf]
    exact follows_hour hinterval hf d hh skips
  | @minute d h m hd hh hm =>
    rw [← hf]
    exact follows_minute hinterval hf d hh hm skips

end Following

end Rule

namespace Period

/-- The period with a number that starts within the calendar. -/
theorem ofNumber_spec {f : Frequency} {weekStart n : Nat} (hweek : weekStart < 7)
    (hfirst : f.firstNumber ≤ n) (hpos : 0 < n)
    (hin : f.startOf weekStart n < (Calendar.dayCount : Int) * Span.day) :
    (ofNumber f weekStart n).Fits f ∧ (ofNumber f weekStart n).number weekStart = n := by
  have hyear := Calendar.daysBeforeYear_lastYear_succ
  have hmonth := Calendar.monthStart_end
  cases f with
  | yearly =>
    refine ⟨.year hfirst ?_, rfl⟩
    by_contra hout
    have := Calendar.daysBeforeYear_mono (show 1 ≤ Calendar.lastYear + 1 by decide)
      (show Calendar.lastYear + 1 ≤ n by omega)
    simp only [Frequency.startOf] at hin
    rw [Span.day_eq] at hin
    omega
  | monthly =>
    have hfirst : 12 ≤ n := hfirst
    refine ⟨.month (by omega) ?_ (by omega) (by omega), ?_⟩
    · by_contra hout
      have := Calendar.monthStart_mono (show 12 ≤ 12 * (Calendar.lastYear + 1) by decide)
        (show 12 * (Calendar.lastYear + 1) ≤ n by omega)
      simp only [Frequency.startOf] at hin
      rw [Span.day_eq] at hin
      omega
    · simp only [ofNumber, number]
      omega
  | weekly =>
    simp only [Frequency.startOf] at hin
    rw [Span.day_eq] at hin
    refine ⟨.week (by omega), ?_⟩
    simp only [ofNumber, number]
    omega
  | daily =>
    simp only [Frequency.startOf] at hin
    rw [Span.day_eq] at hin
    exact ⟨.day (by omega), rfl⟩
  | hourly =>
    simp only [Frequency.startOf] at hin
    rw [Span.day_eq, Span.hour_eq] at hin
    refine ⟨.hour (by omega) (by omega), ?_⟩
    simp only [ofNumber, number]
    omega
  | minutely =>
    simp only [Frequency.startOf] at hin
    rw [Span.day_eq, Span.minute_eq] at hin
    refine ⟨.minute (by omega) (by omega) (by omega), ?_⟩
    simp only [ofNumber, number]
    omega

end Period

end ScanPolicy
