import ScanPolicy.Proofs.Outcome
import ScanPolicy.Proofs.Calendar.WallTime
import ScanPolicy.Recurrence.Rule

/-!
# Times of a day

The times of day with some hours, minutes and seconds come in order, each one once.

- `TimeOfDay.ticks`, `TimeOfDay.IsValid`: times of day as numbers.
- `Rule.timesOf_spec`: all times of day with some hours, minutes and seconds.
-/

namespace ScanPolicy

namespace TimeOfDay

/-- The microseconds from midnight to a time of day. -/
def ticks (t : TimeOfDay) : Int :=
  (t.hour : Int) * Span.hour + (t.minute : Int) * Span.minute + (t.second : Int) * Span.second

/-- A time that a clock can show. -/
structure IsValid (t : TimeOfDay) : Prop where
  hour_lt : t.hour < 24
  minute_lt : t.minute < 60
  second_lt : t.second < 60

theorem check_eq_ok_iff {h m s : Int} {t : TimeOfDay} :
    check h m s = .ok t ↔ t.IsValid ∧ (t.hour : Int) = h ∧ (t.minute : Int) = m ∧ (t.second : Int) = s := by
  unfold check isBeyondMachine machineMin machineMax
  constructor
  · intro hok
    split_ifs at hok with h₀ h₁ h₂ h₃
    cases hok
    simp only [Bool.or_eq_true, decide_eq_true_eq] at h₁ h₂ h₃
    refine ⟨⟨?_, ?_, ?_⟩, ?_, ?_, ?_⟩ <;> dsimp only <;> omega
  · rintro ⟨⟨hh, hm, hs⟩, rfl, rfl, rfl⟩
    simp only [Bool.or_eq_true, decide_eq_true_eq]
    rw [if_neg (by omega), if_neg (by omega), if_neg (by omega), if_neg (by omega)]
    rfl

theorem IsValid.ticks_bounds {t : TimeOfDay} (h : t.IsValid) : 0 ≤ t.ticks ∧ t.ticks < Span.day := by
  obtain ⟨hh, hm, hs⟩ := h
  unfold ticks
  rw [Span.hour_eq, Span.minute_eq, Span.second_eq, Span.day_eq]
  omega

/-- The time of a later second is later. -/
theorem IsValid.ticks_lt {a b : TimeOfDay} (ha : a.IsValid) (hb : b.IsValid)
    (h : a.hour < b.hour ∨ a.hour = b.hour ∧ (a.minute < b.minute ∨
      a.minute = b.minute ∧ a.second < b.second)) : a.ticks < b.ticks := by
  obtain ⟨hh, hm, hs⟩ := ha
  obtain ⟨hh', hm', hs'⟩ := hb
  unfold ticks
  rw [Span.hour_eq, Span.minute_eq, Span.second_eq]
  omega

end TimeOfDay

namespace Rule

/-- Rows of times that are computed from numbers in order make one row in order, if
the times of a later number are later. -/
theorem flatten_spec {P : Int → TimeOfDay → Prop} {f : Int → Except Fault (List TimeOfDay)}
    {xs : List Int} {rows : List (List TimeOfDay)} (h : xs.mapM f = .ok rows)
    (hxs : xs.Pairwise (· < ·))
    (hrow : ∀ x row, f x = .ok row → (row.Pairwise fun a b => a.ticks < b.ticks) ∧ ∀ t ∈ row, P x t)
    (hlt : ∀ x y a b, x < y → P x a → P y b → a.ticks < b.ticks) :
    (rows.flatten.Pairwise fun a b => a.ticks < b.ticks) ∧
      ∀ t ∈ rows.flatten, ∃ x ∈ xs, P x t := by
  constructor
  · refine List.pairwise_flatten.mpr ⟨?_, ?_⟩
    · exact forall_of_mapM_ok h fun x _ row hx => (hrow x row hx).1
    · refine pairwise_of_mapM_ok h hxs fun x y row row' hxy hx hy a ha b hb => ?_
      exact hlt x y a b hxy ((hrow x row hx).2 a ha) ((hrow y row' hy).2 b hb)
  · intro t ht
    obtain ⟨row, hmem, ht⟩ := List.mem_flatten.mp ht
    refine forall_of_mapM_ok (P := fun row => ∀ t ∈ row, ∃ x ∈ xs, P x t) h ?_ row hmem t ht
    intro x hx row hr t ht
    exact ⟨x, hx, (hrow x row hr).2 t ht⟩

/-- The times of one minute. -/
theorem minute_spec {h m : Int} {seconds : List Int} {times : List TimeOfDay}
    (hok : seconds.mapM (fun s => TimeOfDay.check h m s) = .ok times)
    (hseconds : seconds.Pairwise (· < ·)) :
    (times.Pairwise fun a b => a.ticks < b.ticks) ∧
      ∀ t ∈ times, t.IsValid ∧ (t.hour : Int) = h ∧ (t.minute : Int) = m := by
  constructor
  · refine pairwise_of_mapM_ok hok hseconds fun s s' t t' hs ht ht' => ?_
    obtain ⟨hvalid, hh, hm, hs₀⟩ := TimeOfDay.check_eq_ok_iff.mp ht
    obtain ⟨hvalid', hh', hm', hs'⟩ := TimeOfDay.check_eq_ok_iff.mp ht'
    exact hvalid.ticks_lt hvalid' (by omega)
  · refine forall_of_mapM_ok hok fun s _ t ht => ?_
    obtain ⟨hvalid, hh, hm, -⟩ := TimeOfDay.check_eq_ok_iff.mp ht
    exact ⟨hvalid, hh, hm⟩

/-- The times of one hour. -/
theorem hour_spec {h : Int} {minutes seconds : List Int} {rows : List (List TimeOfDay)}
    (hok : minutes.mapM (fun m => seconds.mapM fun s => TimeOfDay.check h m s) = .ok rows)
    (hminutes : minutes.Pairwise (· < ·)) (hseconds : seconds.Pairwise (· < ·)) :
    (rows.flatten.Pairwise fun a b => a.ticks < b.ticks) ∧
      ∀ t ∈ rows.flatten, ∃ m ∈ minutes, t.IsValid ∧ (t.hour : Int) = h ∧ (t.minute : Int) = m := by
  refine flatten_spec hok hminutes (fun m row hrow => minute_spec hrow hseconds) ?_
  rintro m m' a b hmm ⟨ha, hah, ham⟩ ⟨hb, hbh, hbm⟩
  exact ha.ticks_lt hb (by omega)

/-- The times with some hours, minutes and seconds come in order, each one once. -/
theorem timesOf_spec {hours minutes seconds : List Int} {times : List TimeOfDay}
    (h : timesOf hours minutes seconds = .ok times) (hhours : hours.Pairwise (· < ·))
    (hminutes : minutes.Pairwise (· < ·)) (hseconds : seconds.Pairwise (· < ·)) :
    (times.Pairwise fun a b => a.ticks < b.ticks) ∧ ∀ t ∈ times, ∃ h ∈ hours, ∃ m ∈ minutes,
      t.IsValid ∧ (t.hour : Int) = h ∧ (t.minute : Int) = m := by
  unfold timesOf at h
  obtain ⟨rows, hrows, h⟩ := bind_eq_ok_iff.mp h
  cases h
  refine flatten_spec hrows hhours (fun h row hrow => ?_) ?_
  · obtain ⟨rows, hrows, hrow⟩ := bind_eq_ok_iff.mp hrow
    cases hrow
    exact hour_spec hrows hminutes hseconds
  · rintro h h' a b hhh ⟨m, -, ha, hah, -⟩ ⟨m', -, hb, hbh, -⟩
    exact ha.ticks_lt hb (by omega)

end Rule

end ScanPolicy
