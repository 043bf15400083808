import ScanPolicy.Proofs.Recurrence.Completion
import ScanPolicy.Proofs.Recurrence.Drafts
import ScanPolicy.Proofs.Recurrence.Number
import ScanPolicy.Proofs.Recurrence.Settled

/-!
# Faults of rules

A rule that cannot be completed from its parts is at fault itself. Only times of day are
an exception: a number beyond the machine's is not compared with the clock at all, and
the completion breaks off.

- `Parts.IsWithinMachine`: times of day in numbers of the machine.
- `Rule.ofParts_failsOnly`: how the completion of such parts fails.
- `Rule.isWithinMachine_given`: a completed rule keeps such parts.
- `RuleText.addPart_failsOnly`: how the reading of a part fails.
-/

namespace ScanPolicy

/-- Whether a fault is one of a rule. -/
def Fault.IsOfRule (e : Fault) : Prop := ∃ why, e = .rule why

/-! ## Times of day -/

namespace TimeOfDay

/-- Numbers of the machine are compared with the clock. -/
theorem check_failsOnly {h m s : Int} (hh : isBeyondMachine h = false) (hm : isBeyondMachine m = false)
    (hs : isBeyondMachine s = false) : FailsOnly Fault.IsOfRule (check h m s) := by
  unfold check
  rw [hh, hm, hs, Bool.or_self, Bool.or_self, if_neg Bool.false_ne_true]
  split_ifs
  · exact failsOnly_error ⟨_, rfl⟩
  · exact failsOnly_error ⟨_, rfl⟩
  · exact failsOnly_error ⟨_, rfl⟩
  · exact failsOnly_ok _

theorem isBeyondMachine_natCast {n : Nat} (h : n < 60) : isBeyondMachine n = false := by
  unfold isBeyondMachine machineMin machineMax
  rw [Bool.or_eq_false_iff, decide_eq_false_iff_not, decide_eq_false_iff_not]
  omega

end TimeOfDay

/-- Whether the given hours, minutes and seconds are numbers of the machine. -/
structure Parts.IsWithinMachine (p : Parts) : Prop where
  hours : ∀ ns ∈ p.hours, ∀ n ∈ ns, TimeOfDay.isBeyondMachine n = false
  minutes : ∀ ns ∈ p.minutes, ∀ n ∈ ns, TimeOfDay.isBeyondMachine n = false
  seconds : ∀ ns ∈ p.seconds, ∀ n ∈ ns, TimeOfDay.isBeyondMachine n = false

namespace Rule

theorem timesOf_failsOnly {hours minutes seconds : List Int}
    (hhours : ∀ n ∈ hours, TimeOfDay.isBeyondMachine n = false)
    (hminutes : ∀ n ∈ minutes, TimeOfDay.isBeyondMachine n = false)
    (hseconds : ∀ n ∈ seconds, TimeOfDay.isBeyondMachine n = false) :
    FailsOnly Fault.IsOfRule (timesOf hours minutes seconds) := by
  refine (FailsOnly.mapM fun h hh => ?_).bind fun _ _ => failsOnly_ok _
  refine (FailsOnly.mapM fun m hm => ?_).bind fun _ _ => failsOnly_ok _
  exact FailsOnly.mapM fun s hs =>
    TimeOfDay.check_failsOnly (hhours h hh) (hminutes m hm) (hseconds s hs)

/-! ## Completion -/

section

variable {f : Frequency} {anchor : Moment} {interval weekStart : Nat} {count : Option Nat}
  {bound : Option Moment} {p : Parts}

theorem reachable_failsOnly (interval base start : Nat) (values : List Int) :
    FailsOnly Fault.IsOfRule (reachable interval base start values) := by
  unfold reachable
  dsimp only
  split
  · exact failsOnly_error ⟨_, rfl⟩
  · exact failsOnly_ok _

theorem mem_of_mem_reachable {base start : Nat} {values reached : List Int}
    (h : reachable interval base start values = .ok reached) {n : Int} (hn : n ∈ reached) :
    n ∈ values := by
  obtain ⟨-, rfl⟩ := reachable_eq_ok_iff.mp h
  exact (List.mem_filter.mp (mem_sortedInts.mp hn)).1

/-- The hours are the one of the anchor or given ones. -/
theorem mem_hoursOf {hour : Nat} {given : Option (List Int)} {hours : List Int}
    (h : hoursOf f interval hour given = .ok hours) {n : Int} (hn : n ∈ hours) :
    given = none ∧ n = hour ∨ ∃ ns ∈ given, n ∈ ns := by
  cases given with
  | none =>
    cases h
    split at hn
    · cases hn
    · exact .inl ⟨rfl, List.mem_singleton.mp hn⟩
  | some hs =>
    refine .inr ⟨hs, rfl, ?_⟩
    unfold hoursOf at h
    dsimp only at h
    split at h
    · exact mem_of_mem_reachable h hn
    · cases h
      exact mem_sortedInts.mp hn

/-- The minutes are the one of the anchor or given ones. -/
theorem mem_minutesOf {minute : Nat} {given : Option (List Int)} {minutes : List Int}
    (h : minutesOf f interval minute given = .ok minutes) {n : Int} (hn : n ∈ minutes) :
    given = none ∧ n = minute ∨ ∃ ns ∈ given, n ∈ ns := by
  cases given with
  | none =>
    cases h
    split at hn
    · cases hn
    · exact .inl ⟨rfl, List.mem_singleton.mp hn⟩
  | some ms =>
    refine .inr ⟨ms, rfl, ?_⟩
    unfold minutesOf at h
    dsimp only at h
    split at h
    · exact mem_of_mem_reachable h hn
    · cases h
      exact mem_sortedInts.mp hn

theorem mem_secondsOf {second : Nat} {given : Option (List Int)} {n : Int}
    (hn : n ∈ secondsOf second given) : given = none ∧ n = second ∨ ∃ ns ∈ given, n ∈ ns := by
  cases given with
  | none => exact .inl ⟨rfl, List.mem_singleton.mp hn⟩
  | some ss => exact .inr ⟨ss, rfl, mem_sortedInts.mp hn⟩

/-- A rule that cannot be completed is at fault itself, or its times of day are. -/
theorem ofParts_failsOnly_of {P : Fault → Prop} (hrule : ∀ why, P (.rule why))
    (htimes : ∀ hours minutes,
      hoursOf f interval anchor.wall.wholeSecond.hour p.hours = .ok hours →
      minutesOf f interval anchor.wall.wholeSecond.minute p.minutes = .ok minutes →
      FailsOnly P (timesOf hours minutes (secondsOf anchor.wall.wholeSecond.second p.seconds))) :
    FailsOnly P (ofParts f anchor interval weekStart count bound p) := by
  have hreach : ∀ {base start : Nat} {values : List Int},
      FailsOnly P (reachable interval base start values) := fun e he => by
    obtain ⟨why, rfl⟩ := reachable_failsOnly _ _ _ _ e he
    exact hrule why
  rw [ofParts_eq]
  split
  · refine FailsOnly.bind ?_ fun hours hhours => FailsOnly.bind ?_ fun minutes hminutes =>
      FailsOnly.bind ?_ fun dayTimes _ => failsOnly_ok _
    · unfold hoursOf
      split
      · exact failsOnly_ok _
      · split
        · exact hreach
        · exact failsOnly_ok _
    · unfold minutesOf
      split
      · exact failsOnly_ok _
      · split
        · exact hreach
        · exact failsOnly_ok _
    · unfold dayTimesOf
      split
      · exact failsOnly_ok _
      · exact htimes hours minutes hhours hminutes
  · exact failsOnly_error (hrule _)

/-- Parts that cannot be completed are those of a rule at fault, unless a time of day is beyond the
machine. -/
theorem ofParts_failsOnly (hp : p.IsWithinMachine) :
    FailsOnly Fault.IsOfRule (ofParts f anchor interval weekStart count bound p) := by
  obtain ⟨hhour, hminute, -⟩ := anchor.wall.wholeSecond.hour_minute_spec
  have hsecond : anchor.wall.wholeSecond.second < 60 := by
    unfold WallTime.second
    rw [Int.fmod_eq_emod_of_nonneg _ (by decide)]
    omega
  have hwithin : ∀ {n : Int} {k : Nat} {given : Option (List Int)}, k < 60 →
      (∀ ns ∈ given, ∀ n ∈ ns, TimeOfDay.isBeyondMachine n = false) →
      (given = none ∧ n = k ∨ ∃ ns ∈ given, n ∈ ns) → TimeOfDay.isBeyondMachine n = false := by
    rintro n k given hk hgiven (⟨-, rfl⟩ | ⟨ns, hns, hn⟩)
    · exact TimeOfDay.isBeyondMachine_natCast hk
    · exact hgiven ns hns n hn
  refine ofParts_failsOnly_of (fun why => ⟨why, rfl⟩) fun hours minutes hhours hminutes => ?_
  exact timesOf_failsOnly (fun n hn => hwithin (by omega) hp.hours (mem_hoursOf hhours hn))
    (fun n hn => hwithin hminute hp.minutes (mem_minutesOf hminutes hn))
    (fun n hn => hwithin hsecond hp.seconds (mem_secondsOf hn))

/-- A completed rule keeps times of day that it was given. -/
theorem isWithinMachine_given {r : Rule}
    (h : ofParts f anchor interval weekStart count bound p = .ok r) (hp : p.IsWithinMachine) :
    r.given.IsWithinMachine := by
  obtain ⟨-, hhours, hminutes, -, -⟩ := ofParts_eq_ok_iff.mp h
  have hgiven := given_eq_givenOf h
  refine ⟨fun ns hns n hn => ?_, fun ns hns n hn => ?_, fun ns hns n hn => ?_⟩
  · rw [hgiven] at hns
    obtain ⟨ns', hns', rfl⟩ := Option.map_eq_some_iff.mp hns
    rcases mem_hoursOf hhours hn with ⟨hnone, -⟩ | ⟨ms, hms, hn⟩
    · rw [hnone] at hns'
      cases hns'
    · exact hp.hours ms hms n hn
  · rw [hgiven] at hns
    obtain ⟨ns', hns', rfl⟩ := Option.map_eq_some_iff.mp hns
    rcases mem_minutesOf hminutes hn with ⟨hnone, -⟩ | ⟨ms, hms, hn⟩
    · rw [hnone] at hns'
      cases hns'
    · exact hp.minutes ms hms n hn
  · rw [hgiven] at hns
    obtain ⟨ns', hns', rfl⟩ := Option.map_eq_some_iff.mp hns
    exact hp.seconds ns' hns' n (mem_sortedInts.mp hn)

end

end Rule

/-! ## Parts of a text -/

namespace RuleText

theorem addPart_failsOnly (d : Draft) (pair : Text) : FailsOnly Fault.IsOfRule (addPart d pair) := by
  unfold addPart
  split
  · split
    · exact failsOnly_error ⟨_, rfl⟩
    · exact failsOnly_error ⟨_, rfl⟩
    · exact failsOnly_ok _
  · split
    · exact failsOnly_error ⟨_, rfl⟩
    · exact failsOnly_error ⟨_, rfl⟩

end RuleText

end ScanPolicy
