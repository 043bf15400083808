import ScanPolicy.Proofs.Text.Marks
import ScanPolicy.Service

/-!
# The cap on hosts

Hosts are counted up to a cap, and a cap below zero is refused. Every question asks the store of the
settings for the cap again; a value there that is no usable cap leaves it to the settings
themselves, whose own value is taken as it is.

- `Settings.cap?`: the cap that a service has, if it is not below zero.
- `Settings.value_resolveCap`: the cap is the usable value of the store, or else the fallback.
- `Service.AnswersWithin`, `Service.Refuses`: what a service does with a cap.
- `Service.answers_or_refuses`: which of the two a service does.
-/

namespace ScanPolicy

/-! ## The cap of the settings -/

namespace Settings

/-- The cap that a raw value is: a numeral that is not below zero. -/
def usableCap? (raw : Json) : Option Nat := (Text.toInt? raw.display).bind Int.toNat?

/-- The cap of a service over the settings, if there is one that is not below zero. A live store with
`fields` is asked first; a fixed store has nothing but the text of the settings' own cap. -/
def cap? (s : Settings) (fields : List (String × Json)) : Option Nat :=
  if s.backend = "redis" then ((fields.lookup capName).bind usableCap?).or s.maxHosts.toNat?
  else if s.hasStore then s.maxHosts.toNat?
  else none

/-- Without a usable cap, the settings have one below zero, or no store. -/
theorem lt_zero_of_cap?_eq_none {s : Settings} {fields : List (String × Json)}
    (hcap : s.cap? fields = none) (hstore : s.hasStore = true) : s.maxHosts < 0 := by
  have hnone : s.maxHosts.toNat? = none := by
    unfold cap? at hcap
    by_cases hbackend : s.backend = "redis"
    · rw [if_pos hbackend] at hcap
      exact (Option.or_eq_none_iff.mp hcap).2
    · rwa [if_neg hbackend, if_pos hstore] at hcap
  cases hn : s.maxHosts with
  | ofNat n =>
    rw [hn] at hnone
    cases hnone
  | negSucc n => exact Int.negSucc_lt_zero n

/-- Settings without a store have no cap. -/
theorem cap?_eq_none_of_no_store {s : Settings} (hstore : s.hasStore = false)
    (fields : List (String × Json)) : s.cap? fields = none := by
  have hbackend : s.backend ≠ "redis" := by
    intro h
    simp [hasStore, h] at hstore
  unfold cap?
  rw [if_neg hbackend, hstore, if_neg Bool.false_ne_true]

/-- The cap is the usable value of the store, or else the fallback. -/
theorem value_resolveCap (s : Store) (fallback : Int) : (resolveCap s fallback).value =
    (((s.get capName).value.bind usableCap?).map Int.ofNat).getD fallback := by
  unfold resolveCap
  rw [Traced.value_bind]
  cases (s.get capName).value with
  | none => rfl
  | some raw =>
    rw [Option.bind_some]
    unfold usableCap?
    dsimp only
    cases Text.toInt? raw.display with
    | none => rfl
    | some n =>
      cases n with
      | ofNat n => exact congrArg Traced.value (if_neg (Int.not_lt.mpr (Int.natCast_nonneg n)))
      | negSucc n => exact congrArg Traced.value (if_pos (Int.negSucc_lt_zero n))

/-- A value that a live hash does not have is shown as one that is no cap. -/
theorem bind_get_live (key : String) (fields : List (String × Json)) :
    ((Store.live key fields).get capName).value.bind usableCap? =
      (fields.lookup capName).bind usableCap? := by
  unfold Store.get Traced.noting
  dsimp only
  cases fields.lookup capName with
  | none => rfl
  | some raw => cases raw <;> rfl

/-- The copy of an integer in a fixed store is read as that integer. -/
theorem bind_get_ofValues {n : Int} (hlength : (Text.ofNat n.natAbs).length ≤ Text.numeralLimit) :
    ((Store.ofValues [(capName, .int n)]).get capName).value.bind usableCap? = n.toNat? := by
  show usableCap? (.text (String.ofList (Text.ofInt n))) = _
  unfold usableCap?
  show (Text.toInt? (String.ofList (Text.ofInt n)).toList).bind Int.toNat? = _
  rw [String.toList_ofList, Text.toInt?_ofInt hlength, Option.bind_some]

end Settings

/-! ## Services with a cap -/

namespace HostList

/-- A count with a cap gives a number up to the cap. -/
theorem exists_count (expression exclude : Text) (cap : Nat) :
    ∃ n ≤ cap, (count expression exclude cap).value = .ok n := by
  refine ⟨(countWithin expression exclude cap).value, ?_, rfl⟩
  unfold countWithin
  split
  · exact Nat.zero_le cap
  · exact Nat.zero_le cap
  · exact Nat.min_le_left cap _

end HostList

namespace Service

/-- Given texts are looked up with the cap of the moment. -/
theorem value_hostsContain (service : Service) (hosts host : Text) :
    (service.hostsContain (some hosts) (some host)).value =
      (HostList.contains hosts host service.cap.value).value := rfl

/-- Given hosts are counted up to the cap of the moment; nothing is excluded without a text. -/
theorem value_hostCount (service : Service) (hosts : Text) (exclude : Option Text) :
    (service.hostCount (some hosts) exclude).value =
      (HostList.count hosts (exclude.getD []) service.cap.value).value := rfl

/-- Whether a service has a cap, answers every question about hosts, and counts up to the cap. -/
structure AnswersWithin (service : Service) (cap : Nat) : Prop where
  cap_eq : service.cap.value = cap
  contains : ∀ hosts host, ∃ b, (service.hostsContain hosts host).value = .ok b
  counts : ∀ hosts exclude, ∃ n ≤ cap, (service.hostCount hosts exclude).value = .ok n

/-- Whether a service has a cap below zero and refuses every question about hosts with texts. -/
structure Refuses (service : Service) (cap : Int) : Prop where
  negative : cap < 0
  cap_eq : service.cap.value = cap
  contains : ∀ hosts host, (service.hostsContain (some hosts) (some host)).value = .error ⟨cap⟩
  counts : ∀ hosts exclude, (service.hostCount (some hosts) exclude).value = .error ⟨cap⟩

theorem answersWithin_of_cap {service : Service} {cap : Nat} (h : service.cap.value = cap) :
    service.AnswersWithin cap where
  cap_eq := h
  contains hosts host := by
    cases hosts with
    | none => exact ⟨false, rfl⟩
    | some hosts =>
      cases host with
      | none => exact ⟨false, rfl⟩
      | some host =>
        rw [value_hostsContain, h]
        exact ⟨_, rfl⟩
  counts hosts exclude := by
    cases hosts with
    | none => exact ⟨0, Nat.zero_le cap, rfl⟩
    | some hosts =>
      rw [value_hostCount, h]
      exact HostList.exists_count hosts _ cap

theorem refuses_of_cap {service : Service} {cap : Int} (hcap : cap < 0)
    (h : service.cap.value = cap) : service.Refuses cap := by
  obtain ⟨n, rfl⟩ := Int.eq_negSucc_of_lt_zero hcap
  refine ⟨hcap, h, fun hosts host => ?_, fun hosts exclude => ?_⟩
  · rw [value_hostsContain, h]
    rfl
  · rw [value_hostCount, h]
    rfl

/-- The cap of the service over the settings. -/
theorem value_cap_ofSettings {s : Settings} (hstore : s.hasStore = true)
    (fields : List (String × Json)) :
    (Service.cap ⟨s.store fields, s.maxHosts⟩).value =
      ((s.cap? fields).map Int.ofNat).getD s.maxHosts := by
  have hfallback : ∀ o : Option Nat, (((o.or s.maxHosts.toNat?).map Int.ofNat).getD s.maxHosts) =
      (o.map Int.ofNat).getD s.maxHosts := by
    intro o
    cases o with
    | some n => rfl
    | none => cases s.maxHosts <;> rfl
  unfold Service.cap Settings.cap? Settings.store
  rw [Settings.value_resolveCap]
  by_cases hbackend : s.backend = "redis"
  · rw [if_pos hbackend, if_pos hbackend, Settings.bind_get_live, hfallback]
  · have hlength : (Text.ofNat s.maxHosts.natAbs).length ≤ Text.numeralLimit := by
      simpa [Settings.hasStore, hbackend] using hstore
    rw [if_neg hbackend, if_neg hbackend, if_pos hstore, Settings.bind_get_ofValues hlength]

/-- The service over any settings and any contents of a live store. If there is a usable cap, each
question about hosts is answered and counts are up to it. If there is none, the cap of the settings is
below zero and each question with texts is refused, or its digits are too many for a fixed store. -/
theorem answers_or_refuses (s : Settings) (fields : List (String × Json)) :
    match s.cap? fields with
    | some cap => ∃ service, ofSettings? s fields = some service ∧ service.AnswersWithin cap
    | none => ofSettings? s fields = none ∧ s.hasStore = false ∨
        ∃ service, ofSettings? s fields = some service ∧ service.Refuses s.maxHosts := by
  cases hstore : s.hasStore with
  | false =>
    rw [Settings.cap?_eq_none_of_no_store hstore]
    exact .inl ⟨if_neg (by simp [hstore]), rfl⟩
  | true =>
    have hservice : ofSettings? s fields = some ⟨s.store fields, s.maxHosts⟩ := if_pos hstore
    have hvalue := value_cap_ofSettings hstore fields
    cases hcap : s.cap? fields with
    | some cap =>
      rw [hcap] at hvalue
      exact ⟨_, hservice, answersWithin_of_cap hvalue⟩
    | none =>
      rw [hcap] at hvalue
      have hnegative := Settings.lt_zero_of_cap?_eq_none hcap hstore
      exact .inr ⟨_, hservice, refuses_of_cap hnegative hvalue⟩

/-- A cap below zero is no cap in the store of the settings, but it is the fallback of the service. -/
theorem refuses_of_negative_maxHosts : ∃ service, ofSettings? { maxHosts := -1 } [] = some service ∧
    service.cap.value = -1 ∧ (service.hostCount (some []) none).value = .error ⟨-1⟩ :=
  ⟨_, rfl, rfl, rfl⟩

end Service

end ScanPolicy
