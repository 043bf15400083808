import Mathlib.Tactic.Common
import Mathlib.Data.List.Pairwise

/-!
# Computations that may fail

- `bind_eq_ok_iff`, `map_eq_ok_iff`: a computation succeeds when both of its steps
  do; `bind_congr_of_ok`: the second step only matters for what the first one gives.
- `forall_of_mapM_ok`, `pairwise_of_mapM_ok`, `mapM_eq_some`: what holds of the
  values that are computed from a list.
- `exists_ok_of_mapM_ok`, `mapM_error`: when the values of a list can be computed.
- `FailsOnly`: computations that fail in certain ways only, step by step.
- `Corresponds`: computations that give related values or fail in related ways, step by step.
-/

namespace ScanPolicy

/-- A computation succeeds when both of its steps do. -/
theorem bind_eq_ok_iff {ε α β : Type} {x : Except ε α} {f : α → Except ε β} {b : β} :
    (x >>= f) = .ok b ↔ ∃ a, x = .ok a ∧ f a = .ok b := by
  cases x with
  | error e => exact ⟨(nomatch ·), fun ⟨_, h, _⟩ => (nomatch h)⟩
  | ok a =>
    constructor
    · intro h
      exact ⟨a, rfl, h⟩
    · rintro ⟨_, h, hb⟩
      cases h
      exact hb

/-- Two continuations give one outcome if they agree on what they are given. -/
theorem bind_congr_of_ok {ε α β : Type} {x : Except ε α} {f g : α → Except ε β}
    (h : ∀ a, x = .ok a → f a = g a) : (x >>= f) = x >>= g := by
  cases x with
  | error e => rfl
  | ok a => exact h a rfl

theorem map_eq_ok_iff {ε α β : Type} {x : Except ε α} {f : α → β} {b : β} :
    (f <$> x) = .ok b ↔ ∃ a, x = .ok a ∧ f a = b := by
  cases x with
  | error e => exact ⟨(nomatch ·), fun ⟨_, h, _⟩ => (nomatch h)⟩
  | ok a =>
    constructor
    · intro h
      cases h
      exact ⟨a, rfl, rfl⟩
    · rintro ⟨_, h, rfl⟩
      cases h
      rfl

theorem ok_of_toOption {ε α : Type} {x : Except ε α} {a : α} (h : x.toOption = some a) : x = .ok a := by
  cases x with
  | error e => cases h
  | ok b =>
    cases h
    rfl

theorem mem_toOption {ε α : Type} {x : Except ε α} {a : α} : a ∈ x.toOption ↔ x = .ok a :=
  ⟨ok_of_toOption, fun h => h ▸ rfl⟩

/-- A computed answer that is none. -/
theorem ok_none_of_any {ε α : Type} {x : Except ε (Option α)}
    (h : x.toOption.any Option.isNone = true) : x = .ok none := by
  cases x with
  | error e => cases h
  | ok a =>
    cases a with
    | none => rfl
    | some a => cases h

/-- Of values that are read one by one from a list there are as many as elements, each element gives
one, and each is given. -/
theorem mapM_eq_some {α β : Type} {f : α → Option β} {xs : List α} {ys : List β}
    (h : xs.mapM f = some ys) : ys.length = xs.length ∧ (∀ x ∈ xs, ∃ y, f x = some y) ∧
      ∀ y ∈ ys, ∃ x ∈ xs, f x = some y := by
  induction xs generalizing ys with
  | nil =>
    cases h
    exact ⟨rfl, nofun, nofun⟩
  | cons x rest ih =>
    rw [List.mapM_cons] at h
    obtain ⟨y, hy, h⟩ := Option.bind_eq_some_iff.mp h
    obtain ⟨more, hmore, h⟩ := Option.bind_eq_some_iff.mp h
    cases h
    obtain ⟨hlength, hread, hgiven⟩ := ih hmore
    refine ⟨congrArg Nat.succ hlength, List.forall_mem_cons.mpr ⟨⟨y, hy⟩, hread⟩,
      List.forall_mem_cons.mpr ⟨⟨x, List.mem_cons_self, hy⟩, fun z hz => ?_⟩⟩
    obtain ⟨x', hx', hz⟩ := hgiven z hz
    exact ⟨x', List.mem_cons_of_mem _ hx', hz⟩

/-- What holds of every element that a fallible function gives holds of all
elements of the list that it gives. -/
theorem forall_of_mapM_ok {ε α β : Type} {f : α → Except ε β} {P : β → Prop} {xs : List α}
    {ys : List β} (h : xs.mapM f = .ok ys) (hP : ∀ x ∈ xs, ∀ y, f x = .ok y → P y) :
    ∀ y ∈ ys, P y := by
  induction xs generalizing ys with
  | nil =>
    cases h
    simp
  | cons x rest ih =>
    rw [List.mapM_cons] at h
    obtain ⟨y, hy, h⟩ := bind_eq_ok_iff.mp h
    obtain ⟨more, hmore, h⟩ := bind_eq_ok_iff.mp h
    cases h
    intro z hz
    rcases List.mem_cons.mp hz with rfl | hz
    · exact hP x List.mem_cons_self _ hy
    · exact ih hmore (fun x hx => hP x (List.mem_cons_of_mem _ hx)) z hz

theorem bind_eq_error {ε α β : Type} {x : Except ε α} {f : α → β} {e : ε}
    (h : (x >>= fun a => pure (f a)) = .error e) : x = .error e := by
  cases x with
  | error e' =>
    cases h
    rfl
  | ok a => cases h

/-- Values that are computed in two ways that agree on the list. -/
theorem mapM_congr {ε α β : Type} {f g : α → Except ε β} {xs : List α} (h : ∀ x ∈ xs, f x = g x) :
    xs.mapM f = xs.mapM g := by
  induction xs with
  | nil => rfl
  | cons x rest ih =>
    rw [List.mapM_cons, List.mapM_cons, h x List.mem_cons_self,
      ih fun y hy => h y (List.mem_cons_of_mem _ hy)]

/-- Values that are computed one by one from a list in order are in order. -/
theorem pairwise_of_mapM_ok {ε α β : Type} {f : α → Except ε β} {R : α → α → Prop}
    {S : β → β → Prop} {xs : List α} {ys : List β} (h : xs.mapM f = .ok ys) (hR : xs.Pairwise R)
    (hS : ∀ x x' y y', R x x' → f x = .ok y → f x' = .ok y' → S y y') : ys.Pairwise S := by
  induction xs generalizing ys with
  | nil =>
    cases h
    exact List.Pairwise.nil
  | cons x rest ih =>
    rw [List.mapM_cons] at h
    obtain ⟨y, hy, h⟩ := bind_eq_ok_iff.mp h
    obtain ⟨more, hmore, h⟩ := bind_eq_ok_iff.mp h
    cases h
    obtain ⟨hx, hrest⟩ := List.pairwise_cons.mp hR
    refine List.pairwise_cons.mpr ⟨?_, ih hmore hrest⟩
    exact forall_of_mapM_ok hmore fun x' hx' y' hy' => hS x x' y y' (hx x' hx') hy hy'

/-- If values are computed from all elements of a list, each element gives one. -/
theorem exists_ok_of_mapM_ok {ε α β : Type} {f : α → Except ε β} {xs : List α} {ys : List β}
    (h : xs.mapM f = .ok ys) : ∀ x ∈ xs, ∃ y, f x = .ok y := by
  induction xs generalizing ys with
  | nil => exact fun x hx => (nomatch hx)
  | cons x rest ih =>
    rw [List.mapM_cons] at h
    obtain ⟨y, hy, h⟩ := bind_eq_ok_iff.mp h
    obtain ⟨more, hmore, -⟩ := bind_eq_ok_iff.mp h
    intro x' hx'
    rcases List.mem_cons.mp hx' with rfl | hx'
    · exact ⟨y, hy⟩
    · exact ih hmore x' hx'

/-- A fault on the way through a list is one of its elements. -/
theorem mapM_error {ε α β : Type} {f : α → Except ε β} {xs : List α} {e : ε}
    (h : xs.mapM f = .error e) : ∃ x ∈ xs, f x = .error e := by
  induction xs with
  | nil => cases h
  | cons x rest ih =>
    rw [List.mapM_cons] at h
    cases hx : f x with
    | error e' =>
      rw [hx] at h
      cases h
      exact ⟨x, List.mem_cons_self, hx⟩
    | ok y =>
      rw [hx] at h
      cases hrest : rest.mapM f with
      | error e' =>
        rw [hrest] at h
        cases h
        obtain ⟨x', hx', he⟩ := ih hrest
        exact ⟨x', List.mem_cons_of_mem _ hx', he⟩
      | ok ys =>
        rw [hrest] at h
        cases h

/-! ## Ways to fail -/

/-- Whether a computation fails in certain ways only. -/
def FailsOnly {ε α : Type} (P : ε → Prop) (x : Except ε α) : Prop := ∀ e, x = .error e → P e

section FailsOnly

variable {ε α β : Type} {P : ε → Prop} {x : Except ε α}

theorem failsOnly_ok (a : α) : FailsOnly P (.ok a : Except ε α) := fun _ h => nomatch h

theorem failsOnly_error {e : ε} (h : P e) : FailsOnly P (.error e : Except ε α) := by
  rintro _ ⟨⟩
  exact h

/-- A computation fails in certain ways only if both of its steps do. -/
theorem FailsOnly.bind {f : α → Except ε β} (hx : FailsOnly P x)
    (hf : ∀ a, x = .ok a → FailsOnly P (f a)) : FailsOnly P (x >>= f) := by
  cases x with
  | error e => exact failsOnly_error (hx e rfl)
  | ok a => exact hf a rfl

theorem FailsOnly.map {f : α → β} (hx : FailsOnly P x) : FailsOnly P (f <$> x) := by
  cases x with
  | error e => exact failsOnly_error (hx e rfl)
  | ok a => exact failsOnly_ok (f a)

theorem FailsOnly.mapM {f : α → Except ε β} {xs : List α} (h : ∀ a ∈ xs, FailsOnly P (f a)) :
    FailsOnly P (xs.mapM f) := by
  intro e he
  obtain ⟨a, ha, he⟩ := mapM_error he
  exact h a ha e he

theorem FailsOnly.foldlM {f : β → α → Except ε β} {xs : List α}
    (h : ∀ b, ∀ a ∈ xs, FailsOnly P (f b a)) (b : β) : FailsOnly P (xs.foldlM f b) := by
  induction xs generalizing b with
  | nil => exact failsOnly_ok b
  | cons a rest ih =>
    rw [List.foldlM_cons]
    exact (h b a List.mem_cons_self).bind fun b' _ =>
      ih (fun b a ha => h b a (List.mem_cons_of_mem _ ha)) b'

end FailsOnly

/-! ## Two computations -/

/-- Computations that give related values or fail in related ways. -/
inductive Corresponds {ε α β : Type} (E : ε → ε → Prop) (R : α → β → Prop) :
    Except ε α → Except ε β → Prop
  | ok {a : α} {b : β} (h : R a b) : Corresponds E R (.ok a) (.ok b)
  | error {e e' : ε} (h : E e e') : Corresponds E R (.error e) (.error e')

section Corresponds

variable {ε α β γ δ : Type} {E : ε → ε → Prop} {R : α → β → Prop} {S : γ → δ → Prop}
  {x : Except ε α} {y : Except ε β}

theorem Corresponds.of_eq (hE : ∀ e, E e e) {x x' : Except ε α} (h : x' = x) :
    Corresponds E Eq x x' := by
  rw [h]
  cases x with
  | error e => exact .error (hE e)
  | ok a => exact .ok rfl

theorem Corresponds.bind (h : Corresponds E R x y) {f : α → Except ε γ} {g : β → Except ε δ}
    (hfg : ∀ a b, R a b → Corresponds E S (f a) (g b)) : Corresponds E S (x >>= f) (y >>= g) := by
  cases h with
  | ok hab => exact hfg _ _ hab
  | error he => exact .error he

/-- Computations that give equal values or fail in the same way are equal. -/
theorem Corresponds.eq {x y : Except ε α} (h : Corresponds Eq Eq x y) : x = y := by
  cases h with
  | ok h => rw [h]
  | error h => rw [h]

/-- Computations that have their first step in common. -/
theorem Corresponds.bind_self (x : Except ε α) {f : α → Except ε γ} {g : α → Except ε δ}
    (hfg : ∀ a, Corresponds Eq S (f a) (g a)) : Corresponds Eq S (x >>= f) (x >>= g) := by
  cases x with
  | error e => exact .error rfl
  | ok a => exact hfg a

theorem Corresponds.map (h : Corresponds E R x y) {f : α → γ} {g : β → δ}
    (hfg : ∀ a b, R a b → S (f a) (g b)) : Corresponds E S (f <$> x) (g <$> y) := by
  cases h with
  | ok hab => exact .ok (hfg _ _ hab)
  | error he => exact .error he

theorem Corresponds.mapM {as : List α} {bs : List β} (h : List.Forall₂ R as bs)
    {f : α → Except ε γ} {g : β → Except ε δ}
    (hfg : ∀ a b, R a b → Corresponds E S (f a) (g b)) :
    Corresponds E (List.Forall₂ S) (as.mapM f) (bs.mapM g) := by
  induction h with
  | nil => exact .ok .nil
  | cons hab _ ih =>
    rw [List.mapM_cons, List.mapM_cons]
    exact (hfg _ _ hab).bind fun _ _ hfirst => ih.bind fun _ _ hmore => .ok (.cons hfirst hmore)

theorem Corresponds.foldlM {as : List α} {bs : List β} (h : List.Forall₂ R as bs)
    {f : γ → α → Except ε γ} {g : γ → β → Except ε γ}
    (hfg : ∀ c a b, R a b → Corresponds E Eq (f c a) (g c b)) (c : γ) :
    Corresponds E Eq (as.foldlM f c) (bs.foldlM g c) := by
  induction h generalizing c with
  | nil => exact .ok rfl
  | cons hab _ ih =>
    rw [List.foldlM_cons, List.foldlM_cons]
    refine (hfg c _ _ hab).bind fun c' _ hc => ?_
    rw [← hc]
    exact ih c'

end Corresponds

end ScanPolicy
