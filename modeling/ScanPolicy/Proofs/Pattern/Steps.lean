import Mathlib.Data.List.TakeWhile
import Mathlib.Tactic.Common
import ScanPolicy.Pattern.Reader

/-!
# Steps of the reader of patterns

What a step of the reader comes to is stated by what holds of the cursor before it and after it. A step
that meets such a statement may stop with a defect of the pattern, and with nothing else.

- `Reading.Meets`: steps that end in a postcondition or with a defect; `Meets.bind` puts two of them in a
  row.
- `Cursor.Behind`: cursors that stand right behind known tokens of a pattern, and that have collected no
  flag which the pattern does not give.
- `Reading.Stays`: steps that never leave a pattern.
-/

namespace ScanPolicy.Pattern

namespace Reading

variable {α β : Type} {P P' : Cursor → Prop} {Q Q' : α → Cursor → Prop} {R : β → Cursor → Prop}
  {x : Reading α} {f : α → Reading β}

/-- From a cursor in `P`, a step gives a value and a cursor that are in `Q`, or it stops with a defect. -/
def Meets (P : Cursor → Prop) (x : Reading α) (Q : α → Cursor → Prop) : Prop :=
  ∀ s, P s → (∃ a s', x.run s = .ok (a, s') ∧ Q a s') ∨ ∃ d, x.run s = .error (.defect d)

namespace Meets

theorem imp (h : Meets P x Q) (hP : ∀ s, P' s → P s) (hQ : ∀ a s, Q a s → Q' a s) :
    Meets P' x Q' := fun s hs => (h s (hP s hs)).imp_left
  fun ⟨a, s', hrun, ha⟩ => ⟨a, s', hrun, hQ a s' ha⟩

theorem pre (h : Meets P x Q) (hP : ∀ s, P' s → P s) : Meets P' x Q := h.imp hP fun _ _ => id

theorem post (h : Meets P x Q) (hQ : ∀ a s, Q a s → Q' a s) : Meets P x Q' := h.imp (fun _ => id) hQ

theorem pure {a : α} (h : ∀ s, P s → Q a s) : Meets P (Pure.pure a) Q :=
  fun s hs => .inl ⟨a, s, rfl, h s hs⟩

theorem bind (hx : Meets P x Q) (hf : ∀ a, Meets (Q a) (f a) R) : Meets P (x >>= f) R := by
  intro s hs
  rw [StateT.run_bind]
  obtain ⟨a, s', hrun, ha⟩ | ⟨d, hrun⟩ := hx s hs
  · rw [hrun]
    exact hf a s' ha
  · rw [hrun]
    exact .inr ⟨d, rfl⟩

/-- What every cursor in the precondition tells is known. -/
theorem assuming {p : Prop} (hp : ∀ s, P s → p) (h : p → Meets P x Q) : Meets P x Q :=
  fun s hs => h (hp s hs) s hs

theorem failAt {cause : Cause} {place : Nat} : Meets P (Reading.failAt cause place) Q :=
  fun _ _ => .inr ⟨⟨cause, some place⟩, rfl⟩

theorem ite {c : Prop} [Decidable c] {y : Reading α} (hx : Meets P x Q) (hy : Meets P y Q) :
    Meets P (if c then x else y) Q := by
  split
  · exact hx
  · exact hy

/-- Nothing comes after a step that only fails. -/
theorem stop (hx : Meets P x fun _ _ => False) : Meets P (x >>= f) R := hx.bind fun _ _ => False.elim

theorem get : Meets P MonadState.get fun a s => a = s ∧ P s := fun s hs => .inl ⟨s, s, rfl, rfl, hs⟩

theorem set {t : Cursor} {Q : PUnit → Cursor → Prop} (h : ∀ s, P s → Q () t) :
    Meets P (MonadStateOf.set t) Q := fun s hs => .inl ⟨(), t, rfl, h s hs⟩

theorem modify {g : Cursor → Cursor} {Q : PUnit → Cursor → Prop} (h : ∀ s, P s → Q () (g s)) :
    Meets P (modify g) Q := fun s hs => .inl ⟨(), g s, rfl, h s hs⟩

end Meets

end Reading

/-! ## Cursors inside of a pattern -/

/-- A row of tokens gives a flag for the whole pattern: its letter stands behind a question mark inside
of parentheses. -/
def GivesFlag (ts : List Token) (f : Flag) : Prop :=
  ∃ letters, .plain '(' :: .plain '?' :: letters ++ [.plain ')'] <:+: ts ∧
    ∃ t ∈ letters, Reading.flagOf? t = some f

/-- What a parenthesis opens has no flags for the whole pattern but those that the tokens give. -/
def Opened.Given (ts : List Token) : Opened → Prop
  | .flags fs => ∀ f ∈ fs, GivesFlag ts f
  | _ => True

/-- A cursor that stands in a row of tokens, right behind some of them. It has collected no flag that the
tokens do not give. -/
structure Cursor.Behind (ts read : List Token) (s : Cursor) : Prop where
  row : ∃ before, ts = before ++ read ++ s.tokens
  flags : ∀ f ∈ s.flags, GivesFlag ts f

namespace Cursor.Behind

variable {ts read more : List Token} {s s' : Cursor}

/-- What a cursor stands behind is a part of the tokens. -/
theorem isInfix (h : s.Behind ts read) : read <:+: ts := by
  obtain ⟨before, hrow⟩ := h.row
  exact ⟨before, s.tokens, hrow.symm⟩

/-- What a cursor stands behind may be forgotten, from the front on. -/
theorem of_append (h : s.Behind ts (read ++ more)) : s.Behind ts more := by
  obtain ⟨before, hrow⟩ := h.row
  exact ⟨⟨before ++ read, by rw [hrow, List.append_assoc before read]⟩, h.flags⟩

theorem forget (h : s.Behind ts read) : s.Behind ts [] := by
  rw [← List.append_nil read] at h
  exact h.of_append

/-- A cursor that goes over tokens stands behind these too. -/
theorem advance (h : s.Behind ts read) (htokens : s.tokens = more ++ s'.tokens)
    (hflags : s'.flags = s.flags) : s'.Behind ts (read ++ more) := by
  obtain ⟨before, hrow⟩ := h.row
  exact ⟨⟨before, by rw [hrow, htokens]; simp⟩, hflags ▸ h.flags⟩

theorem of_tokens_eq (h : s.Behind ts read) (htokens : s'.tokens = s.tokens) (hflags : s'.flags = s.flags) :
    s'.Behind ts read := by
  obtain ⟨before, hrow⟩ := h.row
  exact ⟨⟨before, by rw [hrow, htokens]⟩, hflags ▸ h.flags⟩

end Cursor.Behind

namespace Reading

open Cursor

variable {α β : Type} {x : Reading α} {f : α → Reading β} {ts read : List Token}

/-- A step that stays in a row of tokens. -/
def Stays (ts : List Token) (x : Reading α) : Prop := Meets (Behind ts []) x fun _ => Behind ts []

namespace Stays

theorem behind (h : Stays ts x) : Meets (Behind ts read) x fun _ => Behind ts [] :=
  h.pre fun _ => Behind.forget

theorem pure (a : α) : Stays ts (Pure.pure a) := Meets.pure fun _ => id

theorem bind (hx : Stays ts x) (hf : ∀ a, Stays ts (f a)) : Stays ts (x >>= f) := Meets.bind hx hf

theorem failAt {cause : Cause} {place : Nat} : Stays ts (Reading.failAt cause place : Reading α) :=
  Meets.failAt

theorem get : Stays ts MonadState.get := Meets.get.post fun _ _ h => h.2

/-- A change of the cursor that leaves its tokens and flags alone. -/
theorem modify {g : Cursor → Cursor} (hg : ∀ s, (g s).tokens = s.tokens ∧ (g s).flags = s.flags) :
    Stays ts (modify g) := Meets.modify fun s hs => hs.of_tokens_eq (hg s).1 (hg s).2

end Stays

/-! ## Looking at the cursor -/

section Looking

variable {P : Cursor → Prop}

theorem position_meets : Meets P position fun _ => P := fun s hs => .inl ⟨s.position, s, rfl, hs⟩

theorem position_stays : Stays ts position := position_meets

theorem rest_meets : Meets P rest fun tokens s => s.tokens = tokens ∧ P s :=
  fun s hs => .inl ⟨s.tokens, s, rfl, rfl, hs⟩

theorem rest_stays : Stays ts rest := rest_meets.post fun _ _ h => h.2

theorem fail_meets {Q : α → Cursor → Prop} {cause : Cause} : Meets P (fail cause) Q :=
  Meets.bind .get fun _ => .failAt

end Looking

/-! ## Going over tokens -/

theorem skip_meets {count : Nat} (taken : List Token) :
    Meets (fun s => s.tokens.take count = taken ∧ s.Behind ts read) (skip count)
      fun _ => Behind ts (read ++ taken) := by
  refine Meets.bind .get fun s => ?_
  dsimp only
  split
  · exact .failAt
  · refine .set ?_
    rintro _ ⟨rfl, htaken, h⟩
    exact h.advance (by rw [← htaken, List.take_append_drop]) rfl

theorem skip_stays (count : Nat) : Stays ts (skip count) := fun s hs =>
  Meets.post (skip_meets _) (fun _ _ => Behind.forget) s ⟨rfl, hs⟩

/-- Going over one token. -/
theorem skip_one (read : List Token) {t : Token} {more : List Token} :
    Meets (fun s => s.tokens = t :: more ∧ s.Behind ts read) (skip 1) fun _ => Behind ts (read ++ [t]) :=
  (skip_meets [t]).pre fun _ ⟨hs, h⟩ => ⟨hs ▸ rfl, h⟩

theorem next_meets : Meets (Behind ts read) next fun t => Behind ts (read ++ t.toList) := by
  refine Meets.bind rest_meets fun tokens => ?_
  cases tokens with
  | nil =>
    refine .pure ?_
    rintro s ⟨-, h⟩
    rwa [Option.toList_none, List.append_nil]
  | cons t more => exact .bind (skip_one read) fun _ => .pure fun _ => id

theorem next_stays : Stays ts next := next_meets.post fun _ _ => Behind.forget

theorem accept_meets {c : Char} :
    Meets (Behind ts read) (accept c) fun b => Behind ts (read ++ if b then [.plain c] else []) := by
  refine Meets.bind rest_meets fun tokens => ?_
  split
  · next hhead =>
    obtain ⟨more, rfl⟩ := List.head?_eq_some_iff.mp hhead
    exact .bind (skip_one read) fun _ => .pure fun _ => id
  · refine .pure ?_
    rintro s ⟨-, h⟩
    rwa [if_neg Bool.false_ne_true, List.append_nil]

theorem accept_stays {c : Char} : Stays ts (accept c) := accept_meets.post fun _ _ => Behind.forget

/-- The text of tokens that are characters with a property. -/
theorem map_plain_tokensText {p : Char → Bool} {tokens : List Token}
    (h : ∀ t ∈ tokens, t.holds p = true) :
    (tokensText tokens).map .plain = tokens ∧ (tokensText tokens).all p := by
  induction tokens with
  | nil => exact ⟨rfl, rfl⟩
  | cons t more ih =>
    obtain ⟨ht, hmore⟩ := List.forall_mem_cons.mp h
    obtain ⟨hmap, hall⟩ := ih hmore
    cases t with
    | plain c => exact ⟨congrArg (Token.plain c :: ·) hmap, Bool.and_eq_true_iff.mpr ⟨ht, hall⟩⟩
    | escaped c => cases ht

theorem charsUpTo_meets {count : Nat} {p : Char → Bool} :
    Meets (Behind ts read) (charsUpTo count p)
      fun text s => text.all p ∧ s.Behind ts (read ++ text.map .plain) := by
  refine Meets.bind rest_meets fun tokens => ?_
  have hprefix := (List.takeWhile_prefix (Token.holds p) (l := tokens.take count)).trans
    (List.take_prefix count tokens)
  have hinside : ∀ t ∈ (tokens.take count).takeWhile (Token.holds p), t.holds p = true :=
    fun _ => List.mem_takeWhile_imp
  obtain ⟨hmap, hall⟩ := map_plain_tokensText hinside
  refine .bind (.pre (skip_meets ((tokens.take count).takeWhile (Token.holds p))) ?_)
    fun _ => .pure fun s h => ⟨hall, by rwa [hmap]⟩
  rintro s ⟨hs, h⟩
  exact ⟨by rw [hs]; exact (List.prefix_iff_eq_take.mp hprefix).symm, h⟩

theorem charsUpTo_stays {count : Nat} {p : Char → Bool} : Stays ts (charsUpTo count p) :=
  charsUpTo_meets.post fun _ _ h => h.2.forget

theorem name_stays {what : String} {closing : Char} : Stays ts (name what closing) := by
  unfold name
  refine .bind position_stays fun start => .bind rest_stays fun tokens => .bind (skip_stays _) fun _ => ?_
  split
  · split
    · exact fail_meets
    · exact .failAt
  · refine .bind (skip_stays 1) fun _ => ?_
    split
    · exact .failAt
    · exact .pure _

end Reading

end ScanPolicy.Pattern
