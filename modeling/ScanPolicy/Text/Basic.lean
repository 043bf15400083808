/-!
# Texts

A text is the list of its characters, so that every reader of the library is a plain
recursion and its laws are laws of lists.

- `Text.pieces`: the parts of a text between the occurrences of one separator; there is
  always at least one part, and joining the parts with the separator gives the text back
  (`Text.intercalate_pieces`).
- `Text.cut`: a text split at the first occurrence of a character.
- `Text.startsWith`, `Text.ofNat`, `Text.ofInt`: small readers and writers.
-/

namespace ScanPolicy

/-- A text is the list of its characters. -/
abbrev Text := List Char

namespace Text

/-- The parts of a text between the occurrences of `sep`. -/
def pieces (sep : Char) : Text → List Text
  | [] => [[]]
  | c :: rest =>
    if c = sep then [] :: pieces sep rest
    else match pieces sep rest with
      | [] => [[c]]
      | p :: ps => (c :: p) :: ps

/-- The part before the first `sep`, and the part after it if there is one. -/
def cut (sep : Char) : Text → Text × Option Text
  | [] => ([], none)
  | c :: rest =>
    if c = sep then ([], some rest)
    else
      let (before, after) := cut sep rest
      (c :: before, after)

/-- Whether `t` begins with `start`. -/
def startsWith (start t : Text) : Bool := start.isPrefixOf t

/-- The first part that is left after characters satisfying `p` are dropped from the end. -/
def dropEndWhile (p : Char → Bool) (t : Text) : Text := (t.reverse.dropWhile p).reverse

/-- The decimal digits of a natural number. -/
def ofNat (n : Nat) : Text := Nat.toDigits 10 n

/-- The decimal digits of an integer, with a minus sign if it is negative. -/
def ofInt : Int → Text
  | .ofNat n => ofNat n
  | .negSucc n => '-' :: ofNat (n + 1)

theorem pieces_ne_nil (sep : Char) (t : Text) : pieces sep t ≠ [] := by
  cases t with
  | nil => simp [pieces]
  | cons c rest =>
    simp only [pieces]
    split
    · simp
    · split <;> simp

/-- Joining the pieces with the separator gives the text back. -/
theorem intercalate_pieces (sep : Char) (t : Text) :
    List.intercalate [sep] (pieces sep t) = t := by
  induction t with
  | nil => simp [pieces, List.intercalate]
  | cons c rest ih =>
    have hne := pieces_ne_nil sep rest
    simp only [pieces]
    split
    next h =>
      subst h
      cases hp : pieces c rest with
      | nil => exact absurd hp hne
      | cons p ps =>
        rw [hp] at ih
        simp only [List.intercalate, List.intersperse, List.flatten_cons] at ih ⊢
        simpa using ih
    next h =>
      cases hp : pieces sep rest with
      | nil => exact absurd hp hne
      | cons p ps =>
        rw [hp] at ih
        cases ps with
        | nil => simpa [List.intercalate, List.intersperse] using ih
        | cons q qs => simpa [List.intercalate, List.intersperse] using ih

/-- A cut loses nothing. -/
theorem cut_some {sep : Char} {t before after : Text} (h : cut sep t = (before, some after)) :
    t = before ++ sep :: after := by
  induction t generalizing before with
  | nil => simp [cut] at h
  | cons c rest ih =>
    simp only [cut] at h
    split at h
    next hc => simp_all
    next hc =>
      cases hr : cut sep rest with
      | mk b a =>
        rw [hr] at h
        simp only [Prod.mk.injEq] at h
        obtain ⟨rfl, rfl⟩ := h
        simp [ih hr]

end Text

end ScanPolicy
