import ScanPolicy.Moment.Basic
import ScanPolicy.Text.DecimalDigit

/-!
# Reading moments

A moment in written form: date, `T`, time, part of a second if any, and then `Z`, an offset of
hours and minutes, or nothing.

- `Written.parse?`: the wall time and the offset as written.
- `Written.universal?`: the moment on the universal clock, no offset meaning universal time.
-/

namespace ScanPolicy

/-- A wall time and the offset, in seconds, that is written after it. -/
structure Written where
  wall : WallTime
  offset : Option Int

namespace Written

/-- The value of exactly `n` digits at the start of a text, and the rest. -/
def digits? (n : Nat) (t : Text) : Option (Nat × Text) :=
  if t.length < n then none else (Text.asciiNat? (t.take n)).map (·, t.drop n)

/-- The rest of a text after an expected character. -/
def after? (c : Char) : Text → Option Text
  | d :: rest => if d = c then some rest else none
  | [] => none

/-- The part of a second in microseconds, further digits cut off. -/
def fraction (t : Text) : Nat × Text :=
  match t with
  | '.' :: rest =>
    let ds := rest.takeWhile Char.isDigit
    let six := (ds ++ List.replicate 6 '0').take 6
    ((Text.asciiNat? six).getD 0, rest.dropWhile Char.isDigit)
  | _ => (0, t)

/-- The offset at the end of a text, if one is written there. -/
def offset? (t : Text) : Option (Option Int) :=
  match t with
  | [] => some none
  | ['Z'] => some (some 0)
  | sign :: rest => do
    let (h, rest) ← digits? 2 rest
    let rest ← after? ':' rest
    let (m, rest) ← digits? 2 rest
    let s ← match rest with
      | [] => some 0
      | ':' :: rest =>
        match digits? 2 rest with
        | some (s, []) => some s
        | _ => none
      | _ => none
    let n : Int := (h * 3600 + m * 60 + s : Nat)
    if sign = '+' then some (some n) else if sign = '-' then some (some (-n)) else none

/-- The wall time and the offset as written. -/
def parse? (t : Text) : Option Written := do
  let (y, t) ← digits? 4 t
  let t ← after? '-' t
  let (mo, t) ← digits? 2 t
  let t ← after? '-' t
  let (d, t) ← digits? 2 t
  let t ← after? 'T' t
  let (h, t) ← digits? 2 t
  let t ← after? ':' t
  let (mi, t) ← digits? 2 t
  let t ← after? ':' t
  let (s, t) ← digits? 2 t
  let (us, t) := fraction t
  let offset ← offset? t
  let wall ← WallTime.ofFields? ⟨y, mo, d⟩ h mi s us
  some ⟨wall, offset⟩

/-- The moment on the universal clock. -/
def universal? (w : Written) : Option Moment :=
  (w.wall.add? (-(w.offset.getD 0) * Span.second)).map (⟨·, .universal, false⟩)

end Written

end ScanPolicy
