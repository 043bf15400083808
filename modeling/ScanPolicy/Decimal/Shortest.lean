import ScanPolicy.Text.Basic

/-!
# Decimal texts of floating-point numbers

A finite double is `m * 2 ^ q` with natural `m`. Every decimal that lies in the interval of
reals rounding to it reads back as the same double, and the text of the double is the shortest of
them, the nearest among those of equal length.

- `Binary.ofFloat`: the exact value of a finite double.
- `Binary.shortest`: the digits and the decimal exponent of the shortest decimal.
- `Binary.thousandths`: the nearest multiple of one thousandth, halves going to the even one.
- `FloatLayout`: where positional notation ends and how the exponent is written.
- `FloatLayout.render`: the text of a double.
-/

namespace ScanPolicy

/-- The exact value `mantissa * 2 ^ exponent` of a nonnegative finite double. -/
structure Binary where
  mantissa : Nat
  exponent : Int
deriving DecidableEq, Repr

namespace Binary

/-- The sign and the exact magnitude of a finite double. -/
def ofFloat (x : Float) : Bool × Binary :=
  let bits : Nat := x.toBits.toNat
  let negative := bits / Nat.pow 2 63 == 1
  let biased : Nat := bits / Nat.pow 2 52 % Nat.pow 2 11
  let fraction : Nat := bits % Nat.pow 2 52
  if biased == 0 then (negative, ⟨fraction, -1074⟩)
  else (negative, ⟨fraction + Nat.pow 2 52, (biased : Int) - 1075⟩)

/-- A value as a fraction: numerator and denominator. -/
def ratio (b : Binary) : Nat × Nat :=
  if 0 ≤ b.exponent then (b.mantissa * Nat.pow 2 b.exponent.toNat, 1)
  else (b.mantissa, Nat.pow 2 (-b.exponent).toNat)

/-- `num / den` rounded to the nearest integer, halves to the even one. -/
def roundDiv (num den : Nat) : Nat :=
  let q := num / den
  let r := num % den
  if den < 2 * r || (2 * r == den && q % 2 == 1) then q + 1 else q

/-- The number of thousandths nearest to the value. -/
def thousandths (b : Binary) : Nat :=
  let (num, den) := b.ratio
  roundDiv (num * 1000) den

/-- The decimal exponent `e` with `10 ^ (e - 1) ≤ num / den < 10 ^ e`, searched upward from a
guess that is at most that exponent. -/
def magnitudeFrom (num den : Nat) : Nat → Int → Int
  | 0, e => e
  | fuel + 1, e =>
    let reached :=
      if 0 ≤ e then num < den * Nat.pow 10 e.toNat else num * Nat.pow 10 (-e).toNat < den
    if reached then e else magnitudeFrom num den fuel (e + 1)

/-- A guess at the decimal exponent that is never too large: 30103 / 100000 is just above the
decimal logarithm of two, 30102 / 100000 just below. -/
def magnitudeGuess (b : Binary) : Int :=
  let top : Int := (b.mantissa.log2 : Int) + b.exponent
  (if 0 ≤ top then top * 30102 / 100000 else top * 30103 / 100000) - 1

/-- The digits of the decimals with `count` digits next to the value, below and above, that lie in
the interval of reals rounding to the double; of two the nearer one. -/
def candidate? (b : Binary) (magnitude : Int) (count : Nat) : Option Nat :=
  -- everything is scaled by `4 * 10 ^ (count - magnitude)`, so that interval ends are integers
  let shift : Int := (count : Int) - magnitude
  let (num, den) := b.ratio
  let scaleNum := if 0 ≤ shift then Nat.pow 10 shift.toNat else 1
  let scaleDen := if 0 ≤ shift then 1 else Nat.pow 10 (-shift).toNat
  let value := 4 * num * scaleNum
  let unit := 4 * den * scaleDen
  -- half a unit in the last place of the mantissa, in the same scale
  let (ulpNum, _) := ratio ⟨1, b.exponent⟩
  let half := 2 * ulpNum * scaleNum
  let halfBelow := if b.mantissa == Nat.pow 2 52 && b.exponent != -1074 then half / 2 else half
  let even := b.mantissa % 2 == 0
  let inside (k : Nat) : Bool :=
    let d := k * unit
    if d ≤ value then
      value - d < halfBelow || (even && value - d == halfBelow)
    else
      d - value < half || (even && d - value == half)
  let low := value / unit
  match inside low, inside (low + 1) with
  | true, true =>
    let below := value - low * unit
    let above := (low + 1) * unit - value
    if below < above || (below == above && low % 2 == 0) then some low else some (low + 1)
  | true, false => some low
  | false, true => some (low + 1)
  | false, false => none

/-- The first digit count from `count` on with a decimal that reads back. -/
def shortestFrom (b : Binary) (magnitude : Int) : Nat → Nat → Nat × Nat
  | 0, count => (0, count)
  | fuel + 1, count =>
    match candidate? b magnitude count with
    | some k => (k, count)
    | none => shortestFrom b magnitude fuel (count + 1)

/-- The digits of the shortest decimal and the exponent `e` for which it is `0.digits * 10 ^ e`;
trailing zeros are dropped. -/
def shortest (b : Binary) : Text × Int :=
  if b.mantissa == 0 then (['0'], 1)
  else
    let (num, den) := b.ratio
    let magnitude := magnitudeFrom num den 8 b.magnitudeGuess
    let (k, count) := shortestFrom b magnitude 18 1
    let digits := Text.ofNat k
    -- rounding up may have produced one digit more
    let e := magnitude + ((digits.length : Int) - (count : Int))
    (Text.dropEndWhile (· == '0') digits, e)

end Binary

/-- Where positional notation ends, and the texts of the values that are no number. -/
structure FloatLayout where
  /-- Positional notation is used for exponents from `low` on. -/
  low : Int
  /-- Positional notation is used for exponents up to `high`. -/
  high : Int
  notANumber : String
  infinity : String

namespace FloatLayout

/-- The digits with a point after the first `e` of them, at least one digit on either side. -/
def positional (digits : Text) (e : Int) : Text :=
  if e ≤ 0 then '0' :: '.' :: (List.replicate (-e).toNat '0' ++ digits)
  else
    let n := e.toNat
    if digits.length ≤ n then digits ++ List.replicate (n - digits.length) '0' ++ ['.', '0']
    else digits.take n ++ '.' :: digits.drop n

/-- One digit, a point and the other digits if any, and an exponent of at least two digits. -/
def scientific (digits : Text) (e : Int) : Text :=
  let shown : Int := e - 1
  let point := match digits with
    | [] => ['0']
    | [d] => [d]
    | d :: rest => d :: '.' :: rest
  let size := Text.ofNat shown.natAbs
  let sign := if shown < 0 then '-' else '+'
  point ++ 'e' :: sign :: (if size.length < 2 then '0' :: size else size)

/-- The text of a double. -/
def render (layout : FloatLayout) (x : Float) : Text :=
  if x.isNaN then layout.notANumber.toList
  else
    let (negative, b) := Binary.ofFloat x
    let body :=
      if x.isInf then layout.infinity.toList
      else
        let (digits, e) := b.shortest
        if layout.low ≤ e && e ≤ layout.high then positional digits e else scientific digits e
    if negative then '-' :: body else body

end FloatLayout

end ScanPolicy
