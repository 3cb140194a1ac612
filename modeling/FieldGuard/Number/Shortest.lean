import FieldGuard.Number.Binary64

/-!
# `FieldGuard.Number.Shortest`: the shortest decimal text of a number

Of all decimals that read back as a given finite number, `shortest` yields one
with the fewest digits, and among those the nearest; of two that are equally
near it takes the larger. `plainText` writes the digits without an exponent and
without a trailing `.0`; `scientificText` writes them with an exponent where the
number is far from one.
-/

set_option autoImplicit false

namespace FieldGuard.Number

/-- The decimal `digits * 10 ^ exponent`. -/
structure Decimal where
  digits : Nat
  exponent : Int

namespace Decimal

/-- Number of decimal digits of a whole number that is not zero. -/
def width (n : Nat) : Nat :=
  (Nat.toDigits 10 n).length

/-- Moves the zeros at the end of the digits into the exponent. -/
def strip : Nat → Decimal → Decimal
  | 0, d => d
  | fuel + 1, d => if d.digits % 10 = 0 then strip fuel ⟨d.digits / 10, d.exponent + 1⟩ else d

/-- Drops the zeros at the end of the digits. -/
def normalized (d : Decimal) : Decimal :=
  if d.digits = 0 then ⟨0, 0⟩ else strip (width d.digits) d

end Decimal

/-- A number `size * 2 ^ exponent` beside the reals that round to it: those from
`low / 4` to `high / 4` in units of `2 ^ exponent`, the ends only if `closed`. -/
structure Rounding where
  size : Nat
  exponent : Int
  low : Nat
  high : Nat
  closed : Bool

/-- The reals that round to a finite number. Below a power of two the numbers
lie twice as dense, so the interval ends at half the distance there. -/
def Rounding.of (x : Float) : Rounding where
  size := significand x
  exponent := Number.exponent x
  low := 4 * significand x - (if significand x = Nat.pow 2 52 ∧ 1 < exponentField x then 1 else 2)
  high := 4 * significand x + 2
  closed := significand x % 2 = 0

/-- `base ^ n` for a natural exponent and one for a negative one. -/
def upward (base : Nat) (n : Int) : Nat := Nat.pow base n.toNat

/-- The multiple of `10 ^ place` that is nearest among those that round to the number. -/
def Rounding.onGrid? (r : Rounding) (place : Int) : Option Nat :=
  -- One step of the grid and one quarter of the binary unit, over a common denominator.
  let step := 4 * upward 10 place * upward 2 (-r.exponent)
  let quarter := upward 2 r.exponent * upward 10 (-place)
  let low := r.low * quarter
  let high := r.high * quarter
  let value := 4 * r.size * quarter
  let inside := fun n : Nat =>
    if r.closed then low ≤ n * step && n * step ≤ high else low < n * step && n * step < high
  let below := value / step
  let above := below + 1
  match 0 < below && inside below, inside above with
  | true, true => some (if value - below * step < above * step - value then below else above)
  | true, false => some below
  | false, true => some above
  | false, false => none

/-- Tries one, two, … digits; `top` is the place of the first digit. -/
def Rounding.search (r : Rounding) (top : Int) : Nat → Nat → Decimal
  | 0, _ => ⟨r.size, 0⟩
  | fuel + 1, places =>
    let place := top - places
    match r.onGrid? place with
    | some n => ⟨n, place⟩
    | none => r.search top fuel (places + 1)

/-- Place of the first decimal digit of a number that is not zero. -/
def Rounding.top (r : Rounding) : Int :=
  let scaled := r.size * upward 2 r.exponent * Nat.pow 10 400 / upward 2 (-r.exponent)
  (Decimal.width scaled : Int) - 401

/-- Fewest digits that read back as the finite number, and of those the nearest; without its sign. -/
def shortest (x : Float) : Decimal :=
  if magnitudeBits x = 0 then ⟨0, 0⟩
  else
    let r := Rounding.of x
    (r.search r.top 18 0).normalized

/-- The digits with the point at its place and no exponent. -/
def Decimal.plain (d : Decimal) : String :=
  let digits := Nat.toDigits 10 d.digits
  match d.exponent with
  | .ofNat zeros => String.ofList (digits ++ List.replicate zeros '0')
  | .negSucc n =>
    let places := n + 1
    if places < digits.length then
      String.ofList (digits.take (digits.length - places) ++ '.' :: digits.drop (digits.length - places))
    else String.ofList ('0' :: '.' :: (List.replicate (places - digits.length) '0' ++ digits))

/-- A number that is not finite, or the sign and the text of a finite one. -/
def signedText (text : Decimal → String) (x : Float) : String :=
  if isNaN x then "NaN"
  else
    let body := if isFinite x then text (shortest x) else "inf"
    if isNegative x then "-" ++ body else body

/-- Shortest text that reads back, never with an exponent, without a trailing `.0`. -/
def plainText (x : Float) : String :=
  signedText Decimal.plain x

/-- The digits with `.0` on a whole number, and with an exponent from `1e16` on and below `1e-5`. -/
def Decimal.scientific (d : Decimal) : String :=
  let digits := Nat.toDigits 10 d.digits
  let point := (digits.length : Int) + d.exponent
  if d.digits = 0 then "0.0"
  else if 0 ≤ d.exponent ∧ point ≤ 16 then d.plain ++ ".0"
  else if -5 < point ∧ point ≤ 16 then d.plain
  else
    let tail := digits.drop 1
    let mantissa := digits.take 1 ++ (if tail.isEmpty then [] else '.' :: tail)
    String.ofList mantissa ++ "e" ++ toString (point - 1)

/-- Shortest text that reads back and that is visibly no whole number. -/
def scientificText (x : Float) : String :=
  signedText Decimal.scientific x

end FieldGuard.Number
