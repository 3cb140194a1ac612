import FieldGuard.Number.Reading

/-!
# `FieldGuard.Number.QuickReading`: reading decimals in two rounding steps

The digits of a decimal are gathered in a 64-bit number and the rest of them only
counts; the number is rounded to the floating point format and then multiplied or
divided once by a power of ten, which rounds again. Up to fifteen digits and
moderate exponents the result is the nearest number; otherwise it may be one of its
neighbours.
-/

set_option autoImplicit false

namespace FieldGuard.Number

/-- A digit after the others, if the number stays within 64 bits. -/
def pushDigit? (n : Nat) (c : Char) : Option Nat :=
  let pushed := n * 10 + (digit? c).getD 0
  if pushed < Nat.pow 2 64 then some pushed else none

/-- Gathers digits until one does not fit; yields the digits from there on too. -/
def gather (n : Nat) : List Char → Nat × List Char
  | [] => (n, [])
  | c :: rest =>
    match pushDigit? n c with
    | some pushed => gather pushed rest
    | none => (n, c :: rest)

/-- A number divided by a power of ten. A power that the format cannot hold is taken in
several divisions. -/
def dividedByPower (x : Float) (n : Nat) : Float :=
  if n ≤ 308 then x / Float.ofScientific 1 false n
  else if magnitudeBits x = 0 then x
  else dividedByPower (x / Float.ofScientific 1 false 308) (n - 308)
termination_by n

/-- A number times a power of ten; nothing if that is too large for the format. -/
def timesPower? (x : Float) (n : Nat) : Option Float :=
  if n ≤ 308 then some (x * Float.ofScientific 1 false n) |>.filter isFinite
  else if magnitudeBits x = 0 then some x
  else none

/-- The number `digits * 10 ^ exponent` in two rounding steps. -/
def quickScaled? (digits : Nat) (exponent : Int) : Option Float :=
  let x := Float.ofScientific digits false 0
  match exponent with
  | .ofNat n => timesPower? x n
  | .negSucc n => some (dividedByPower x (n + 1))

/-- The decimal with the given digits before and after the point. Digits before the
point that do not fit count as zeros, those after it not at all. -/
def quickDecimal? (whole fraction : List Char) (exponent : Int) : Option Float :=
  let (n, counted) := gather 0 whole
  let (digits, dropped) := gather n fraction
  quickScaled? digits (exponent + counted.length - (fraction.length - dropped.length : Nat))

end FieldGuard.Number
