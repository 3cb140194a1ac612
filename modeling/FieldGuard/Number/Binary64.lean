/-!
# `FieldGuard.Number.Binary64`: what a floating point number is

A finite number of the 64-bit binary format is `± significand * 2 ^ exponent`.
This module reads sign, significand and exponent off the bits, orders numbers by
a whole-number key, and tells which of them are whole.

* `orderKey`: for numbers that are not NaN the order of the keys is the order of
  the numbers; both zeros have key zero;
* `whole?`: the whole number that a number is, if it is one.
-/

set_option autoImplicit false

namespace FieldGuard.Number

/-- Whether the sign bit is set, also on zero and NaN. -/
def isNegative (x : Float) : Bool :=
  Nat.pow 2 63 ≤ x.toBits.toNat

/-- The bits below the sign bit: eleven of the exponent field, fifty-two of the fraction. -/
def magnitudeBits (x : Float) : Nat :=
  x.toBits.toNat % Nat.pow 2 63

/-- The eleven bits of the exponent field. -/
def exponentField (x : Float) : Nat :=
  magnitudeBits x / Nat.pow 2 52

/-- The fifty-two bits of the fraction. -/
def fractionField (x : Float) : Nat :=
  magnitudeBits x % Nat.pow 2 52

/-- Neither NaN nor infinite. -/
def isFinite (x : Float) : Bool :=
  exponentField x ≠ 2047

/-- No number at all. -/
def isNaN (x : Float) : Bool :=
  exponentField x = 2047 && fractionField x ≠ 0

/-- Significand of a finite number, as a whole number below `2 ^ 53`. -/
def significand (x : Float) : Nat :=
  if exponentField x = 0 then fractionField x else Nat.pow 2 52 + fractionField x

/-- Binary exponent that belongs to the significand. -/
def exponent (x : Float) : Int :=
  (max 1 (exponentField x) : Nat) - 1075

/-- A whole number that orders the numbers which are not NaN as they are ordered. -/
def orderKey (x : Float) : Int :=
  if isNegative x then -(magnitudeBits x : Int) else magnitudeBits x

/-- The whole number that a number is; nothing for NaN, the infinities and fractions. -/
def whole? (x : Float) : Option Int :=
  if isFinite x then
    let size : Option Nat :=
      match exponent x with
      | .ofNat e => some (significand x * Nat.pow 2 e)
      | .negSucc e =>
        let unit := Nat.pow 2 (e + 1)
        if significand x % unit = 0 then some (significand x / unit) else none
    size.map fun n => if isNegative x then -(n : Int) else n
  else none

/-- A whole number brought into the range of the 64-bit signed ones. -/
def saturate (n : Int) : Int64 :=
  if n < Int64.minValue.toInt then Int64.minValue
  else if Int64.maxValue.toInt < n then Int64.maxValue
  else Int64.ofInt n

/-- The 64-bit signed number that is the given whole number, if it is in range. -/
def int64? (n : Int) : Option Int64 :=
  if Int64.minValue.toInt ≤ n ∧ n ≤ Int64.maxValue.toInt then some (Int64.ofInt n) else none

/-- The 64-bit unsigned number that is the given whole number, if it is in range. -/
def uint64? (n : Int) : Option UInt64 :=
  if 0 ≤ n ∧ n < Nat.pow 2 64 then some (UInt64.ofNat n.toNat) else none

/-- The nearest floating point number. -/
def toFloat (n : Int64) : Float :=
  Float.ofInt n.toInt

/-- The finite numbers furthest from zero. -/
def largest : Float := Float.ofBits 0x7fefffffffffffff

/-- The finite number furthest below zero. -/
def least : Float := Float.ofBits 0xffefffffffffffff

/-- Equality as numbers: NaN equals nothing, the two zeros are equal. -/
def sameNumber (x y : Float) : Bool :=
  !isNaN x && !isNaN y && orderKey x == orderKey y

/-- Strictly below as numbers: NaN is below nothing and nothing is below NaN. -/
def below (x y : Float) : Bool :=
  !isNaN x && !isNaN y && decide (orderKey x < orderKey y)

theorem int64?_toInt (n : Int64) : int64? n.toInt = some n := by
  rw [int64?, if_pos ⟨Int64.minValue_le_toInt n, Int64.toInt_le n⟩, Int64.ofInt_toInt]

theorem toInt_of_int64? {n : Int} {i : Int64} (h : int64? n = some i) : i.toInt = n := by
  rw [int64?] at h
  split at h
  · next hn =>
    cases h
    exact Int64.toInt_ofInt_of_le hn.1 (Int.lt_of_le_of_lt hn.2 (by decide))
  · simp at h

theorem uint64?_toNat (n : UInt64) : uint64? n.toNat = some n := by
  rw [uint64?, if_pos ⟨Int.natCast_nonneg _, Int.ofNat_lt.2 n.toNat_lt⟩]
  simp

theorem toNat_of_uint64? {n : Int} {i : UInt64} (h : uint64? n = some i) : (i.toNat : Int) = n := by
  rw [uint64?] at h
  split at h
  · next hn =>
    cases h
    have hfits : n.toNat < Nat.pow 2 64 := by omega
    rw [UInt64.toNat_ofNat_of_lt' hfits, Int.toNat_of_nonneg hn.1]
  · cases h

end FieldGuard.Number
