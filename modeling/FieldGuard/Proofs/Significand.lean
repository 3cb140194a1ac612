import FieldGuard.Number.Binary64
import Mathlib

/-!
# `FieldGuard.Proofs.Significand`: which floating point number a whole number becomes

A whole number keeps the first 53 of its binary digits; what is shifted out decides by the
rule to the nearest, and of two that are equally near to the even one, whether the last digit
goes up. `nearestQuotient` is this rule for a quotient of whole numbers. The rounding of the
floating point model works with two extra bits beside the digits that it keeps, and the
invariant `Shifted` says what these bits tell about the digits that are gone.

* `Shifted.roundedMantissa`: the model rounds by `nearestQuotient`;
* `unpack_pack`: packing a normal number into bits loses nothing;
* `orderKey_pack`: the place of a normal number in the order, from significand and exponent;
* `exists_ofNat`: the floating point number of a whole number is normal, and its place in the
  order is given by the number of binary digits and the digits that are kept.
-/

set_option autoImplicit false

namespace FieldGuard.Number

open Float.Model Float.Model.UnpackedFloat

/-! ### Rounding a quotient -/

/-- The whole number nearest to a quotient; of two that are equally near the even one. -/
def nearestQuotient (n d : Nat) : Nat :=
  if 2 * (n % d) < d ∨ 2 * (n % d) = d ∧ n / d % 2 = 0 then n / d else n / d + 1

theorem nearestQuotient_bounds (n d : Nat) :
    n / d ≤ nearestQuotient n d ∧ nearestQuotient n d ≤ n / d + 1 := by
  unfold nearestQuotient
  split <;> omega

theorem nearestQuotient_mono {m n : Nat} (h : m ≤ n) (d : Nat) :
    nearestQuotient m d ≤ nearestQuotient n d := by
  have hm := nearestQuotient_bounds m d
  have hn := nearestQuotient_bounds n d
  rcases Nat.lt_or_eq_of_le (Nat.div_le_div_right (c := d) h) with hlt | heq
  · omega
  · -- With one quotient the remainders are in the order of the numbers.
    have hrest : m % d ≤ n % d := by
      have h1 := Nat.div_add_mod m d
      have h2 := Nat.div_add_mod n d
      rw [heq] at h1
      omega
    unfold nearestQuotient
    rw [heq]
    split <;> split <;> omega

theorem nearestQuotient_mul (n : Nat) {d : Nat} (hd : 0 < d) : nearestQuotient (n * d) d = n := by
  simp [nearestQuotient, Nat.mul_div_cancel n hd, hd]

theorem nearestQuotient_one (n : Nat) : nearestQuotient n 1 = n := by
  have h := nearestQuotient_mul n (d := 1) (by decide)
  rwa [Nat.mul_one] at h

/-- A common factor does not matter. -/
theorem nearestQuotient_mul_mul (n d : Nat) {c : Nat} (hc : 0 < c) :
    nearestQuotient (n * c) (d * c) = nearestQuotient n d := by
  have hless : 2 * (n % d * c) < d * c ↔ 2 * (n % d) < d := by
    rw [← Nat.mul_assoc]
    exact Nat.mul_lt_mul_right hc
  have hsame : 2 * (n % d * c) = d * c ↔ 2 * (n % d) = d := by
    rw [← Nat.mul_assoc]
    exact Nat.mul_left_inj (Nat.ne_of_gt hc)
  unfold nearestQuotient
  rw [Nat.mul_div_mul_right _ _ hc, Nat.mul_mod_mul_right]
  simp only [hless, hsame]

/-- The rounded quotient is at most half a unit away. -/
theorem nearestQuotient_near (n : Nat) {d : Nat} (hd : 0 < d) :
    2 * (nearestQuotient n d * d) ≤ 2 * n + d ∧ 2 * n ≤ 2 * (nearestQuotient n d * d) + d := by
  have hsplit := Nat.div_add_mod n d
  have hrest := Nat.mod_lt n hd
  have hdown : n / d * d = d * (n / d) := Nat.mul_comm _ _
  have hup : (n / d + 1) * d = d * (n / d) + d := by rw [Nat.succ_mul, hdown]
  unfold nearestQuotient
  split
  · rw [hdown]
    omega
  · rw [hup]
    omega

/-! ### Shifting digits out -/

/-- What is left of a number when its last `k` binary digits are shifted out: the two extra bits
tell how the digits that are gone compare with a half. -/
structure Shifted (n k : Nat) (em : ExtendedMantissa) : Prop where
  mantissa : em.mantissa = n / 2 ^ k
  roundBit : em.roundBit = true ↔ 2 ^ k ≤ 2 * (n % 2 ^ k)
  stickyBit : em.stickyBit = true ↔ n % 2 ^ k ≠ 0 ∧ 2 * (n % 2 ^ k) ≠ 2 ^ k

theorem Shifted.shiftRightOne {n k : Nat} {em : ExtendedMantissa} (h : Shifted n k em) :
    Shifted n (k + 1) em.shiftRightOne := by
  obtain ⟨hmantissa, hround, hsticky⟩ := h
  have hpow : 2 ^ (k + 1) = 2 * 2 ^ k := by rw [Nat.pow_succ, Nat.mul_comm]
  have hrest : n % 2 ^ (k + 1) = n % 2 ^ k + 2 ^ k * (em.mantissa % 2) := by
    rw [hmantissa, Nat.pow_succ]
    exact Nat.mod_mul
  have hlt : n % 2 ^ k < 2 ^ k := Nat.mod_lt n (Nat.two_pow_pos k)
  have hquotient : em.shiftRightOne.mantissa = n / 2 ^ (k + 1) := by
    show em.mantissa / 2 = _
    rw [hmantissa, Nat.div_div_eq_div_mul, Nat.pow_succ]
  refine ⟨hquotient, ?_, ?_⟩
  · -- The digit that goes last is the new round bit.
    show (em.mantissa % 2 != 0) = true ↔ _
    rw [hrest, hpow]
    rcases Nat.mod_two_eq_zero_or_one em.mantissa with hbit | hbit
    · simp [hbit]
      omega
    · simp [hbit]
  · show (em.roundBit || em.stickyBit) = true ↔ _
    rw [Bool.or_eq_true, hround, hsticky, hrest, hpow]
    rcases Nat.mod_two_eq_zero_or_one em.mantissa with hbit | hbit <;> (rw [hbit]; omega)

theorem shifted_shiftRight (n k : Nat) :
    Shifted n k (ExtendedMantissa.ofMantissaAndAccuracy n .exact >>> k) := by
  induction k with
  | zero =>
    have hnone : Shifted n 0 ⟨n, false, false⟩ :=
      ⟨by simp, by simp [Nat.mod_one], by simp [Nat.mod_one]⟩
    exact hnone
  | succ k ih => exact ih.shiftRightOne

/-- The model rounds what is left to the nearest quotient. -/
theorem Shifted.roundedMantissa {n k : Nat} {em : ExtendedMantissa} (h : Shifted n k em) :
    em.roundedMantissa = nearestQuotient n (2 ^ k) := by
  obtain ⟨m, round, sticky⟩ := em
  obtain ⟨hmantissa, hround, hsticky⟩ := h
  dsimp only at hmantissa hround hsticky
  have hpos : 0 < 2 ^ k := Nat.two_pow_pos k
  unfold nearestQuotient
  rw [← hmantissa]
  cases round <;> cases sticky <;>
    simp only [Bool.false_eq_true, false_iff, true_iff] at hround hsticky
  · rw [if_pos (by omega)]
    rfl
  · rw [if_pos (by omega)]
    rfl
  · show m + m % 2 = _
    split <;> omega
  · rw [if_neg (by omega)]
    rfl

/-! ### Rounding to 53 binary digits -/

theorem log2_mul_two_pow {n : Nat} (hpos : 0 < n) (k : Nat) :
    (n * 2 ^ k).log2 = n.log2 + k := by
  have hpow := Nat.two_pow_pos k
  have hne : n * 2 ^ k ≠ 0 := Nat.ne_of_gt (Nat.mul_pos hpos hpow)
  obtain ⟨hle, hlt⟩ := (Nat.log2_eq_iff (by omega : n ≠ 0)).1 rfl
  have hexp : n.log2 + k + 1 = n.log2 + 1 + k := by omega
  rw [Nat.log2_eq_iff hne, hexp, Nat.pow_add, Nat.pow_add _ (n.log2 + 1)]
  exact ⟨Nat.mul_le_mul_right _ hle, Nat.mul_lt_mul_of_pos_right hlt hpow⟩

section
variable {n k : Nat} (hn : n.log2 = 52 + k)
include hn

/-- Of `52 + k` binary digits and one more, `k` are shifted out. -/
theorem shiftToTargetExponent_eq {e : Int} (he : -1074 ≤ e + k) :
    shiftToTargetExponent Format.binary64 n e .exact
      = (ExtendedMantissa.ofMantissaAndAccuracy n .exact >>> k, e + k) := by
  have htarget : Format.binary64.targetExponent (totalExponent n e) = e + k := by
    simp only [Format.targetExponent, totalExponent, Format.mantissaBits, Format.minExponent, hn]
    omega
  have hshift : (e + k - e).toNat = k := by omega
  simp only [shiftToTargetExponent, shiftToExponent, htarget, hshift]

/-- Rounding leaves 53 digits, or the power of two that comes next. -/
theorem nearestQuotient_significand :
    2 ^ 52 ≤ nearestQuotient n (2 ^ k) ∧ nearestQuotient n (2 ^ k) ≤ 2 ^ 53 := by
  have hne : n ≠ 0 := by
    rintro rfl
    rw [Nat.log2_zero] at hn
    omega
  obtain ⟨hle, hlt⟩ := (Nat.log2_eq_iff hne).1 hn
  have hpos : 0 < 2 ^ k := Nat.two_pow_pos k
  have hexp : 52 + k + 1 = 53 + k := by omega
  have hlow : 2 ^ 52 ≤ n / 2 ^ k := by
    rwa [Nat.le_div_iff_mul_le hpos, ← Nat.pow_add]
  have hhigh : n / 2 ^ k < 2 ^ 53 := by
    rwa [Nat.div_lt_iff_lt_mul hpos, ← Nat.pow_add, ← hexp]
  have hbounds := nearestQuotient_bounds n (2 ^ k)
  omega

theorem roundWithAccuracy_of_lt {e : Int} (he : -1074 ≤ e + k) (s : Sign)
    (hpos : 0 < nearestQuotient n (2 ^ k)) (hlt : nearestQuotient n (2 ^ k) < 2 ^ 53) :
    roundWithAccuracy Format.binary64 s n e .exact
      = .finite s (nearestQuotient n (2 ^ k)) (e + k) hpos := by
  have hlog : (nearestQuotient n (2 ^ k)).log2 = 52 + 0 :=
    (Nat.log2_eq_iff (by omega)).2 ⟨(nearestQuotient_significand hn).1, hlt⟩
  have hrounded := (shifted_shiftRight n k).roundedMantissa
  -- The model shifts once more, in case that rounding has brought a new digit.
  have hagain := shiftToTargetExponent_eq hlog (e := e + k) (by omega)
  have hkept := (shifted_shiftRight (nearestQuotient n (2 ^ k)) 0).mantissa
  rw [Nat.pow_zero, Nat.div_one] at hkept
  simp only [roundWithAccuracy, shiftToTargetExponent_eq hn he, hrounded, hagain, hkept,
    dif_neg (Nat.ne_of_gt hpos), Int.natCast_zero, Int.add_zero]

theorem roundWithAccuracy_of_carry {e : Int} (he : -1074 ≤ e + k) (s : Sign)
    (hcarry : nearestQuotient n (2 ^ k) = 2 ^ 53) :
    roundWithAccuracy Format.binary64 s n e .exact
      = .finite s (2 ^ 52) (e + k + 1) (by decide) := by
  have hlog : (2 ^ 53).log2 = 52 + 1 := Nat.log2_two_pow
  have hhalf : 2 ^ 53 / 2 ^ 1 = 2 ^ 52 := by decide
  have hrounded := (shifted_shiftRight n k).roundedMantissa
  have hagain := shiftToTargetExponent_eq hlog (e := e + k) (by omega)
  have hkept := (shifted_shiftRight (2 ^ 53) 1).mantissa
  rw [hhalf] at hkept
  simp only [roundWithAccuracy, shiftToTargetExponent_eq hn he, hrounded, hcarry, hagain, hkept]
  rfl

end

/-- Zeros after 53 digits are shifted out without rounding. -/
theorem roundWithAccuracy_exact {m : Nat} (hm : m.log2 = 52) (k : Nat) {e : Int}
    (he : -1074 ≤ e + k) (s : Sign) (hpos : 0 < m) :
    roundWithAccuracy Format.binary64 s (m * 2 ^ k) e .exact = .finite s m (e + k) hpos := by
  have hdigits : (m * 2 ^ k).log2 = 52 + k := by rw [log2_mul_two_pow hpos, hm]
  have hexact := nearestQuotient_mul m (Nat.two_pow_pos k)
  have hlt : m < 2 ^ 53 := (Nat.log2_lt (by omega)).1 (by omega)
  rw [roundWithAccuracy_of_lt hdigits he s (by omega) (by omega)]
  simp only [hexact]

/-! ### Packing a normal number into bits -/

theorem toNat_packComponents (s : Sign) (e : BitVec 11) (m : BitVec 52) :
    (packComponents Format.binary64 s e m).toNat
      = s.toBitVec.toNat * 2 ^ 63 + e.toNat * 2 ^ 52 + m.toNat := by
  unfold packComponents
  rw [BitVec.toNat_append, BitVec.toNat_append, ← Nat.shiftLeft_add_eq_or_of_lt e.isLt,
    ← Nat.shiftLeft_add_eq_or_of_lt m.isLt, Nat.shiftLeft_eq, Nat.shiftLeft_eq]
  omega

/-- Significand and exponent of a normal number. -/
structure Normal (m : Nat) (e : Int) : Prop where
  low : 2 ^ 52 ≤ m
  high : m < 2 ^ 53
  least : -1074 ≤ e
  most : e ≤ 971

namespace Normal

variable {m : Nat} {e : Int} (h : Normal m e) (s : Sign) (hpos : 0 < m)
include h

theorem pack_eq :
    UnpackedFloat.pack Format.binary64 (.finite s m e hpos)
      = packComponents Format.binary64 s (BitVec.ofNat 11 (e + 1075).toNat) (BitVec.ofNat 52 m) := by
  obtain ⟨hlow, hhigh, hleast, hmost⟩ := h
  have hlog : m.log2 = 52 := (Nat.log2_eq_iff (by omega)).2 ⟨hlow, hhigh⟩
  have hfield : (e + (Format.binary64.exponentBias : Int)
      + (Format.binary64.mantissaBitsWithoutImplicit : Int)).toNat = (e + 1075).toNat := by
    show (e + 1023 + 52).toNat = _
    omega
  have hfits : ¬ 2 ^ 11 ≤ (e + 1075).toNat + 1 := by omega
  simp only [UnpackedFloat.pack, hfield, hlog]
  rw [if_neg hfits]
  rfl

theorem toNat_exponent : (BitVec.ofNat 11 (e + 1075).toNat).toNat = (e + 1075).toNat := by
  have hleast := h.least
  have hmost := h.most
  rw [BitVec.toNat_ofNat]
  omega

theorem toNat_fraction : (BitVec.ofNat 52 m).toNat = m - 2 ^ 52 := by
  have hlow := h.low
  have hhigh := h.high
  rw [BitVec.toNat_ofNat]
  omega

theorem unpack_pack :
    (Float.Model.pack (.finite s m e hpos)).unpack = .finite s m e hpos := by
  have hexponent := h.toNat_exponent
  have hfraction := h.toNat_fraction
  have hbits : (Float.Model.pack (.finite s m e hpos)).toBits.toBitVec
      = UnpackedFloat.pack Format.binary64 (.finite s m e hpos) := rfl
  have hpacked := h.pack_eq s hpos
  obtain ⟨hlow, hhigh, hleast, hmost⟩ := h
  -- The exponent field is neither that of infinity nor that of zero.
  have hnotOnes : BitVec.ofNat 11 (e + 1075).toNat ≠ -1#11 := by
    intro heq
    have hones : (-1#11).toNat = 2047 := by decide
    rw [heq, hones] at hexponent
    omega
  have hnotZero : BitVec.ofNat 11 (e + 1075).toNat ≠ 0#11 := by
    intro heq
    have hzero : (0#11).toNat = 0 := rfl
    rw [heq, hzero] at hexponent
    omega
  have hmantissa : (1#1 ++ BitVec.ofNat 52 m).toNat = m := by
    have hone : (1#1).toNat = 1 := rfl
    rw [BitVec.toNat_append, ← Nat.shiftLeft_add_eq_or_of_lt (BitVec.isLt _), hfraction, hone,
      Nat.shiftLeft_eq]
    omega
  rw [Float.Model.unpack, hbits, hpacked]
  simp only [UnpackedFloat.unpack, unpackExponent_packComponents, unpackMantissa_packComponents,
    unpackSign_packComponents, Sign.ofBitVec_toBitVec, if_neg hnotOnes, if_neg hnotZero, hmantissa,
    hexponent]
  congr 1
  show ((e + 1075).toNat : Int) - (1023 + 52) = e
  omega

theorem toNat_toBits :
    (Float.ofModel (Float.Model.pack (.finite s m e hpos))).toBits.toNat
      = s.toBitVec.toNat * 2 ^ 63 + ((e + 1075).toNat * 2 ^ 52 + (m - 2 ^ 52)) := by
  show (UnpackedFloat.pack Format.binary64 (.finite s m e hpos)).toNat = _
  rw [h.pack_eq, toNat_packComponents, h.toNat_exponent, h.toNat_fraction, Nat.add_assoc]

theorem magnitudeBits_pack :
    magnitudeBits (Float.ofModel (Float.Model.pack (.finite s m e hpos)))
      = (e + 1075).toNat * 2 ^ 52 + (m - 2 ^ 52) := by
  have hbits := h.toNat_toBits s hpos
  have hsign := s.toBitVec.isLt
  have hpow : Nat.pow 2 63 = 2 ^ 63 := rfl
  obtain ⟨hlow, hhigh, hleast, hmost⟩ := h
  unfold magnitudeBits
  rw [hbits, hpow]
  omega

theorem isNaN_pack : isNaN (Float.ofModel (Float.Model.pack (.finite s m e hpos))) = false := by
  have hbits := h.magnitudeBits_pack s hpos
  have hpow : Nat.pow 2 52 = 2 ^ 52 := rfl
  obtain ⟨hlow, hhigh, hleast, hmost⟩ := h
  have hfield : exponentField (Float.ofModel (Float.Model.pack (.finite s m e hpos))) ≠ 2047 := by
    unfold exponentField
    rw [hbits, hpow]
    omega
  simp [isNaN, hfield]

/-- The place of a normal number in the order. -/
theorem orderKey_pack :
    orderKey (Float.ofModel (Float.Model.pack (.finite s m e hpos)))
      = s.apply ((e + 1074) * 2 ^ 52 + m) := by
  have hbits := h.toNat_toBits s hpos
  have hmagnitude := h.magnitudeBits_pack s hpos
  have hpow : Nat.pow 2 63 = 2 ^ 63 := rfl
  obtain ⟨hlow, hhigh, hleast, hmost⟩ := h
  have hsize : ((((e + 1075).toNat * 2 ^ 52 + (m - 2 ^ 52) : Nat)) : Int)
      = (e + 1074) * 2 ^ 52 + m := by omega
  have hfits : (e + 1075).toNat * 2 ^ 52 + (m - 2 ^ 52) < 2 ^ 63 := by omega
  unfold orderKey isNegative
  rw [hmagnitude, hsize, hbits, hpow]
  cases s with
  | positive =>
    have hsign : Sign.positive.toBitVec.toNat = 0 := rfl
    rw [hsign, Nat.zero_mul, Nat.zero_add, if_neg (by simpa using hfits)]
    rfl
  | negative =>
    have hsign : Sign.negative.toBitVec.toNat = 1 := rfl
    rw [hsign, Nat.one_mul, if_pos (by simp)]
    rfl

end Normal

/-! ### Whole numbers -/

/-- The first 53 binary digits of a number, rounded. -/
def leading (n : Nat) : Nat :=
  nearestQuotient (n * 2 ^ 53) (2 ^ (n.log2 + 1))

theorem leading_bounds {n : Nat} (hpos : 0 < n) : 2 ^ 52 ≤ leading n ∧ leading n ≤ 2 ^ 53 := by
  refine nearestQuotient_significand ?_
  rw [log2_mul_two_pow hpos]
  omega

/-- A number with at most 53 digits keeps all of them. -/
theorem leading_of_lt {n : Nat} (hpos : 0 < n) (hlt : n < 2 ^ 53) :
    leading n = n * 2 ^ (52 - n.log2) := by
  have hlog : n.log2 < 53 := (Nat.log2_lt (by omega)).2 hlt
  have hexp : 53 = (52 - n.log2) + (n.log2 + 1) := by omega
  have hsplit : n * 2 ^ 53 = n * 2 ^ (52 - n.log2) * 2 ^ (n.log2 + 1) := by
    rw [Nat.mul_assoc, ← Nat.pow_add, ← hexp]
  rw [leading, hsplit, nearestQuotient_mul _ (Nat.two_pow_pos _)]

section
variable {n : Nat} (hpos : 0 < n) (hlt : n < 2 ^ 53) (h : 0 < n * 2 ^ (52 - n.log2))
include hpos hlt

theorem log2_leading : (n * 2 ^ (52 - n.log2)).log2 = 52 := by
  have hlog : n.log2 < 53 := (Nat.log2_lt (by omega)).2 hlt
  rw [log2_mul_two_pow hpos]
  omega

theorem normal_leading : Normal (n * 2 ^ (52 - n.log2)) (n.log2 - 52) := by
  have hlog : n.log2 < 53 := (Nat.log2_lt (by omega)).2 hlt
  have hdigits := log2_leading hpos hlt
  obtain ⟨hlow, hhigh⟩ := (Nat.log2_eq_iff (by rintro heq; simp [heq] at hdigits)).1 hdigits
  exact ⟨hlow, hhigh, by omega, by omega⟩

theorem ofUInt64_of_lt :
    UnpackedFloat.ofUInt64 Format.binary64 n.toUInt64
      = .finite .positive (n * 2 ^ (52 - n.log2)) (n.log2 - 52) h := by
  have hlog : n.log2 < 53 := (Nat.log2_lt (by omega)).2 hlt
  have hword : n.toUInt64.toNat = n := by
    rw [Nat.toUInt64_eq, UInt64.toNat_ofNat']
    omega
  have hcompare : compare (n : Int) 0 = .gt := by
    rw [Int.compare_eq_gt]
    omega
  have htarget : Format.binary64.targetExponent (totalExponent n 0) = n.log2 - 52 := by
    simp only [Format.targetExponent, totalExponent, Format.mantissaBits, Format.minExponent]
    omega
  have hshift : (0 - ((n.log2 : Int) - 52)).toNat = 52 - n.log2 := by omega
  have hexact := roundWithAccuracy_exact (log2_leading hpos hlt) 0
    (e := 0 - ((52 - n.log2 : Nat) : Int)) (by omega) .positive h
  rw [Nat.pow_zero, Nat.mul_one] at hexact
  rw [UnpackedFloat.ofUInt64, hword, UnpackedFloat.ofNat, UnpackedFloat.ofInt, UnpackedFloat.normalize, hcompare]
  show UnpackedFloat.round Format.binary64 .positive n 0 = _
  simp only [UnpackedFloat.round, htarget, decreaseExponent, hshift, Nat.shiftLeft_eq]
  rw [hexact]
  congr 1
  omega

/-- A number of at most 53 binary digits is multiplied by one, which changes nothing. -/
theorem ofNat_of_lt :
    Float.ofNat n = Float.ofModel
      (Float.Model.pack (.finite .positive (n * 2 ^ (52 - n.log2)) (n.log2 - 52) h)) := by
  have hlog : n.log2 < 53 := (Nat.log2_lt (by omega)).2 hlt
  have hsmall : n < 2 ^ 53 ∧ 0 ≤ 22 := ⟨hlt, by decide⟩
  have hone : (getElem Float.exactlyRepresentablePowersOfTen 0 (by decide)).toModel.unpack
      = .finite .positive (2 ^ 52) (-52) (by decide) := rfl
  have hexact := roundWithAccuracy_exact (log2_leading hpos hlt) 52 (e := n.log2 - 52 + -52)
    (by omega) .positive h
  show Float.ofScientific n false 0 = _
  rw [Float.ofScientific, dif_pos hsmall, if_neg (by decide)]
  show Float.ofModel (Float.Model.pack (UnpackedFloat.mul Format.binary64
    (Float.Model.pack (UnpackedFloat.ofUInt64 Format.binary64 n.toUInt64)).unpack
    (getElem Float.exactlyRepresentablePowersOfTen 0 (by decide)).toModel.unpack)) = _
  rw [ofUInt64_of_lt hpos hlt h, (normal_leading hpos hlt).unpack_pack, hone, UnpackedFloat.mul]
  show Float.ofModel (Float.Model.pack (roundWithAccuracy Format.binary64 .positive _ _ .exact)) = _
  rw [hexact]
  congr 3
  omega

end

theorem ofScientific_whole {n : Nat} (hn : n ≠ 0) :
    UnpackedFloat.ofScientific Format.binary64 n 0
      = roundWithAccuracy Format.binary64 .positive (n * 2 ^ 53) (-53) .exact := by
  have hlow : ¬ (0 : Int) < -(2 ^ Format.binary64.exponentBits + (n.log2 : Int)) := by
    have h : (2 : Int) ^ Format.binary64.exponentBits = 2048 := by decide
    omega
  have hproduct : (n <<< Format.binary64.mantissaBits) * 10 ^ (0 : Int).toNat = n * 2 ^ 53 := by
    have hone : 10 ^ (0 : Int).toNat = 1 := by decide
    rw [Nat.shiftLeft_eq, hone, Nat.mul_one]
    rfl
  unfold UnpackedFloat.ofScientific
  rw [dif_neg hn, if_neg (by decide), if_neg hlow, if_pos (by decide), UnpackedFloat.mul, hproduct]
  rfl

/-- A number of more digits is rounded. -/
theorem ofNat_of_le {n : Nat} (hle : 2 ^ 53 ≤ n) :
    Float.ofNat n = Float.ofModel
      (Float.Model.pack (roundWithAccuracy Format.binary64 .positive (n * 2 ^ 53) (-53) .exact)) := by
  have hn : n ≠ 0 := by omega
  have hlarge : ¬ (n < 2 ^ 53 ∧ 0 ≤ 22) := by omega
  show Float.ofScientific n false 0 = _
  rw [Float.ofScientific, dif_neg hlarge, ← ofScientific_whole hn]
  rfl

/-- The floating point number of a positive whole number of at most 64 binary digits is normal,
and its place in the order is given by the number of digits and those that are kept. Where
rounding brings a new digit, the place is that of the power of two. -/
theorem exists_ofNat {n : Nat} (hpos : 0 < n) (hlt : n < 2 ^ 64) :
    ∃ m e h, Normal m e ∧
      Float.ofNat n = Float.ofModel (Float.Model.pack (.finite .positive m e h)) ∧
      (e + 1074) * 2 ^ 52 + m = ((n.log2 : Int) + 1022) * 2 ^ 52 + leading n := by
  have hlog : n.log2 < 64 := (Nat.log2_lt (by omega)).2 hlt
  rcases Nat.lt_or_ge n (2 ^ 53) with hsmall | hlarge
  · have hle : n.log2 < 53 := (Nat.log2_lt (by omega)).2 hsmall
    have h : 0 < n * 2 ^ (52 - n.log2) := Nat.mul_pos hpos (Nat.two_pow_pos _)
    refine ⟨_, _, h, normal_leading hpos hsmall, ofNat_of_lt hpos hsmall h, ?_⟩
    rw [leading_of_lt hpos hsmall]
    omega
  · have hdigits : (n * 2 ^ 53).log2 = 52 + (n.log2 + 1) := by
      rw [log2_mul_two_pow hpos]
      omega
    obtain ⟨hlow, hhigh⟩ := leading_bounds hpos
    rw [ofNat_of_le hlarge]
    rcases Nat.lt_or_eq_of_le hhigh with hfits | hcarry
    · have hkept : 0 < leading n := by omega
      rw [roundWithAccuracy_of_lt hdigits (by omega) .positive hkept hfits]
      refine ⟨_, _, hkept, ⟨hlow, hfits, by omega, by omega⟩, rfl, ?_⟩
      show _ + (leading n : Int) = _
      omega
    · rw [roundWithAccuracy_of_carry hdigits (by omega) .positive hcarry]
      refine ⟨_, _, by decide, ⟨Nat.le_refl _, by decide, by omega, by omega⟩, rfl, ?_⟩
      omega

end FieldGuard.Number
