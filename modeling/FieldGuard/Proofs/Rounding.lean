import FieldGuard.Proofs.Significand

/-!
# `FieldGuard.Proofs.Rounding`: whole numbers compared as floating point numbers

Two whole numbers that become floating point numbers are compared after rounding. `nearest` is
the whole number that a number of at most 64 binary digits becomes; up to `2 ^ 53` in size it is
the number itself, and beyond that the floating point numbers lie two, four, … apart.

* `orderKey_ofInt_le_iff`: floating point numbers of whole numbers are in the order of the
  rounded whole numbers;
* `below_toFloat`: the same for the strict order of 64-bit signed numbers;
* `nearest_mono`, `nearest_eq_self`, `nearest_near`: rounding keeps the order, changes no number
  up to `2 ^ 53` in size, and moves no 64-bit signed number by more than 512.
-/

set_option autoImplicit false

namespace FieldGuard.Number

/-! ### Natural numbers -/

/-- The place of a natural number among the floating point numbers. -/
def rank (n : Nat) : Int :=
  if n = 0 then 0 else ((n.log2 : Int) + 1022) * 2 ^ 52 + leading n

/-- The natural number that a natural number is rounded to: with 53 digits and zeros. -/
def nearestNat (n : Nat) : Nat :=
  nearestQuotient n (2 ^ (n.log2 - 52)) * 2 ^ (n.log2 - 52)

theorem rank_zero : rank 0 = 0 := rfl

theorem rank_of_pos {n : Nat} (h : 0 < n) :
    rank n = ((n.log2 : Int) + 1022) * 2 ^ 52 + leading n := by
  rw [rank, if_neg (Nat.ne_of_gt h)]

theorem rank_pos {n : Nat} (h : 0 < n) : 0 < rank n := by
  have hbounds := leading_bounds h
  rw [rank_of_pos h]
  omega

theorem rank_nonneg (n : Nat) : 0 ≤ rank n := by
  rcases Nat.eq_zero_or_pos n with rfl | h
  · exact Int.le_refl 0
  · exact Int.le_of_lt (rank_pos h)

theorem nearestNat_of_lt {n : Nat} (h : n < 2 ^ 53) : nearestNat n = n := by
  have hlog : n.log2 - 52 = 0 := by
    rcases Nat.eq_zero_or_pos n with rfl | hpos
    · rw [Nat.log2_zero]
    · have := (Nat.log2_lt (by omega)).2 h
      omega
  rw [nearestNat, hlog, Nat.pow_zero, Nat.mul_one, nearestQuotient_one]

theorem nearestNat_two_pow : nearestNat (2 ^ 53) = 2 ^ 53 := by
  have hlog : (2 ^ 53).log2 - 52 = 1 := by rw [Nat.log2_two_pow]
  have hquotient := nearestQuotient_mul (2 ^ 52) (d := 2 ^ 1) (by decide)
  have hsplit : 2 ^ 52 * 2 ^ 1 = 2 ^ 53 := by decide
  rw [hsplit] at hquotient
  rw [nearestNat, hlog, hquotient, hsplit]

/-- The digits that are kept, at their place. -/
theorem leading_mul {n : Nat} (hpos : 0 < n) :
    leading n * 2 ^ n.log2 = nearestNat n * 2 ^ 52 := by
  rcases Nat.lt_or_ge n.log2 53 with hsmall | hlarge
  · have hlt : n < 2 ^ 53 := (Nat.log2_lt (by omega)).1 hsmall
    have hexp : 52 - n.log2 + n.log2 = 52 := by omega
    rw [leading_of_lt hpos hlt, nearestNat_of_lt hlt, Nat.mul_assoc, ← Nat.pow_add, hexp]
  · have hall : n.log2 + 1 = n.log2 - 52 + 53 := by omega
    have hplace : n.log2 = n.log2 - 52 + 52 := by omega
    have hkept : leading n = nearestQuotient n (2 ^ (n.log2 - 52)) := by
      rw [leading, hall, Nat.pow_add, nearestQuotient_mul_mul _ _ (by decide)]
    rw [hkept, nearestNat, Nat.mul_assoc, ← Nat.pow_add, ← hplace]

/-- More digits make a number larger; it is the same one only if the shorter is rounded up to
the power of two that the longer is. -/
theorem mul_two_pow_le_of_lt {a b r s : Nat} (hr : r ≤ 2 ^ 53) (hs : 2 ^ 52 ≤ s) (hab : a < b) :
    r * 2 ^ a ≤ s * 2 ^ b := by
  obtain ⟨d, rfl⟩ := Nat.exists_eq_add_of_lt hab
  calc r * 2 ^ a ≤ 2 ^ 53 * 2 ^ a := Nat.mul_le_mul_right _ hr
    _ = 2 ^ 52 * 2 ^ (a + 1) := by rw [Nat.pow_succ]; omega
    _ ≤ s * 2 ^ (a + d + 1) := Nat.mul_le_mul hs (Nat.pow_le_pow_right (by decide) (by omega))

theorem eq_of_mul_two_pow_le {a b r s : Nat} (hr : 2 ^ 52 ≤ r) (hs : s ≤ 2 ^ 53) (hba : b < a)
    (h : r * 2 ^ a ≤ s * 2 ^ b) : a = b + 1 ∧ r = 2 ^ 52 ∧ s = 2 ^ 53 := by
  obtain ⟨d, rfl⟩ := Nat.exists_eq_add_of_lt hba
  have hsplit : r * 2 ^ (b + d + 1) = r * (2 * 2 ^ d) * 2 ^ b := by
    rw [Nat.pow_succ, Nat.pow_add]
    ac_rfl
  rw [hsplit] at h
  have hle : r * (2 * 2 ^ d) ≤ s := Nat.le_of_mul_le_mul_right h (Nat.two_pow_pos b)
  have hleast : 2 ^ 52 * (2 * 2 ^ d) ≤ r * (2 * 2 ^ d) := Nat.mul_le_mul_right _ hr
  have hd : d = 0 := by
    cases d with
    | zero => rfl
    | succ k =>
      have hk := Nat.two_pow_pos k
      have hdouble : 2 ^ (k + 1) = 2 * 2 ^ k := by rw [Nat.pow_succ, Nat.mul_comm]
      rw [hdouble] at hleast hle
      omega
  subst hd
  rw [Nat.pow_zero] at hle
  omega

/-- Numbers written as digits and a place are in the order of place and digits. -/
theorem digits_le_iff {a b r s : Nat} (hr : 2 ^ 52 ≤ r ∧ r ≤ 2 ^ 53)
    (hs : 2 ^ 52 ≤ s ∧ s ≤ 2 ^ 53) :
    a * 2 ^ 52 + r ≤ b * 2 ^ 52 + s ↔ r * 2 ^ a ≤ s * 2 ^ b := by
  rcases Nat.lt_trichotomy a b with hab | rfl | hba
  · exact ⟨fun _ => mul_two_pow_le_of_lt hr.2 hs.1 hab, fun _ => by omega⟩
  · constructor
    · intro h
      exact Nat.mul_le_mul_right _ (by omega)
    · intro h
      have := Nat.le_of_mul_le_mul_right h (Nat.two_pow_pos a)
      omega
  · constructor
    · intro h
      obtain ⟨rfl, rfl, rfl⟩ : a = b + 1 ∧ r = 2 ^ 52 ∧ s = 2 ^ 53 := by omega
      rw [Nat.pow_succ]
      omega
    · intro h
      obtain ⟨rfl, rfl, rfl⟩ := eq_of_mul_two_pow_le hr.1 hs.2 hba h
      omega

theorem nearestNat_pos {n : Nat} (h : 0 < n) : 0 < nearestNat n := by
  have hbounds := leading_bounds h
  have hplace := leading_mul h
  refine Nat.pos_of_ne_zero fun hzero => ?_
  rw [hzero, Nat.zero_mul] at hplace
  have := Nat.mul_pos (by omega : 0 < leading n) (Nat.two_pow_pos n.log2)
  omega

/-- The places of natural numbers are in the order of the rounded numbers. -/
theorem rank_le_rank_iff (m n : Nat) : rank m ≤ rank n ↔ nearestNat m ≤ nearestNat n := by
  rcases Nat.eq_zero_or_pos m with rfl | hm
  · have hzero : nearestNat 0 = 0 := nearestNat_of_lt (by decide)
    rw [rank_zero, hzero]
    exact ⟨fun _ => Nat.zero_le _, fun _ => rank_nonneg n⟩
  rcases Nat.eq_zero_or_pos n with rfl | hn
  · have hzero : nearestNat 0 = 0 := nearestNat_of_lt (by decide)
    have hrank := rank_pos hm
    have hnearest := nearestNat_pos hm
    rw [rank_zero, hzero]
    omega
  · have hplaces := digits_le_iff (a := m.log2) (b := n.log2) (leading_bounds hm)
      (leading_bounds hn)
    rw [leading_mul hm, leading_mul hn] at hplaces
    rw [rank_of_pos hm, rank_of_pos hn]
    omega

theorem rank_mono {m n : Nat} (h : m ≤ n) : rank m ≤ rank n := by
  rcases Nat.eq_zero_or_pos m with rfl | hm
  · exact rank_nonneg n
  have hn : 0 < n := Nat.lt_of_lt_of_le hm h
  have hlog : m.log2 ≤ n.log2 :=
    (Nat.le_log2 (Nat.ne_of_gt hn)).2 (Nat.le_trans (Nat.log2_self_le (Nat.ne_of_gt hm)) h)
  have hbm := leading_bounds hm
  have hbn := leading_bounds hn
  rw [rank_of_pos hm, rank_of_pos hn]
  rcases Nat.lt_or_eq_of_le hlog with hlt | heq
  · omega
  · -- With equally many digits the same ones are rounded away.
    have hkept : leading m ≤ leading n := by
      unfold leading
      rw [heq]
      exact nearestQuotient_mono (Nat.mul_le_mul_right _ h) _
    omega

theorem nearestNat_mono {m n : Nat} (h : m ≤ n) : nearestNat m ≤ nearestNat n :=
  (rank_le_rank_iff m n).1 (rank_mono h)

/-- A number below `2 ^ 63` is rounded by at most 512. -/
theorem nearestNat_near {n : Nat} (h : n ≤ 2 ^ 63) :
    nearestNat n ≤ n + 512 ∧ n ≤ nearestNat n + 512 := by
  have hunit : 2 ^ (n.log2 - 52) ≤ 2 ^ 10 ∨ n = 2 ^ 63 := by
    rcases Nat.lt_or_eq_of_le h with hlt | heq
    · refine .inl (Nat.pow_le_pow_right (by decide) ?_)
      rcases Nat.eq_zero_or_pos n with rfl | hpos
      · rw [Nat.log2_zero]
        omega
      · have := (Nat.log2_lt (by omega)).2 hlt
        omega
    · exact .inr heq
  rcases hunit with hunit | rfl
  · have hnear := nearestQuotient_near n (Nat.two_pow_pos (n.log2 - 52))
    unfold nearestNat
    omega
  · have hlog : (2 ^ 63).log2 - 52 = 11 := by rw [Nat.log2_two_pow]
    have hsplit : 2 ^ 52 * 2 ^ 11 = 2 ^ 63 := by decide
    have hquotient := nearestQuotient_mul (2 ^ 52) (d := 2 ^ 11) (by decide)
    rw [hsplit] at hquotient
    rw [nearestNat, hlog, hquotient]
    omega

/-! ### Whole numbers -/

/-- The whole number that a whole number is rounded to. -/
def nearest : Int → Int
  | .ofNat n => nearestNat n
  | .negSucc n => -nearestNat (n + 1)

theorem ofInt_negSucc {n m : Nat} {e : Int} {hm : 0 < m} (hnormal : Normal m e)
    (heq : Float.ofNat (n + 1)
      = Float.ofModel (Float.Model.pack (.finite .positive m e hm))) :
    Float.ofInt (.negSucc n) = Float.ofModel (Float.Model.pack (.finite .negative m e hm)) := by
  show (Float.ofNat (n + 1)).neg = _
  rw [heq]
  show Float.ofModel
    (Float.Model.pack (Float.Model.pack (.finite .positive m e hm)).unpack.neg) = _
  rw [hnormal.unpack_pack]
  rfl

/-- The place of a whole number among the floating point numbers. -/
def place : Int → Int
  | .ofNat n => rank n
  | .negSucc n => -rank (n + 1)

theorem orderKey_ofInt {n : Int} (h : n.natAbs < 2 ^ 64) : orderKey (Float.ofInt n) = place n := by
  cases n with
  | ofNat k =>
    show orderKey (Float.ofNat k) = rank k
    rcases Nat.eq_zero_or_pos k with rfl | hpos
    · decide
    · obtain ⟨m, e, hm, hnormal, heq, hplace⟩ := exists_ofNat hpos h
      rw [heq, hnormal.orderKey_pack, rank_of_pos hpos]
      exact hplace
  | negSucc k =>
    obtain ⟨m, e, hm, hnormal, heq, hplace⟩ := exists_ofNat (Nat.succ_pos k) h
    rw [ofInt_negSucc hnormal heq, hnormal.orderKey_pack, place, rank_of_pos (Nat.succ_pos k)]
    exact congrArg Neg.neg hplace

theorem place_le_place_iff (m n : Int) : place m ≤ place n ↔ nearest m ≤ nearest n := by
  cases m with
  | ofNat a =>
    cases n with
    | ofNat b =>
      show rank a ≤ rank b ↔ (nearestNat a : Int) ≤ nearestNat b
      rw [rank_le_rank_iff]
      exact Int.ofNat_le.symm
    | negSucc b =>
      have hnonneg := rank_nonneg a
      have hrank : 0 < rank (b + 1) := rank_pos (Nat.succ_pos b)
      have hnearest : 0 < nearestNat (b + 1) := nearestNat_pos (Nat.succ_pos b)
      show rank a ≤ -rank (b + 1) ↔ (nearestNat a : Int) ≤ -(nearestNat (b + 1) : Int)
      omega
  | negSucc a =>
    cases n with
    | ofNat b =>
      have hnonneg := rank_nonneg b
      have hrank := rank_nonneg (a + 1)
      show -rank (a + 1) ≤ rank b ↔ -(nearestNat (a + 1) : Int) ≤ nearestNat b
      omega
    | negSucc b =>
      have hranks := rank_le_rank_iff (b + 1) (a + 1)
      show -rank (a + 1) ≤ -rank (b + 1) ↔ -(nearestNat (a + 1) : Int) ≤ -(nearestNat (b + 1) : Int)
      omega

/-- Floating point numbers of whole numbers are in the order of the rounded whole numbers. -/
theorem orderKey_ofInt_le_iff {m n : Int} (hm : m.natAbs < 2 ^ 64) (hn : n.natAbs < 2 ^ 64) :
    orderKey (Float.ofInt m) ≤ orderKey (Float.ofInt n) ↔ nearest m ≤ nearest n := by
  rw [orderKey_ofInt hm, orderKey_ofInt hn, place_le_place_iff]

theorem isNaN_ofInt {n : Int} (h : n.natAbs < 2 ^ 64) : isNaN (Float.ofInt n) = false := by
  cases n with
  | ofNat k =>
    show isNaN (Float.ofNat k) = false
    rcases Nat.eq_zero_or_pos k with rfl | hpos
    · decide
    · obtain ⟨m, e, hm, hnormal, heq, -⟩ := exists_ofNat hpos h
      rw [heq, hnormal.isNaN_pack]
  | negSucc k =>
    obtain ⟨m, e, hm, hnormal, heq, -⟩ := exists_ofNat (Nat.succ_pos k) h
    rw [ofInt_negSucc hnormal heq, hnormal.isNaN_pack]

theorem natAbs_toInt_le (n : Int64) : n.toInt.natAbs ≤ 2 ^ 63 := by
  have hlow := Int64.le_toInt n
  have hhigh := Int64.toInt_lt n
  omega

/-- Of two 64-bit signed numbers one is below the other as floating point numbers just when it
is below it after rounding. -/
theorem below_toFloat (m n : Int64) :
    below (toFloat m) (toFloat n) = true ↔ nearest m.toInt < nearest n.toInt := by
  have hm : m.toInt.natAbs < 2 ^ 64 := Nat.lt_of_le_of_lt (natAbs_toInt_le m) (by decide)
  have hn : n.toInt.natAbs < 2 ^ 64 := Nat.lt_of_le_of_lt (natAbs_toInt_le n) (by decide)
  have hle := orderKey_ofInt_le_iff hn hm
  unfold below toFloat
  rw [isNaN_ofInt hm, isNaN_ofInt hn]
  simp only [Bool.not_false, Bool.and_self, Bool.true_and, decide_eq_true_eq]
  omega

theorem nearest_mono {m n : Int} (h : m ≤ n) : nearest m ≤ nearest n := by
  cases m with
  | ofNat a =>
    cases n with
    | ofNat b =>
      have hab : a ≤ b := Int.ofNat_le.1 h
      exact Int.ofNat_le.2 (nearestNat_mono hab)
    | negSucc b =>
      have hneg : Int.negSucc b < 0 := Int.negSucc_lt_zero b
      have hpos : 0 ≤ Int.ofNat a := Int.natCast_nonneg a
      omega
  | negSucc a =>
    cases n with
    | ofNat b =>
      show -(nearestNat (a + 1) : Int) ≤ nearestNat b
      omega
    | negSucc b =>
      have hba : b + 1 ≤ a + 1 := by omega
      have hnearest := nearestNat_mono hba
      show -(nearestNat (a + 1) : Int) ≤ -(nearestNat (b + 1) : Int)
      omega

/-- Whole numbers up to `2 ^ 53` in size are floating point numbers. -/
theorem nearest_eq_self {n : Int} (h : n.natAbs ≤ 2 ^ 53) : nearest n = n := by
  have hnat : ∀ k : Nat, k ≤ 2 ^ 53 → nearestNat k = k := by
    intro k hk
    rcases Nat.lt_or_eq_of_le hk with hlt | rfl
    · exact nearestNat_of_lt hlt
    · exact nearestNat_two_pow
  cases n with
  | ofNat k => exact congrArg Int.ofNat (hnat k h)
  | negSucc k =>
    show -((nearestNat (k + 1) : Nat) : Int) = _
    rw [hnat (k + 1) h]
    rfl

/-- Rounding moves no 64-bit signed number by more than 512. -/
theorem nearest_near {n : Int} (h : n.natAbs ≤ 2 ^ 63) :
    nearest n ≤ n + 512 ∧ n ≤ nearest n + 512 := by
  cases n with
  | ofNat k =>
    have hnear := nearestNat_near (n := k) h
    show (nearestNat k : Int) ≤ (k : Int) + 512 ∧ (k : Int) ≤ (nearestNat k : Int) + 512
    omega
  | negSucc k =>
    have hnear := nearestNat_near (n := k + 1) h
    show -(nearestNat (k + 1) : Int) ≤ _ ∧ _ ≤ -(nearestNat (k + 1) : Int) + 512
    omega

end FieldGuard.Number
