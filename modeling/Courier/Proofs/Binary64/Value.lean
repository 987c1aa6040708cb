import Courier.Binary64.Round
import Mathlib

/-!
# The numbers that words stand for

A finite word stands for a rational number.  The magnitudes of words are in the order of
the numbers that they stand for, so that comparing words is comparing numbers.  A whole
number of at most 53 bits has a word of its own, and rounding changes nothing.

**Results.**
* `value`: the number of a word.
* `strictMono_magnitudeValue`: a greater magnitude stands for a greater number.
* `le_eq_decide_value`: the numeric order of words is that of their numbers.
* `totalKey_lt_iff`: so is the total order where no word is the negative zero.
* `value_ofInt`: whole numbers of at most 53 bits are exact.
-/

namespace Courier
namespace Binary64

/-- The number that a finite word stands for. -/
def value (x : Binary64) : ℚ :=
  (if x.isNegative then -1 else 1) * (x.significand * 2 ^ x.exponent)

/-- The number that a magnitude stands for. -/
def magnitudeValue (n : Nat) : ℚ :=
  if n < hiddenBit then n * 2 ^ (-1074 : ℤ)
  else (hiddenBit + n % hiddenBit : Nat) * 2 ^ ((n / hiddenBit : Nat) - 1075 : ℤ)

theorem value_eq
    (x : Binary64) :
    x.value = (if x.isNegative then -1 else 1) * magnitudeValue x.magnitude := by
  rw [value, significand, exponent, magnitudeValue]
  congr 1
  split
  · rfl
  · rfl

theorem magnitudeValue_of_lt
    {n : Nat}
    (h : n < hiddenBit) :
    magnitudeValue n = n * 2 ^ (-1074 : ℤ) :=
  if_pos h

/-- Above the least magnitudes, the exponent and the fraction can be read off. -/
theorem magnitudeValue_of_parts
    {q r : Nat}
    (h : r < hiddenBit) :
    magnitudeValue ((q + 1) * hiddenBit + r) = (hiddenBit + r : Nat) * 2 ^ (q - 1074 : ℤ) := by
  have hpos : 0 < hiddenBit := by decide
  have hquot : ((q + 1) * hiddenBit + r) / hiddenBit = q + 1 := by
    rw [Nat.mul_comm, Nat.mul_add_div hpos, Nat.div_eq_of_lt h, Nat.add_zero]
  have hrest : ((q + 1) * hiddenBit + r) % hiddenBit = r := by
    rw [Nat.mul_comm, Nat.mul_add_mod, Nat.mod_eq_of_lt h]
  have hle : hiddenBit ≤ (q + 1) * hiddenBit + r :=
    Nat.le_add_right_of_le (Nat.le_mul_of_pos_left _ q.succ_pos)
  rw [magnitudeValue, if_neg (Nat.not_lt.2 hle), hquot, hrest]
  congr 2
  push_cast
  ring

theorem magnitudeValue_zero :
    magnitudeValue 0 = 0 := by
  rw [magnitudeValue_of_lt (by decide), Nat.cast_zero, zero_mul]

theorem magnitudeValue_lt_succ
    (n : Nat) :
    magnitudeValue n < magnitudeValue (n + 1) := by
  have hpow : ∀ e : ℤ, (0 : ℚ) < 2 ^ e := fun e => zpow_pos two_pos e
  rcases Nat.lt_or_ge n hiddenBit with hsmall | hlarge
  · rw [magnitudeValue_of_lt hsmall]
    rcases Nat.lt_or_eq_of_le (Nat.succ_le_of_lt hsmall) with hnext | hnext
    · rw [magnitudeValue_of_lt hnext]
      exact mul_lt_mul_of_pos_right (by exact_mod_cast n.lt_succ_self) (hpow _)
    · -- The first magnitude with an exponent goes on in the same steps.
      have hparts : n + 1 = (0 + 1) * hiddenBit + 0 := by omega
      rw [hparts, magnitudeValue_of_parts (by decide)]
      refine mul_lt_mul_of_pos_right ?_ (hpow _)
      exact_mod_cast hsmall
  · obtain ⟨q, r, hr, rfl⟩ : ∃ q r, r < hiddenBit ∧ n = (q + 1) * hiddenBit + r := by
      refine ⟨n / hiddenBit - 1, n % hiddenBit, Nat.mod_lt _ (by decide), ?_⟩
      rw [Nat.sub_add_cancel (Nat.div_pos hlarge (by decide)), Nat.div_add_mod']
    rw [magnitudeValue_of_parts hr]
    rcases Nat.lt_or_eq_of_le (Nat.succ_le_of_lt hr) with hnext | hnext
    · rw [Nat.add_assoc, magnitudeValue_of_parts hnext]
      refine mul_lt_mul_of_pos_right ?_ (hpow _)
      exact_mod_cast (by omega : hiddenBit + r < hiddenBit + (r + 1))
    · -- The fraction is full, and the exponent grows.
      have hparts : (q + 1) * hiddenBit + r + 1 = (q + 1 + 1) * hiddenBit + 0 := by
        rw [Nat.add_assoc, show r + 1 = hiddenBit from hnext]
        ring
      have htwice : ((hiddenBit + 0 : Nat) : ℚ) * 2 ^ ((q + 1 : Nat) - 1074 : ℤ) =
          (2 * hiddenBit : Nat) * 2 ^ (q - 1074 : ℤ) := by
        rw [show ((q + 1 : Nat) - 1074 : ℤ) = (q - 1074) + 1 by push_cast; ring,
          zpow_add_one₀ two_ne_zero]
        push_cast
        ring
      rw [hparts, magnitudeValue_of_parts (by decide), htwice]
      refine mul_lt_mul_of_pos_right ?_ (hpow _)
      exact_mod_cast (by omega : hiddenBit + r < 2 * hiddenBit)

/-- **A greater magnitude stands for a greater number.** -/
theorem strictMono_magnitudeValue :
    StrictMono magnitudeValue :=
  strictMono_nat_of_lt_succ magnitudeValue_lt_succ

/-- The number at a place of the numeric order. -/
def keyValue (k : ℤ) : ℚ :=
  k.sign * magnitudeValue k.natAbs

theorem value_eq_keyValue
    (x : Binary64) :
    x.value = keyValue x.orderKey := by
  rw [value_eq, orderKey, keyValue]
  rcases Nat.eq_zero_or_pos x.magnitude with hzero | hpos
  · simp [hzero, magnitudeValue_zero]
  · have hsign : (x.magnitude : ℤ).sign = 1 := Int.sign_natCast_of_ne_zero hpos.ne'
    cases x.isNegative with
    | true => simp [hsign]
    | false => simp [hsign]

theorem strictMono_keyValue :
    StrictMono keyValue := by
  refine strictMono_of_odd_strictMonoOn_nonneg (fun k => ?_) fun k hk l hl hlt => ?_
  · rw [keyValue, keyValue, Int.sign_neg, Int.natAbs_neg]
    push_cast
    ring
  · have hvalue : ∀ n : ℤ, 0 ≤ n → keyValue n = magnitudeValue n.natAbs := by
      intro n hn
      rcases hn.eq_or_lt with rfl | hpos
      · simp [keyValue, magnitudeValue_zero]
      · rw [keyValue, Int.sign_eq_one_of_pos hpos, Int.cast_one, one_mul]
    rw [hvalue k hk, hvalue l hl]
    exact strictMono_magnitudeValue (Int.natAbs_lt_natAbs_of_nonneg_of_lt hk hlt)

/-- **The numeric order of words is that of their numbers.** -/
theorem le_eq_decide_value
    {x y : Binary64}
    (hx : x.isNaN = false)
    (hy : y.isNaN = false) :
    x.le y = decide (x.value ≤ y.value) := by
  rw [le, hx, hy, value_eq_keyValue, value_eq_keyValue]
  simp only [strictMono_keyValue.le_iff_le, Bool.not_false, Bool.true_and]

/-- The total order agrees with the numeric one where no word is the negative zero. -/
theorem totalKey_lt_iff
    {x y : Binary64}
    (hx : x.isNegative = true → x.value ≠ 0)
    (hy : y.isNegative = true → y.value ≠ 0) :
    x.totalKey < y.totalKey ↔ x.value < y.value := by
  have hnonzero : ∀ z : Binary64, (z.isNegative = true → z.value ≠ 0) →
      z.isNegative = true → z.magnitude ≠ 0 := by
    intro z hz hneg hzero
    refine hz hneg ?_
    rw [value_eq, hzero, magnitudeValue_zero, mul_zero]
  have hx' := hnonzero x hx
  have hy' := hnonzero y hy
  rw [value_eq_keyValue, value_eq_keyValue, strictMono_keyValue.lt_iff_lt, totalKey, totalKey,
    orderKey, orderKey]
  cases hxn : x.isNegative with
  | true =>
      have := hx' hxn
      cases hyn : y.isNegative with
      | true =>
          have := hy' hyn
          simp only [if_true]
          omega
      | false =>
          simp only [if_true, Bool.false_eq_true, if_false]
          omega
  | false =>
      cases hyn : y.isNegative with
      | true =>
          have := hy' hyn
          simp only [if_true, Bool.false_eq_true, if_false]
          omega
      | false => simp only [Bool.false_eq_true, if_false]

theorem toNat_ofParts
    (negative : Bool)
    {n : Nat}
    (h : n < signBit) :
    (ofParts negative n).bits.toNat = (if negative then signBit else 0) + n := by
  have hsize : (if negative then signBit else 0) + n < 2 ^ 64 := by
    have : signBit + signBit = 2 ^ 64 := by decide
    split <;> omega
  exact UInt64.toNat_ofNat_of_lt' hsize

theorem isNegative_ofParts
    (negative : Bool)
    {n : Nat}
    (h : n < signBit) :
    (ofParts negative n).isNegative = negative := by
  rw [isNegative, toNat_ofParts negative h]
  cases negative with
  | true => simp
  | false => simpa using h

theorem magnitude_ofParts
    (negative : Bool)
    {n : Nat}
    (h : n < signBit) :
    (ofParts negative n).magnitude = n := by
  rw [magnitude, toNat_ofParts negative h]
  cases negative with
  | true => rw [if_pos rfl, Nat.add_mod_left, Nat.mod_eq_of_lt h]
  | false => rw [if_neg Bool.false_ne_true, Nat.zero_add, Nat.mod_eq_of_lt h]

theorem roundMagnitude_le
    (num den : Nat) :
    roundMagnitude num den ≤ infinityWord := by
  rw [roundMagnitude]
  split
  · exact Nat.zero_le _
  · exact Nat.min_le_left _ _

theorem roundMagnitude_lt_signBit
    (num den : Nat) :
    roundMagnitude num den < signBit :=
  Nat.lt_of_le_of_lt (roundMagnitude_le num den) (by decide)

theorem isNegative_ofInt
    (n : Int) :
    (ofInt n).isNegative = decide (n < 0) :=
  isNegative_ofParts _ (roundMagnitude_lt_signBit _ _)

theorem magnitude_ofInt
    (n : Int) :
    (ofInt n).magnitude = roundMagnitude n.natAbs 1 :=
  magnitude_ofParts _ (roundMagnitude_lt_signBit _ _)

/-- Rounding an integer never ends in a NaN. -/
theorem isNaN_ofInt
    (n : Int) :
    (ofInt n).isNaN = false := by
  rw [isNaN, magnitude_ofInt, decide_eq_false_iff_not]
  exact Nat.not_lt.2 (roundMagnitude_le _ _)

theorem roundHalfEven_one
    (n : Nat) :
    roundHalfEven n 1 = n := by
  simp [roundHalfEven, Nat.mod_one]

/-- The unit in the last place of a whole number of at most 53 bits. -/
theorem unitExponent_of_lt
    {n : Nat}
    (hpos : n ≠ 0)
    (hlt : n < 2 ^ 53) :
    unitExponent n 1 = (n.log2 : ℤ) - 52 := by
  have hlog : n.log2 < 53 := (Nat.log2_lt hpos).2 hlt
  have hq : (n.log2 : ℤ) - (Nat.log2 1 : Nat) - 53 = .negSucc (52 - n.log2) := by
    rw [show Nat.log2 1 = 0 by decide, Int.negSucc_eq]
    omega
  have hscaled : 2 * hiddenBit * 1 ≤ n * Nat.pow 2 (52 - n.log2 + 1) := by
    have hself : 2 ^ n.log2 ≤ n := Nat.log2_self_le hpos
    calc 2 * hiddenBit * 1 = 2 ^ n.log2 * 2 ^ (52 - n.log2 + 1) := by
          rw [← Nat.pow_add, show n.log2 + (52 - n.log2 + 1) = 53 by omega]
          rfl
      _ ≤ n * 2 ^ (52 - n.log2 + 1) := Nat.mul_le_mul_right _ hself
  rw [unitExponent, hq]
  simp only [scaledDown, hscaled, if_true]
  rw [Int.negSucc_eq]
  omega

/-- The magnitude of a whole number of at most 53 bits. -/
theorem roundMagnitude_of_lt
    {n : Nat}
    (hpos : n ≠ 0)
    (hlt : n < 2 ^ 53) :
    ∃ r, r < hiddenBit ∧ n * 2 ^ (52 - n.log2) = hiddenBit + r ∧
      roundMagnitude n 1 = (n.log2 + 1022 + 1) * hiddenBit + r := by
  have hlog : n.log2 < 53 := (Nat.log2_lt hpos).2 hlt
  have hlow : hiddenBit ≤ n * 2 ^ (52 - n.log2) := by
    calc hiddenBit = 2 ^ n.log2 * 2 ^ (52 - n.log2) := by
          rw [← Nat.pow_add, show n.log2 + (52 - n.log2) = 52 by omega]
          rfl
      _ ≤ n * 2 ^ (52 - n.log2) := Nat.mul_le_mul_right _ (Nat.log2_self_le hpos)
  have hhigh : n * 2 ^ (52 - n.log2) < 2 * hiddenBit := by
    calc n * 2 ^ (52 - n.log2) < 2 ^ (n.log2 + 1) * 2 ^ (52 - n.log2) :=
          Nat.mul_lt_mul_of_pos_right Nat.lt_log2_self (Nat.two_pow_pos _)
      _ = 2 * hiddenBit := by
          rw [← Nat.pow_add, show n.log2 + 1 + (52 - n.log2) = 53 by omega]
          rfl
  have hscaled : scaledDown n 1 (unitExponent n 1) = (n * 2 ^ (52 - n.log2), 1) := by
    rw [unitExponent_of_lt hpos hlt]
    rcases Nat.lt_or_eq_of_le (Nat.le_of_lt_succ hlog) with hless | heq
    · have hq : (n.log2 : ℤ) - 52 = .negSucc (51 - n.log2) := by
        rw [Int.negSucc_eq]
        omega
      rw [hq, show 52 - n.log2 = 51 - n.log2 + 1 by omega]
      rfl
    · rw [heq]
      exact Prod.ext (Nat.mul_one n).symm rfl
  refine ⟨n * 2 ^ (52 - n.log2) - hiddenBit, by omega, by omega, ?_⟩
  rw [roundMagnitude, if_neg hpos]
  simp only [hscaled]
  rw [roundHalfEven_one, unitExponent_of_lt hpos hlt,
    show ((n.log2 : ℤ) - 52 + 1074).toNat = n.log2 + 1022 by omega]
  have hfinite : 1075 * hiddenBit + hiddenBit ≤ infinityWord := by decide
  have hpower : (n.log2 + 1022) * hiddenBit ≤ 1074 * hiddenBit :=
    Nat.mul_le_mul_right _ (by omega)
  rw [Nat.min_eq_right (by omega), Nat.add_mul (n.log2 + 1022)]
  omega

theorem magnitudeValue_roundMagnitude
    {n : Nat}
    (hlt : n < 2 ^ 53) :
    magnitudeValue (roundMagnitude n 1) = n := by
  rcases Nat.eq_zero_or_pos n with rfl | hpos
  · rw [roundMagnitude, if_pos rfl, magnitudeValue_zero, Nat.cast_zero]
  · have hlog : n.log2 < 53 := (Nat.log2_lt hpos.ne').2 hlt
    obtain ⟨r, hr, hscaled, hround⟩ := roundMagnitude_of_lt hpos.ne' hlt
    rw [hround, magnitudeValue_of_parts hr, ← hscaled]
    have hexponent : ((n.log2 + 1022 : Nat) - 1074 : ℤ) = -(52 - n.log2 : Nat) := by omega
    rw [hexponent, zpow_neg, zpow_natCast]
    push_cast
    rw [mul_assoc, mul_inv_cancel₀ (pow_ne_zero _ two_ne_zero), mul_one]

/-- **Whole numbers of at most 53 bits are exact.** -/
theorem value_ofInt
    {n : Int}
    (h : n.natAbs < 2 ^ 53) :
    (ofInt n).value = n := by
  rw [value_eq, isNegative_ofInt, magnitude_ofInt, magnitudeValue_roundMagnitude h]
  rcases Int.lt_or_le n 0 with hneg | hnonneg
  · have habs : -(n.natAbs : ℤ) = n := by omega
    rw [decide_eq_true hneg, if_pos rfl, neg_one_mul, ← Int.cast_natCast, ← Int.cast_neg, habs]
  · have habs : (n.natAbs : ℤ) = n := by omega
    rw [decide_eq_false (Int.not_lt.2 hnonneg), if_neg Bool.false_ne_true, one_mul,
      ← Int.cast_natCast, habs]

/-- Every integer is above the negative infinity. -/
theorem negInfinity_le_ofInt
    (n : Int) :
    negInfinity.le (ofInt n) = true := by
  have hle : (ofInt n).magnitude ≤ infinityWord := by
    rw [magnitude_ofInt]
    exact roundMagnitude_le _ _
  have hbound : -(infinityWord : ℤ) ≤ (ofInt n).orderKey := by
    rw [orderKey]
    split <;> omega
  have hkey : negInfinity.orderKey = -(infinityWord : ℤ) := by decide
  have hnan : negInfinity.isNaN = false := by decide
  rw [le, hnan, isNaN_ofInt, hkey, decide_eq_true hbound]
  rfl

/-- No integer is rounded to the negative zero. -/
theorem value_ofInt_ne_zero
    {n : Int}
    (h : n.natAbs < 2 ^ 53)
    (hneg : (ofInt n).isNegative = true) :
    (ofInt n).value ≠ 0 := by
  rw [isNegative_ofInt, decide_eq_true_eq] at hneg
  rw [value_ofInt h]
  exact_mod_cast hneg.ne

end Binary64
end Courier
