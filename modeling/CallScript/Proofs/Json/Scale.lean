import CallScript.Proofs.Json.Number
import CallScript.Proofs.Number.Arithmetic
import CallScript.Proofs.Number.Decimal

/-! # Doubles from digits and a power of ten

The reader of JSON numbers rounds up to three times: the digits that it keeps, the power of ten, and
their product or quotient. What it reads is finite all the same (`isFinite_of_scale`), and it refuses
no number that is clearly below the largest double (`scale_isSome`). -/

namespace CallScript.Json

open Number

variable {x y : Float} {q : ℚ} {n k : Nat} {exponent : Int}

/-! ## Powers of ten -/

theorem standsFor_powerOfTen (hk : k ≤ maxPower) : StandsFor (powerOfTen k) (rounded (10 ^ k)) := by
  rw [maxPower] at hk
  have value : Decimal.value ⟨1, k⟩ = 10 ^ k := by simp [Decimal.value]
  have digits : digitCount 1 = 1 := rfl
  have place : Decimal.leadingPlace ⟨1, k⟩ = k := by
    simp only [Decimal.leadingPlace, digits]
    omega
  have small : 10 ^ k < overflow :=
    Nat.lt_of_le_of_lt (Nat.pow_le_pow_right (by decide) hk) (by decide +kernel)
  have stands := @Decimal.standsFor_toFloat ⟨1, k⟩ Nat.one_pos (by omega) (by omega)
    (by rw [value]; exact_mod_cast small)
  rwa [value] at stands

theorem one_le_ten_pow (k : Nat) : (1 : ℚ) ≤ 10 ^ k :=
  one_le_pow₀ (by norm_num)

/-! ## Finite results -/

theorem exists_standsFor_div (stands : StandsFor x q) (hk : k ≤ maxPower) :
    ∃ r, StandsFor (x / powerOfTen k) r := by
  have large := one_le_rounded (one_le_ten_pow k)
  have positive : 0 < rounded (10 ^ k) := zero_lt_one.trans_le large
  rcases stands.nonneg.eq_or_lt with rfl | hq
  · exact ⟨0, stands.zero_div (standsFor_powerOfTen hk) positive⟩
  · have small : q / rounded (10 ^ k) < overflow :=
      (div_le_self hq.le large).trans_lt stands.lt_overflow
    exact ⟨_, stands.div (standsFor_powerOfTen hk) hq positive small⟩

/-- Whatever a finite double is scaled to is finite. -/
theorem isFinite_of_scale (stands : StandsFor x q) (scaled : scale x exponent = some y) :
    y.isFinite = true := by
  fun_induction scale x exponent generalizing q with
  | case1 x exponent small nonneg product =>
    rw [← Option.some.inj scaled]
    assumption
  | case2 => cases scaled
  | case3 x exponent small negative =>
    cases scaled
    obtain ⟨r, quotient⟩ := exists_standsFor_div stands small
    exact quotient.isFinite
  | case4 x exponent large zero =>
    cases scaled
    exact stands.isFinite
  | case5 => cases scaled
  | case6 x exponent large nonzero negative ih =>
    obtain ⟨r, quotient⟩ := exists_standsFor_div stands (Nat.le_refl maxPower)
    exact ih quotient scaled

/-! ## Numbers that are not refused -/

theorem scale_isSome_of_neg (negative : exponent < 0) : (scale x exponent).isSome = true := by
  fun_induction scale x exponent with
  | case1 => omega
  | case2 => omega
  | case3 => rfl
  | case4 => rfl
  | case5 => omega
  | case6 x exponent large nonzero _ ih =>
    apply ih
    rw [maxPower] at *
    omega

/-- The product of two rounded numbers exceeds the exact one by little. -/
theorem rounded_mul_le {a b : ℚ} (ha : 1 ≤ a) (hb : 1 ≤ b) :
    rounded a * rounded b ≤ a * b * (1 + 1 / 2 ^ 53) ^ 2 := by
  have close {c : ℚ} (hc : 1 ≤ c) : rounded c ≤ c * (1 + 1 / 2 ^ 53) := by
    have high := rounded_le (zero_lt_one.trans_le hc)
    have unit := half_unit_le hc
    linarith
  have nonneg : 0 ≤ rounded b := zero_le_one.trans (one_le_rounded hb)
  calc rounded a * rounded b ≤ a * (1 + 1 / 2 ^ 53) * (b * (1 + 1 / 2 ^ 53)) :=
        mul_le_mul (close ha) (close hb) nonneg (by positivity)
    _ = a * b * (1 + 1 / 2 ^ 53) ^ 2 := by ring

/-- Two units below the largest double, and half a unit above that. -/
def safeLimit : ℚ :=
  (2 ^ 53 - 5 / 2) * 2 ^ (971 : Int)

theorem safeLimit_mul_lt : safeLimit * (1 + 1 / 2 ^ 53) ^ 2 < overflow := by
  rw [safeLimit, cast_overflow, mul_right_comm]
  exact mul_lt_mul_of_pos_right (by norm_num) (two_zpow_pos 971)

theorem safeLimit_lt_overflow : safeLimit < overflow := by
  rw [safeLimit, cast_overflow]
  exact mul_lt_mul_of_pos_right (by norm_num) (two_zpow_pos 971)

theorem exponent_le_of_le_safeLimit (positive : 0 < n) (small : (n * 10 ^ k : ℚ) ≤ safeLimit) :
    k ≤ maxPower := by
  apply Nat.le_of_not_lt
  intro large
  have huge : overflow ≤ n * 10 ^ k :=
    calc overflow ≤ 10 ^ (maxPower + 1) := by decide +kernel
      _ ≤ 10 ^ k := Nat.pow_le_pow_right (by decide) large
      _ ≤ n * 10 ^ k := Nat.le_mul_of_pos_left _ positive
  have cast : (overflow : ℚ) ≤ n * 10 ^ k := by exact_mod_cast huge
  exact absurd (cast.trans small) (not_le.mpr safeLimit_lt_overflow)

/-- The digits and the power of ten stay finite when they are rounded and multiplied. -/
theorem isFinite_mul_powerOfTen (positive : 0 < n) (hk : k ≤ maxPower)
    (small : (n * 10 ^ k : ℚ) ≤ safeLimit) : (ofNat n * powerOfTen k).isFinite = true := by
  have one : (1 : ℚ) ≤ n := by exact_mod_cast positive
  have power := one_le_ten_pow k
  have fits : (n : ℚ) < overflow :=
    calc (n : ℚ) ≤ n * 10 ^ k := le_mul_of_one_le_right (zero_le_one.trans one) power
      _ ≤ safeLimit := small
      _ < overflow := safeLimit_lt_overflow
  have product : rounded n * rounded (10 ^ k) < overflow :=
    calc rounded n * rounded (10 ^ k) ≤ n * 10 ^ k * (1 + 1 / 2 ^ 53) ^ 2 := rounded_mul_le one power
      _ ≤ safeLimit * (1 + 1 / 2 ^ 53) ^ 2 := mul_le_mul_of_nonneg_right small (by positivity)
      _ < overflow := safeLimit_mul_lt
  have stands := standsFor_ofNat positive (by exact_mod_cast fits)
  exact (stands.mul (standsFor_powerOfTen hk) (zero_lt_one.trans_le (one_le_rounded one))
    (zero_lt_one.trans_le (one_le_rounded power)) product).isFinite

/-- A number is not refused if it is not next to the largest double already. -/
theorem scale_isSome (small : n * 10 ^ exponent ≤ safeLimit) :
    (scale (ofNat n) exponent).isSome = true := by
  rcases lt_or_ge exponent 0 with negative | nonneg
  · exact scale_isSome_of_neg negative
  obtain ⟨k, rfl⟩ := Int.eq_ofNat_of_zero_le nonneg
  rw [zpow_natCast] at small
  rw [scale, Int.natAbs_natCast, if_pos nonneg]
  by_cases hk : k ≤ maxPower
  · have finite : (ofNat n * powerOfTen k).isFinite = true := by
      rcases Nat.eq_zero_or_pos n with rfl | positive
      · have power := zero_lt_one.trans_le (one_le_rounded (one_le_ten_pow k))
        exact (standsFor_ofNat_zero.zero_mul (standsFor_powerOfTen hk) power).isFinite
      · exact isFinite_mul_powerOfTen positive hk small
    rw [if_pos hk]
    simp only [finite, if_true]
    rfl
  · obtain rfl : n = 0 := by
      apply Nat.eq_zero_of_not_pos
      intro positive
      exact hk (exponent_le_of_le_safeLimit positive small)
    have zero : (ofNat 0 == 0.0) = true := by decide +kernel
    rw [if_neg hk, if_pos zero]
    rfl

end CallScript.Json
