import CallScript.Number.Shortest
import CallScript.Proofs.Number.Nearest
import CallScript.Proofs.Number.WholeText

/-! # Decimals as rational numbers

A decimal is read as the double nearest to the rational number that it names (`toBits_eq_nearest`),
and the shortest decimal of a double names a number to which this double is the nearest one
(`nearest_value_shortest`), however the search for it ends. -/

namespace CallScript.Number

namespace Decimal

/-- The number that a decimal names. -/
def value (d : Decimal) : ℚ :=
  d.digits * 10 ^ d.exponent

theorem ten_zpow_pos (e : Int) : (0 : ℚ) < 10 ^ e :=
  zpow_pos (by norm_num) e

theorem value_pos {d : Decimal} (positive : 0 < d.digits) : 0 < d.value :=
  mul_pos (by exact_mod_cast positive) (ten_zpow_pos d.exponent)

theorem value_trim (d : Decimal) : d.trim.value = d.value := by
  fun_induction trim d with
  | case1 d zero ih =>
    have digits : d.digits / 10 * 10 = d.digits := by omega
    have cast : ((d.digits / 10 : Nat) : ℚ) * 10 = d.digits := by exact_mod_cast digits
    rw [ih, value, value, ← cast, zpow_add_one₀ (by norm_num)]
    ring
  | case2 => rfl

theorem toBits_eq_nearest {d : Decimal} (positive : 0 < d.digits) (low : -324 ≤ d.leadingPlace)
    (high : d.leadingPlace ≤ 308) : d.toBits = nearest d.value := by
  obtain ⟨n, e⟩ := d
  rw [toBits, if_neg positive.ne', if_neg (Int.not_lt.mpr high), if_neg (Int.not_lt.mpr low), value]
  dsimp only at positive ⊢
  split
  next whole =>
    obtain ⟨k, rfl⟩ := Int.eq_ofNat_of_zero_le whole
    rw [Int.toNat_natCast, nearestBits_eq_nearest (Nat.mul_pos positive (Nat.pow_pos (by decide)))
      Nat.one_pos, zpow_natCast, Nat.cast_one, div_one]
    push_cast
    rfl
  next fraction =>
    obtain ⟨k, rfl⟩ : ∃ k : Nat, e = -k := ⟨(-e).toNat, by omega⟩
    rw [neg_neg, Int.toNat_natCast, nearestBits_eq_nearest positive (Nat.pow_pos (by decide)), zpow_neg,
      zpow_natCast, ← div_eq_mul_inv]
    push_cast
    rfl

/-- The number named by a decimal that is read as a positive finite double. -/
theorem nearest_value_of_toBits {d : Decimal} {n : Nat} (reads : d.toBits = n) (positive : 0 < n)
    (finite : n < infinityBits) : 0 < d.digits ∧ nearest d.value = n := by
  have digits : 0 < d.digits := by
    apply Nat.pos_of_ne_zero
    intro zero
    rw [toBits, if_pos zero] at reads
    omega
  refine ⟨digits, ?_⟩
  by_cases high : d.leadingPlace ≤ 308
  · by_cases low : -324 ≤ d.leadingPlace
    · rw [← toBits_eq_nearest digits low high, reads]
    · rw [toBits, if_neg digits.ne', if_neg (by omega), if_pos (by omega)] at reads
      omega
  · rw [toBits, if_neg digits.ne', if_pos (by omega)] at reads
    omega

theorem standsFor_toFloat {d : Decimal} (positive : 0 < d.digits) (low : -324 ≤ d.leadingPlace)
    (high : d.leadingPlace ≤ 308) (small : d.value < overflow) :
    StandsFor d.toFloat (rounded d.value) := by
  rw [toFloat, toBits_eq_nearest positive low high]
  exact standsFor_ofBits_nearest (value_pos positive) small

end Decimal

open Decimal (value value_trim)

/-! ## Natural numbers -/

theorem standsFor_ofNat {n : Nat} (positive : 0 < n) (small : n < overflow) :
    StandsFor (ofNat n) (rounded n) := by
  have digits : digitCount n ≤ 309 := by
    apply Nat.le_of_not_lt
    intro long
    exact Nat.not_lt_of_le (overflow_le_of_long long) small
  have count := digitCount_pos n
  have number : value ⟨n, 0⟩ = n := by simp [value]
  have place : Decimal.leadingPlace ⟨n, 0⟩ = digitCount n - 1 := by
    rw [Decimal.leadingPlace, Int.add_zero]
  have stands := @Decimal.standsFor_toFloat ⟨n, 0⟩ positive (by omega) (by omega)
    (by rw [number]; exact_mod_cast small)
  rwa [number] at stands

theorem standsFor_ofNat_zero : StandsFor (ofNat 0) 0 :=
  ⟨0, -1074, exact_ofBits (by decide) (by decide), by simp⟩

/-! ## The shortest decimal -/

theorem value_exactDecimal (m : Nat) (e : Int) : (exactDecimal m e).value = m * 2 ^ e := by
  rw [exactDecimal]
  split
  next whole =>
    obtain ⟨k, rfl⟩ := Int.eq_ofNat_of_zero_le whole
    rw [value, zpow_zero, mul_one, Int.toNat_natCast, zpow_natCast]
    push_cast
    rfl
  next fraction =>
    obtain ⟨k, rfl⟩ : ∃ k : Nat, e = -k := ⟨(-e).toNat, by omega⟩
    have ten : (10 : ℚ) ^ k = 5 ^ k * 2 ^ k := by
      rw [← mul_pow]
      norm_num
    rw [value, neg_neg, Int.toNat_natCast, zpow_neg, zpow_neg, zpow_natCast, zpow_natCast, ten]
    push_cast
    field_simp

/-- The double is the nearest one to the number that its shortest decimal names. -/
theorem nearest_value_shortest {tie : Tie} {m : Nat} {e : Int} (positive : 0 < m) (below : m < 2 ^ 53)
    (low : -1074 ≤ e) (high : e ≤ 971) (normal : 2 ^ 52 ≤ m ∨ e = -1074) :
    nearest (shortest tie m e).value = bitsOf m e := by
  rw [shortest]
  simp only [value_trim]
  cases found : List.findSome? _ (List.range 17) with
  | some d =>
    obtain ⟨i, -, hit⟩ := List.exists_of_findSome?_eq_some found
    have reads : d.toBits = bitsOf m e := beq_iff_eq.mp (nearestAt_eq_some hit).2
    refine (Decimal.nearest_value_of_toBits reads ?_ ?_).2
    · rw [bitsOf]
      omega
    · rw [bitsOf, infinityBits]
      omega
  | none =>
    rw [Option.getD_none, value_exactDecimal]
    exact nearest_eq positive below low high normal

end CallScript.Number
