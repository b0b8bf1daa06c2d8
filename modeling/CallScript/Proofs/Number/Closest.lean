import CallScript.Proofs.Number.Arithmetic
import CallScript.Proofs.Number.Decimal

/-! # No double is closer

The double that an integer is rounded to is the closest of all finite doubles (`ofInt_closest`). Among
the multiples of the unit of its last place this is rounding to whole units; doubles with a smaller unit
lie below all of these multiples that are in question. -/

namespace CallScript.Number

variable {q : ℚ}

/-- The number that a finite double is. -/
def HasRational (x : Float) (q : ℚ) : Prop :=
  ∃ (negative : Bool) (m : Nat) (e : Int), exact x = .finite negative m e ∧
    q = if negative then -(m * 2 ^ e : ℚ) else m * 2 ^ e

/-- No natural number is closer than the rounded one. -/
theorem roundEven_closest (hq : 0 ≤ q) (k : Nat) : |(roundEven q : ℚ) - q| ≤ |(k : ℚ) - q| := by
  by_cases same : k = roundEven q
  · rw [same]
  · -- another one is a unit away from the rounded one, which is half a unit away at most
    have half : |(roundEven q : ℚ) - q| ≤ 1 / 2 := by
      have above := roundEven_le hq
      have below := le_roundEven q
      rw [abs_le]
      constructor <;> linarith
    have apart : (1 : ℚ) ≤ |(roundEven q : ℚ) - k| := by
      have whole : (1 : ℤ) ≤ |(roundEven q : ℤ) - k| := Int.one_le_abs (by omega)
      exact_mod_cast whole
    have triangle := abs_sub_le (roundEven q : ℚ) q k
    rw [abs_sub_comm q] at triangle
    linarith

/-- No multiple of the last unit is closer. -/
theorem rounded_closest_unit (hq : 0 < q) (k : Nat) :
    |rounded q - q| ≤ |k * 2 ^ lastPlace q - q| := by
  have unit := two_zpow_pos (lastPlace q)
  have scaled (x : ℚ) : |x * 2 ^ lastPlace q - q| = |x - q / 2 ^ lastPlace q| * 2 ^ lastPlace q := by
    rw [← abs_of_pos unit, ← abs_mul, abs_of_pos unit, sub_mul, div_mul_cancel₀ q unit.ne']
  rw [rounded, scaled, scaled, nearestMantissa]
  exact mul_le_mul_of_nonneg_right (roundEven_closest (div_nonneg hq.le unit.le) k) unit.le

/-- No number with a mantissa of a double is closer. -/
theorem rounded_closest (hq : 0 < q) {m : Nat} {e : Int} (below : m < 2 ^ 53) (low : -1074 ≤ e) :
    |rounded q - q| ≤ |m * 2 ^ e - q| := by
  by_cases coarse : lastPlace q ≤ e
  · obtain ⟨k, rfl⟩ : ∃ k : Nat, e = k + lastPlace q := ⟨(e - lastPlace q).toNat, by omega⟩
    have multiple : (m * 2 ^ (k + lastPlace q) : ℚ) = (m * 2 ^ k : Nat) * 2 ^ lastPlace q := by
      rw [zpow_add₀ (by norm_num), zpow_natCast]
      push_cast
      ring
    rw [multiple]
    exact rounded_closest_unit hq _
  · -- the number lies below the smallest multiple with a full mantissa, and that below `q`
    have full := le_div_lastPlace hq (by omega)
    rw [le_div_iff₀ (two_zpow_pos _)] at full
    have less : (m * 2 ^ e : ℚ) ≤ 2 ^ 52 * 2 ^ lastPlace q := by
      calc (m * 2 ^ e : ℚ) ≤ 2 ^ 53 * 2 ^ (lastPlace q - 1) := by
            apply mul_le_mul
            · exact_mod_cast below.le
            · exact zpow_le_zpow_right₀ (by norm_num) (by omega)
            · exact (two_zpow_pos e).le
            · norm_num
        _ = 2 ^ 52 * 2 ^ lastPlace q := by
            rw [zpow_sub_one₀ (by norm_num)]
            ring
    have unit := rounded_closest_unit hq (2 ^ 52)
    rw [Nat.cast_pow, Nat.cast_ofNat] at unit
    rw [abs_of_nonpos (by linarith : (2 ^ 52 * 2 ^ lastPlace q - q : ℚ) ≤ 0)] at unit
    rw [abs_of_nonpos (by linarith : (m * 2 ^ e - q : ℚ) ≤ 0)]
    linarith

/-- No finite double is closer to a positive number than the one that it is rounded to. -/
theorem rounded_closest_double (hq : 0 < q) {y : Float} {r : ℚ} (value : HasRational y r) :
    |rounded q - q| ≤ |r - q| := by
  obtain ⟨negative, m, e, exact, rfl⟩ := value
  obtain ⟨below, low, -, -⟩ := Exact.ofBits_finite exact
  cases negative with
  | false => exact rounded_closest hq below low
  | true =>
    -- zero lies between
    have zero := @rounded_closest _ hq 0 e (by norm_num) low
    have nonneg : (0 : ℚ) ≤ m * 2 ^ e := mul_nonneg (Nat.cast_nonneg m) (two_zpow_pos e).le
    rw [Nat.cast_zero, zero_mul, zero_sub, abs_neg, abs_of_pos hq] at zero
    have side : (-(m * 2 ^ e) - q : ℚ) ≤ 0 := by linarith
    rw [if_pos rfl, abs_of_nonpos side]
    linarith

theorem HasRational.neg {x : Float} (value : HasRational x q) : HasRational (-x) (-q) := by
  obtain ⟨negative, m, e, exact, rfl⟩ := value
  refine ⟨!negative, m, e, exact_neg exact, ?_⟩
  cases negative <;> simp

theorem StandsFor.hasRational {x : Float} (stands : StandsFor x q) : HasRational x q := by
  obtain ⟨m, e, exact, rfl⟩ := stands
  exact ⟨false, m, e, exact, rfl⟩

theorem ofNat_closest {n : Nat} (small : n < overflow) :
    ∃ q, HasRational (ofNat n) q ∧ ∀ y r, HasRational y r → |q - n| ≤ |r - n| := by
  rcases Nat.eq_zero_or_pos n with rfl | positive
  · refine ⟨0, standsFor_ofNat_zero.hasRational, fun y r _ => ?_⟩
    simp
  · refine ⟨rounded n, (standsFor_ofNat positive small).hasRational, fun y r value => ?_⟩
    exact rounded_closest_double (by exact_mod_cast positive) value

/-- The double of an integer is a closest one. -/
theorem ofInt_closest {n : Int} (small : n.natAbs < overflow) :
    ∃ q, HasRational (ofInt n) q ∧ ∀ y r, HasRational y r → |q - n| ≤ |r - n| := by
  obtain ⟨q, value, closest⟩ := ofNat_closest small
  rw [ofInt]
  split
  next negative =>
    have magnitude : (n : ℚ) = -(n.natAbs : ℚ) := by
      rw [Nat.cast_natAbs, abs_of_neg negative, Int.cast_neg, neg_neg]
    refine ⟨-q, value.neg, fun y r other => ?_⟩
    have close := closest (-y) (-r) other.neg
    have mirror (x : ℚ) : |-x - n| = |x - n.natAbs| := by
      rw [magnitude, ← abs_neg]
      congr 1
      ring
    rw [mirror, ← neg_neg r, mirror]
    exact close
  next positive =>
    have magnitude : (n : ℚ) = (n.natAbs : ℚ) := by
      rw [Nat.cast_natAbs, abs_of_nonneg (by omega)]
    rw [magnitude]
    exact ⟨q, value, closest⟩

end CallScript.Number
