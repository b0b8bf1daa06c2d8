import CallScript.Proofs.Number.Rounding

/-! # Where natural numbers become infinite

The largest double is `2 ^ 1024 - 2 ^ 971`. A natural number is rounded to infinity from half a unit
beyond that on, where the tie goes up to the even mantissa (`isFinite_ofNat_iff`). -/

namespace CallScript.Number

/-- The smallest natural number that is rounded to infinity, which is `2 ^ 1024 - 2 ^ 970`. -/
def overflow : Nat :=
  (2 ^ 54 - 1) * 2 ^ 970

theorem overflow_pos : 0 < overflow := by
  have scaled (k : Nat) : 0 < (2 ^ 54 - 1) * 2 ^ k := Nat.mul_pos (by decide) (Nat.two_pow_pos k)
  exact scaled 970

/-- A quotient is rounded up to an even number from half a unit below it on. -/
theorem even_le_roundHalfEven_iff {num den m : Nat} (hden : 0 < den) :
    2 * (m + 1) ≤ roundHalfEven num den ↔ (4 * m + 3) * den ≤ 2 * num := by
  have whole := Nat.div_add_mod num den
  have part := Nat.mod_lt num hden
  simp only [roundHalfEven]
  generalize num / den = q at *
  generalize num % den = r at *
  have bound : (4 * m + 3) * den = 4 * (den * m) + 3 * den := by ring
  rcases Nat.lt_trichotomy q (2 * m + 1) with below | rfl | above
  · have scaled : den * q ≤ den * (2 * m) := Nat.mul_le_mul_left den (Nat.le_of_lt_succ below)
    have even : den * (2 * m) = 2 * (den * m) := by ring
    split
    next => omega
    next => split <;> omega
  · have odd : den * (2 * m + 1) = 2 * (den * m) + den := by ring
    split
    next => omega
    next => split <;> omega
  · have scaled : den * (2 * m + 2) ≤ den * q := Nat.mul_le_mul_left den above
    have even : den * (2 * m + 2) = 2 * (den * m) + 2 * den := by ring
    split
    next => omega
    next => split <;> omega

/-- A mantissa is rounded up to the next power of two from `2 ^ 54 - 1` half units on. -/
theorem carries_iff (n k : Nat) :
    2 ^ 53 ≤ roundHalfEven n (2 ^ (k + 1)) ↔ (2 ^ 54 - 1) * 2 ^ k ≤ n := by
  have carries := @even_le_roundHalfEven_iff n _ (2 ^ 52 - 1) (Nat.two_pow_pos (k + 1))
  rw [Nat.pow_succ] at carries ⊢
  omega

theorem lt_of_log2_lt {n k : Nat} (low : n.log2 < 53 + k) : n < (2 ^ 54 - 1) * 2 ^ k := by
  calc n < 2 ^ (n.log2 + 1) := Nat.lt_log2_self
    _ ≤ 2 ^ (53 + k) := Nat.pow_le_pow_right (by decide) low
    _ = 2 ^ 53 * 2 ^ k := Nat.pow_add 2 53 k
    _ ≤ (2 ^ 54 - 1) * 2 ^ k := Nat.mul_le_mul_right _ (by decide)

theorem le_of_lt_log2 {n k : Nat} (hn : 0 < n) (high : 53 + k < n.log2) :
    (2 ^ 54 - 1) * 2 ^ k ≤ n := by
  calc (2 ^ 54 - 1) * 2 ^ k ≤ 2 ^ 54 * 2 ^ k := Nat.mul_le_mul_right _ (by decide)
    _ = 2 ^ (54 + k) := (Nat.pow_add 2 54 k).symm
    _ ≤ 2 ^ n.log2 := Nat.pow_le_pow_right (by decide) (by omega)
    _ ≤ n := Nat.log2_self_le (by omega)

theorem roundHalfEven_le {num den m : Nat} (below : num < (m + 1) * den) :
    roundHalfEven num den ≤ m + 1 := by
  have quotient : num / den < m + 1 := Nat.div_lt_of_lt_mul (by rwa [Nat.mul_comm])
  simp only [roundHalfEven]
  split
  next => omega
  next => split <;> omega

/-- Only the largest exponent makes a difference: there the mantissa must not be rounded up to the next
power of two. -/
theorem infinityBits_le_nearestBits_iff {n : Nat} (hn : 0 < n) :
    infinityBits ≤ nearestBits n 1 ↔ overflow ≤ n := by
  rw [nearestBits, if_neg (by omega)]
  simp only [lastExponent_one hn, Nat.le_min, Nat.le_refl, and_true, Nat.one_mul]
  rw [bitsOf, infinityBits, overflow]
  rcases Nat.lt_trichotomy n.log2 (53 + 970) with low | place | high
  · have small := lt_of_log2_lt low
    by_cases large : 52 ≤ n.log2
    · have scale : ((n.log2 : Int) - 52).toNat = n.log2 - 52 := by omega
      have mantissa : n < (2 ^ 53 - 1 + 1) * 2 ^ (n.log2 - 52) := by
        have exponent : 53 + (n.log2 - 52) = n.log2 + 1 := by omega
        rw [Nat.sub_add_cancel (by decide), ← Nat.pow_add, exponent]
        exact Nat.lt_log2_self
      have rounded := roundHalfEven_le mantissa
      rw [if_pos (by omega), scale]
      omega
    · have scale : (-((n.log2 : Int) - 52)).toNat = 52 - n.log2 := by omega
      have mantissa := mantissa_below (Nat.le_of_not_le large)
      rw [if_neg (by omega), scale, roundHalfEven_one]
      omega
  · have scale : ((n.log2 : Int) - 52).toNat = 970 + 1 := by omega
    rw [if_pos (by omega), scale, ← carries_iff n 970]
    omega
  · have scale : ((n.log2 : Int) - 52).toNat = n.log2 - 52 := by omega
    have large := le_of_lt_log2 hn high
    have rounded := Nat.le_trans (mantissa_full hn (by omega)) (@div_le_roundHalfEven n _)
    rw [if_pos (by omega), scale]
    omega

theorem overflow_le_of_long {n : Nat} (long : 309 < digitCount n) : overflow ≤ n := by
  have wide : 10 ^ 309 ≤ n := by
    rw [← Nat.not_lt, ← digitCount_le_iff (by decide)]
    exact Nat.not_le_of_lt long
  exact Nat.le_trans (by decide +kernel) wide

/-- A run of digits is read as the natural number that it names, rounded, or as infinity. -/
theorem ofNat_cases (n : Nat) :
    (n < overflow ∧ IsWhole (ofNat n)) ∨ (overflow ≤ n ∧ exact (ofNat n) = .infinite false) := by
  rw [ofNat, Decimal.toFloat, Decimal.toBits, Decimal.leadingPlace]
  dsimp only
  by_cases zero : n = 0
  · rw [if_pos zero, zero]
    exact .inl ⟨overflow_pos, isWhole_zero⟩
  rw [if_neg zero]
  split
  next long => exact .inr ⟨overflow_le_of_long (by omega), exact_infinity⟩
  next =>
    rw [if_neg (by omega), if_pos (Int.le_refl 0), Int.toNat_zero, Nat.pow_zero, Nat.mul_one]
    have positive := Nat.pos_of_ne_zero zero
    have threshold := infinityBits_le_nearestBits_iff positive
    by_cases finite : nearestBits n 1 < infinityBits
    · exact .inl ⟨by omega, isWhole_nearestBits positive finite⟩
    · have capped : nearestBits n 1 = infinityBits := by
        have bound : nearestBits n 1 ≤ infinityBits := by
          rw [nearestBits, if_neg zero]
          exact Nat.min_le_right _ _
        omega
      rw [capped]
      exact .inr ⟨threshold.mp (by omega), exact_infinity⟩

theorem IsWhole.isFinite {x : Float} (whole : IsWhole x) : x.isFinite = true := by
  obtain ⟨m, e, n, value, -⟩ := whole
  exact isFinite_iff.mpr ⟨_, _, _, value⟩

theorem not_isFinite_of_infinite {x : Float} {negative : Bool}
    (infinite : exact x = .infinite negative) : x.isFinite ≠ true := by
  rw [ne_eq, isFinite_iff, infinite]
  rintro ⟨negative, m, e, value⟩
  cases value

/-- The natural numbers that are not rounded to infinity. -/
theorem isFinite_ofNat_iff (n : Nat) : (ofNat n).isFinite = true ↔ n < overflow := by
  rcases ofNat_cases n with ⟨small, whole⟩ | ⟨large, infinite⟩
  · exact iff_of_true whole.isFinite small
  · exact iff_of_false (not_isFinite_of_infinite infinite) (Nat.not_lt_of_le large)

end CallScript.Number
