import CallScript.Proofs.Number.Double

/-! # Rounding whole numbers

A natural number that some double stands for is rounded to that double (`ofNat_of_hasValue`), and
a natural number that is not rounded to infinity is rounded to a double that stands for a natural
number (`isWhole_nearestBits`). -/

namespace CallScript.Number

/-- `n` is the whole number `mantissa * 2 ^ exponent`. -/
def HasValue (mantissa : Nat) (exponent : Int) (n : Nat) : Prop :=
  n * 2 ^ (-exponent).toNat = mantissa * 2 ^ exponent.toNat

/-- A double that stands for a natural number, minus zero excepted. -/
def IsWhole (x : Float) : Prop :=
  ∃ mantissa exponent n, exact x = .finite false mantissa exponent ∧ HasValue mantissa exponent n

theorem HasValue.of_nonneg (m : Nat) {e : Int} (whole : 0 ≤ e) :
    HasValue m e (m * 2 ^ e.toNat) := by
  have scale : (-e).toNat = 0 := by omega
  rw [HasValue, scale, Nat.pow_zero, Nat.mul_one]

theorem HasValue.pos {m n : Nat} {e : Int} (value : HasValue m e n) (positive : 0 < m) : 0 < n := by
  rcases Nat.eq_zero_or_pos n with rfl | hn
  · rw [HasValue, Nat.zero_mul] at value
    have := Nat.mul_pos positive (Nat.two_pow_pos e.toNat)
    omega
  · exact hn

/-- A whole number other than zero has a full mantissa. -/
theorem HasValue.full {m n : Nat} {e : Int} (value : HasValue m e n) (positive : 0 < m)
    (normal : 2 ^ 52 ≤ m ∨ e = -1074) : 2 ^ 52 ≤ m := by
  rcases normal with full | lowest
  · exact full
  · -- a subnormal double is a fraction
    have hn := value.pos positive
    rw [HasValue, lowest] at value
    calc 2 ^ 52 ≤ 2 ^ (-(-1074 : Int)).toNat := Nat.pow_le_pow_right (by decide) (by decide)
      _ ≤ n * 2 ^ (-(-1074 : Int)).toNat := Nat.le_mul_of_pos_left _ hn
      _ = m * 2 ^ (-1074 : Int).toNat := value
      _ = m := Nat.mul_one m

theorem log2_mul_two_pow {n : Nat} (hn : 0 < n) (k : Nat) : (n * 2 ^ k).log2 = n.log2 + k := by
  induction k with
  | zero => simp
  | succ k ih =>
    have positive := Nat.mul_pos hn (Nat.two_pow_pos k)
    rw [Nat.pow_succ, ← Nat.mul_assoc, Nat.mul_comm _ 2, Nat.log2_two_mul (by omega), ih]
    omega

/-- The first bit of the mantissa tells the first bit of the number. -/
theorem HasValue.log2_eq {m n : Nat} {e : Int} (value : HasValue m e n) (full : 2 ^ 52 ≤ m)
    (below : m < 2 ^ 53) : (n.log2 : Int) = 52 + e := by
  have hn := value.pos (by omega)
  have mantissa : m.log2 = 52 := (Nat.log2_eq_iff (by omega)).mpr ⟨full, below⟩
  have scaled := congrArg Nat.log2 value
  rw [log2_mul_two_pow hn, log2_mul_two_pow (by omega), mantissa] at scaled
  omega

/-! ## Rounding to a mantissa -/

theorem roundHalfEven_one (n : Nat) : roundHalfEven n 1 = n := by
  simp [roundHalfEven, Nat.mod_one]

theorem roundHalfEven_mul {den : Nat} (n : Nat) (hden : 0 < den) :
    roundHalfEven (n * den) den = n := by
  simp [roundHalfEven, Nat.mul_mod_left, Nat.mul_div_cancel n hden, hden]

theorem div_le_roundHalfEven {num den : Nat} : num / den ≤ roundHalfEven num den := by
  simp only [roundHalfEven]
  split
  next => exact Nat.le_refl _
  next => split <;> omega

theorem binaryPlace_one {n : Nat} (hn : 0 < n) : binaryPlace n 1 = n.log2 := by
  have log : Nat.log2 1 = 0 := by decide
  have reaches : 1 * 2 ^ n.log2 ≤ n := by
    rw [Nat.one_mul]
    exact Nat.log2_self_le (by omega)
  rw [binaryPlace, log, Int.natCast_zero, Int.sub_zero]
  simp only [Int.natCast_nonneg, if_true, Int.toNat_natCast, reaches]

theorem lastExponent_one {n : Nat} (hn : 0 < n) : lastExponent n 1 = n.log2 - 52 := by
  rw [lastExponent, binaryPlace_one hn]
  omega

/-- A number that a double stands for is rounded to that double. -/
theorem nearestBits_of_hasValue {m n : Nat} {e : Int} (value : HasValue m e n) (full : 2 ^ 52 ≤ m)
    (below : m < 2 ^ 53) (high : e ≤ 971) : nearestBits n 1 = bitsOf m e := by
  have hn := value.pos (by omega)
  have exponent : lastExponent n 1 = e := by
    rw [lastExponent_one hn, value.log2_eq full below]
    omega
  have mantissa : (if 0 ≤ e then roundHalfEven n (1 * 2 ^ e.toNat)
      else roundHalfEven (n * 2 ^ (-e).toNat) 1) = m := by
    rw [HasValue] at value
    split
    next large =>
      have scale : (-e).toNat = 0 := by omega
      rw [scale, Nat.pow_zero, Nat.mul_one] at value
      rw [value, Nat.one_mul, roundHalfEven_mul m (Nat.two_pow_pos _)]
    next small =>
      have scale : e.toNat = 0 := by omega
      rw [scale, Nat.pow_zero, Nat.mul_one] at value
      rw [roundHalfEven_one, value]
  rw [nearestBits, if_neg (by omega)]
  simp only [exponent, mantissa]
  apply Nat.min_eq_left
  rw [bitsOf, infinityBits]
  omega

/-! ## Doubles of natural numbers -/

theorem Exact.ofBits_bitsOf {m : Nat} {e : Int} (below : m < 2 ^ 53) (low : -1074 ≤ e)
    (high : e ≤ 971) (normal : 2 ^ 52 ≤ m ∨ e = -1074) :
    Exact.ofBits (bitsOf m e) = .finite false m e := by
  have sign : ¬ bitsOf m e / 2 ^ 63 % 2 = 1 := by
    rw [bitsOf]
    omega
  by_cases full : 2 ^ 52 ≤ m
  · have field : bitsOf m e / 2 ^ 52 % 2 ^ 11 = (e + 1075).toNat := by
      rw [bitsOf]
      omega
    have fraction : bitsOf m e % 2 ^ 52 = m - 2 ^ 52 := by
      rw [bitsOf]
      omega
    simp only [Exact.ofBits, field, fraction, sign, decide_false]
    have mantissa : 2 ^ 52 + (m - 2 ^ 52) = m := by omega
    have exponent : ((e + 1075).toNat : Int) - 1075 = e := by omega
    rw [if_neg (by omega), if_neg (by omega), mantissa, exponent]
  · have field : bitsOf m e / 2 ^ 52 % 2 ^ 11 = 0 := by
      rw [bitsOf]
      omega
    have fraction : bitsOf m e % 2 ^ 52 = m := by
      rw [bitsOf]
      omega
    simp only [Exact.ofBits, field, fraction, sign, decide_false, if_true]
    have lowest : e = -1074 := by omega
    rw [if_neg (by omega), lowest]

theorem exact_ofBits_bitsOf {m : Nat} {e : Int} (below : m < 2 ^ 53) (low : -1074 ≤ e)
    (high : e ≤ 971) (normal : 2 ^ 52 ≤ m ∨ e = -1074) :
    exact (.ofBits (.ofNat (bitsOf m e))) = .finite false m e := by
  have value := Exact.ofBits_bitsOf below low high normal
  have range : bitsOf m e < 2 ^ 64 := by
    rw [bitsOf]
    omega
  rw [exact_ofBits range (by rw [value]; exact Exact.noConfusion), value]

theorem digitCount_le_iff {n k : Nat} (hk : 0 < k) : digitCount n ≤ k ↔ n < 10 ^ k :=
  Nat.length_toDigits_le_iff (by decide) hk

theorem Decimal.toBits_of_hasValue {m n : Nat} {e : Int} (value : HasValue m e n)
    (below : m < 2 ^ 53) (high : e ≤ 971) (normal : 2 ^ 52 ≤ m ∨ e = -1074) :
    Decimal.toBits ⟨n, 0⟩ = bitsOf m e := by
  rcases Nat.eq_zero_or_pos m with rfl | positive
  · obtain rfl : e = -1074 := by omega
    rw [HasValue, Nat.zero_mul] at value
    obtain rfl : n = 0 := by
      rcases Nat.mul_eq_zero.mp value with zero | zero
      · exact zero
      · exact absurd zero (Nat.two_pow_pos _).ne'
    rfl
  · have full := value.full positive normal
    have hn := value.pos positive
    have small : n < 2 ^ 1024 := by
      apply (Nat.log2_lt (by omega)).mp
      have log := value.log2_eq full below
      omega
    have digits : digitCount n ≤ 309 :=
      (digitCount_le_iff (by decide)).mpr (Nat.lt_trans small (by decide +kernel))
    have place : Decimal.leadingPlace ⟨n, 0⟩ = digitCount n - 1 := by
      rw [Decimal.leadingPlace, Int.add_zero]
    rw [Decimal.toBits, if_neg (by omega : ¬ n = 0), place, if_neg (by omega), if_neg (by omega),
      if_pos (Int.le_refl 0), Int.toNat_zero, Nat.pow_zero, Nat.mul_one]
    exact nearestBits_of_hasValue value full below high

/-- A number that a double stands for is read as that double. -/
theorem ofNat_of_hasValue {x : Float} {m n : Nat} {e : Int} (value : exact x = .finite false m e)
    (number : HasValue m e n) : ofNat n = x := by
  obtain ⟨below, low, high, normal⟩ := Exact.ofBits_finite value
  have bits := Decimal.toBits_of_hasValue number below high normal
  have same : exact (ofNat n) = exact x := by
    rw [ofNat, Decimal.toFloat, bits, exact_ofBits_bitsOf below low high normal, value]
  exact exact_injective same (by rw [same, value]; exact Exact.noConfusion)

/-! ## What is not rounded to infinity is rounded to a natural number -/

/-- From `2 ^ 52` on every double is a whole number. -/
theorem isWhole_of_large {b : Nat} (low : 1075 * 2 ^ 52 ≤ b) (high : b < infinityBits) :
    IsWhole (.ofBits (.ofNat b)) := by
  rw [infinityBits] at high
  have field : ¬ b / 2 ^ 52 % 2 ^ 11 = 2 ^ 11 - 1 := by omega
  have normal : ¬ b / 2 ^ 52 % 2 ^ 11 = 0 := by omega
  have sign : ¬ b / 2 ^ 63 % 2 = 1 := by omega
  have value : Exact.ofBits b =
      .finite false (2 ^ 52 + b % 2 ^ 52) ((b / 2 ^ 52 % 2 ^ 11 : Nat) - 1075) := by
    simp only [Exact.ofBits, sign, decide_false, if_neg field, if_neg normal]
  have number : exact (.ofBits (.ofNat b)) = Exact.ofBits b :=
    exact_ofBits (by omega) (by rw [value]; exact Exact.noConfusion)
  exact ⟨_, _, _, number.trans value, .of_nonneg _ (by omega)⟩

/-- The bits that the mantissa of a large number keeps fill it. -/
theorem mantissa_full {n : Nat} (hn : 0 < n) (large : 52 ≤ n.log2) :
    2 ^ 52 ≤ n / 2 ^ (n.log2 - 52) := by
  apply (Nat.le_div_iff_mul_le (Nat.two_pow_pos _)).mpr
  rw [← Nat.pow_add, Nat.add_sub_cancel' large]
  exact Nat.log2_self_le (by omega)

/-- A small number fits into the mantissa. -/
theorem mantissa_below {n : Nat} (small : n.log2 ≤ 52) : n * 2 ^ (52 - n.log2) < 2 ^ 53 := by
  calc n * 2 ^ (52 - n.log2) < 2 ^ (n.log2 + 1) * 2 ^ (52 - n.log2) :=
        Nat.mul_lt_mul_of_pos_right Nat.lt_log2_self (Nat.two_pow_pos _)
    _ = 2 ^ 53 := by
        rw [← Nat.pow_add]
        congr 1
        omega

theorem isWhole_nearestBits {n : Nat} (hn : 0 < n) (finite : nearestBits n 1 < infinityBits) :
    IsWhole (.ofBits (.ofNat (nearestBits n 1))) := by
  have lower := Nat.log2_self_le (n := n) (by omega)
  have exponent := lastExponent_one hn
  rw [nearestBits, if_neg (by omega)] at finite ⊢
  simp only [exponent] at finite ⊢
  by_cases large : 52 ≤ n.log2
  · -- the mantissa may be rounded up to a power of two, so only its lower bound is used
    have scale : ((n.log2 : Int) - 52).toNat = n.log2 - 52 := by omega
    rw [if_pos (by omega), scale, Nat.one_mul] at finite ⊢
    have rounded := Nat.le_trans (mantissa_full hn large) (@div_le_roundHalfEven n _)
    apply isWhole_of_large
    · rw [bitsOf, infinityBits] at *
      omega
    · exact finite
  · have scale : (-((n.log2 : Int) - 52)).toNat = 52 - n.log2 := by omega
    rw [if_neg (by omega), scale, roundHalfEven_one] at finite ⊢
    have full : 2 ^ 52 ≤ n * 2 ^ (52 - n.log2) := by
      calc 2 ^ 52 = 2 ^ n.log2 * 2 ^ (52 - n.log2) := by
            rw [← Nat.pow_add, Nat.add_sub_cancel' (by omega)]
        _ ≤ n * 2 ^ (52 - n.log2) := Nat.mul_le_mul_right _ lower
    have below := mantissa_below (Nat.le_of_not_le large)
    have noCarry : bitsOf (n * 2 ^ (52 - n.log2)) (n.log2 - 52) < infinityBits := by
      rw [bitsOf, infinityBits]
      omega
    rw [Nat.min_eq_left (Nat.le_of_lt noCarry)]
    refine ⟨_, _, n, exact_ofBits_bitsOf below (by omega) (by omega) (.inl full), ?_⟩
    have whole : ((n.log2 : Int) - 52).toNat = 0 := by omega
    rw [HasValue, scale, whole, Nat.pow_zero, Nat.mul_one]

theorem isWhole_zero : IsWhole (.ofBits (.ofNat 0)) := by
  refine ⟨0, -1074, 0, exact_ofBits (by decide) (by decide), ?_⟩
  rw [HasValue, Nat.zero_mul, Nat.zero_mul]

theorem exact_infinity : exact (.ofBits (.ofNat infinityBits)) = .infinite false :=
  exact_ofBits (by decide) (by decide)

end CallScript.Number
