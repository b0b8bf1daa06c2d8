import CallScript.Proofs.Number.Closest

/-! # Differences of doubles

A difference of two doubles may be rounded, but it is zero only if they are equal
(`HasRational.sub_beq_zero_iff`): it is a multiple of the smallest double, and none of these is rounded to
zero. -/

namespace CallScript.Number

open Float.Model Float.Model.UnpackedFloat

variable {x y : Float} {p q : ℚ}

/-! ## Zeros -/

theorem isZero_iff_bits : IsZero x ↔ x.toBits.toNat % 2 ^ 63 = 0 := by
  have range := toNat_toBits_lt x
  constructor
  · intro zero
    have bits := toNat_toBits zero.number
    obtain ⟨negative, e, value⟩ := zero
    obtain ⟨-, -, -, normal⟩ := Exact.ofBits_finite value
    have lowest : e = -1074 := by omega
    rw [bits, value, lowest]
    cases negative <;> decide
  · intro zero
    obtain bits | bits : x.toBits.toNat = 0 ∨ x.toBits.toNat = 2 ^ 63 := by omega
    · exact ⟨false, -1074, by rw [exact, bits]; decide⟩
    · exact ⟨true, -1074, by rw [exact, bits]; decide⟩

theorem beq_zero_iff : (x == 0) = true ↔ IsZero x := by
  have zero : IsZero 0 := ⟨false, -1074, by decide⟩
  rw [beq_iff]
  constructor
  · rintro (⟨-, rfl⟩ | ⟨isZero, -⟩)
    · exact zero
    · exact isZero
  · intro isZero
    exact .inr ⟨isZero, zero⟩

/-! ## Rounding -/

/-- Nothing from the smallest double on is rounded to zero. -/
theorem nearest_pos (large : (2 : ℚ) ^ (-1074 : Int) ≤ q) : 0 < nearest q := by
  have mantissa : 0 < nearestMantissa q := by
    rcases le_nearestMantissa ((two_zpow_pos _).trans_le large) with full | lowest
    · omega
    · have floor := floor_le_roundEven (q / 2 ^ lastPlace q)
      have one : 1 ≤ ⌊q / 2 ^ lastPlace q⌋₊ := by
        rw [Nat.one_le_floor_iff, lowest, one_le_div (two_zpow_pos _)]
        exact large
      exact Nat.lt_of_lt_of_le one floor
  rw [nearest, bitsOf, infinityBits]
  omega

/-- The runtime rounds a whole multiple of a power of two to the nearest double. -/
theorem toNat_pack_round {m : Nat} {e : Int} (s : Sign) (hm : 0 < m) :
    (UnpackedFloat.pack Format.binary64 (UnpackedFloat.round Format.binary64 s m e)).toNat =
      s.toBitVec.toNat * 2 ^ 63 + nearest (m * 2 ^ e) := by
  have positive := mul_two_zpow_pos hm e
  have target : Format.binary64.targetExponent (totalExponent m e) = lastPlace (m * 2 ^ e) := by
    have log := log_div_two_zpow positive e
    rw [mul_div_cancel_right₀ _ (two_zpow_pos e).ne', Int.log_natCast, ← Nat.log2_eq_log_two] at log
    rw [targetExponent_eq, totalExponent, lastPlace]
    omega
  simp only [UnpackedFloat.round, decreaseExponent, target]
  generalize hp : lastPlace (m * 2 ^ e : ℚ) = p at *
  apply toNat_pack_roundWithAccuracy s positive
  · have scaled : (m * 2 ^ e / 2 ^ (e - (e - p).toNat : Int) : ℚ) = (m <<< (e - p).toNat : Nat) := by
      rw [mul_div_assoc, ← zpow_sub₀ (by norm_num), sub_sub_cancel, zpow_natCast, Nat.shiftLeft_eq]
      push_cast
      rfl
    rw [scaled]
    exact represents_exact _
  · omega

/-- The bits of a multiple of a power of two, rounded, are those of a zero only if it is zero. -/
theorem pack_normalize_mod_eq_zero_iff {d e : Int} (low : -1074 ≤ e) :
    (UnpackedFloat.pack Format.binary64
      (normalize Format.binary64 d e .positive)).toNat % 2 ^ 63 = 0 ↔ d = 0 := by
  have nonzero (s : Sign) {m : Nat} (hm : 0 < m) : ¬ (UnpackedFloat.pack Format.binary64
      (UnpackedFloat.round Format.binary64 s m e)).toNat % 2 ^ 63 = 0 := by
    have large : (2 : ℚ) ^ (-1074 : Int) ≤ m * 2 ^ e := by
      calc (2 : ℚ) ^ (-1074 : Int) ≤ 2 ^ e := zpow_le_zpow_right₀ (by norm_num) low
        _ ≤ m * 2 ^ e := le_mul_of_one_le_left (two_zpow_pos e).le (by exact_mod_cast hm)
    have positive := nearest_pos large
    have bound : nearest (m * 2 ^ e) ≤ infinityBits := Nat.min_le_right _ _
    rw [infinityBits] at bound
    rw [toNat_pack_round s hm]
    omega
  rw [UnpackedFloat.normalize]
  cases sign : compare d 0 with
  | lt =>
    have negative : d < 0 := Int.compare_eq_lt.mp sign
    exact iff_of_false (nonzero _ (by omega)) negative.ne
  | eq =>
    have zero : d = 0 := Int.compare_eq_eq.mp sign
    exact iff_of_true rfl zero
  | gt =>
    have positive : 0 < d := Int.compare_eq_gt.mp sign
    exact iff_of_false (nonzero _ (by omega)) positive.ne'

/-! ## The runtime's difference -/

/-- A finite double as the runtime sees it. -/
theorem HasRational.exists_unpack (h : HasRational x q) :
    (∃ s, x.toModel.unpack = .zero s ∧ q = 0) ∨
      ∃ s m e, ∃ hm : 0 < m, x.toModel.unpack = .finite s m e hm ∧ q = s.apply m * 2 ^ e ∧
        m < 2 ^ 53 ∧ -1074 ≤ e ∧ e ≤ 971 ∧ (2 ^ 52 ≤ m ∨ e = -1074) := by
  obtain ⟨negative, m, e, value, rfl⟩ := h
  rw [unpack_toModel, value, Exact.unpacked]
  rcases Nat.eq_zero_or_pos m with rfl | positive
  · exact .inl ⟨signOf negative, rfl, by simp⟩
  · refine .inr ⟨signOf negative, m, e, positive, dif_neg positive.ne', ?_, Exact.ofBits_finite value⟩
    cases negative <;> simp [signOf, Sign.apply]

theorem pack_finite_mod_ne_zero {m : Nat} {e : Int} (s : Sign) (positive : 0 < m) (below : m < 2 ^ 53)
    (low : -1074 ≤ e) (high : e ≤ 971) (normal : 2 ^ 52 ≤ m ∨ e = -1074) :
    ¬ (UnpackedFloat.pack Format.binary64 (.finite s m e positive)).toNat % 2 ^ 63 = 0 := by
  rw [toNat_pack_finite s positive below low high normal, bitsOf]
  omega

theorem apply_mul_ne_zero {m : Nat} (s : Sign) (hm : 0 < m) (e : Int) :
    (s.apply m * 2 ^ e : ℚ) ≠ 0 := by
  apply mul_ne_zero _ (two_zpow_pos e).ne'
  cases s <;> simp [Sign.apply, hm.ne']

/-- A number keeps its value when its exponent is made smaller. -/
theorem apply_decreaseExponent_mul {m : Nat} {e f : Int} (s : Sign) (smaller : f ≤ e) :
    (s.apply (decreaseExponent m e f).1 * 2 ^ f : ℚ) = s.apply m * 2 ^ e := by
  have exponent : (e - f).toNat + f = e := by omega
  have magnitude : ((decreaseExponent m e f).1 * 2 ^ f : ℚ) = m * 2 ^ e := by
    rw [decreaseExponent, Nat.shiftLeft_eq]
    push_cast
    rw [← zpow_natCast, mul_assoc, ← zpow_add₀ (by norm_num), exponent]
  cases s with
  | negative =>
    rw [Sign.apply, Sign.apply, Int.cast_neg, Int.cast_neg, neg_mul, neg_mul]
    exact_mod_cast congrArg Neg.neg magnitude
  | positive => exact_mod_cast magnitude

theorem sub_eq_pack (x y : Float) : (x - y).toBits.toNat = (UnpackedFloat.pack Format.binary64
    (UnpackedFloat.sub Format.binary64 x.toModel.unpack y.toModel.unpack)).toNat :=
  rfl

/-- A difference is zero only between equal doubles: it is a multiple of the smallest double. -/
theorem HasRational.sub_beq_zero_iff (hp : HasRational x p) (hq : HasRational y q) :
    (x - y == 0) = true ↔ p = q := by
  rw [beq_zero_iff, isZero_iff_bits, sub_eq_pack]
  obtain ⟨s, unpackX, rfl⟩ | ⟨s, m, e, hm, unpackX, rfl, belowM, lowE, highE, normalM⟩ :=
      hp.exists_unpack <;>
    obtain ⟨t, unpackY, rfl⟩ | ⟨t, n, f, hn, unpackY, rfl, belowN, lowF, highF, normalN⟩ :=
      hq.exists_unpack <;>
    rw [unpackX, unpackY]
  case inl.inl => cases s <;> cases t <;> exact iff_of_true (by decide) rfl
  case inl.inr =>
    exact iff_of_false (pack_finite_mod_ne_zero (-t) hn belowN lowF highF normalN)
      (apply_mul_ne_zero t hn f).symm
  case inr.inl =>
    exact iff_of_false (pack_finite_mod_ne_zero s hm belowM lowE highE normalM)
      (apply_mul_ne_zero s hm e)
  case inr.inr =>
    have difference : UnpackedFloat.sub Format.binary64 (.finite s m e hm) (.finite t n f hn) =
        UnpackedFloat.normalize Format.binary64 (s.apply (decreaseExponent m e (min e f)).1 -
          t.apply (decreaseExponent n f (min e f)).1) (min e f) .positive := rfl
    rw [difference, pack_normalize_mod_eq_zero_iff (by omega), sub_eq_zero,
      ← apply_decreaseExponent_mul s (Int.min_le_left e f),
      ← apply_decreaseExponent_mul t (Int.min_le_right e f),
      mul_left_inj' (two_zpow_pos _).ne', Int.cast_inj]

end CallScript.Number
