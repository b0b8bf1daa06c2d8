import CallScript.Proofs.Number.Overflow

/-! # The double nearest to a rational number

Rounding by numerator and denominator, as numbers are read, is rounding of the rational number that
they name (`nearestBits_eq_nearest`). Rounded this way a number is off by half a unit of its last
place at most (`rounded_le`, `le_rounded`), and below `overflow` it does not become infinite
(`nearest_lt_infinityBits`). -/

namespace CallScript.Number

variable {q : ℚ} {num den : Nat}

/-! ## Rounding to a natural number -/

/-- The rational number rounded to the nearest natural number, a tie going to the even one. -/
def roundEven (q : ℚ) : Nat :=
  if 2 * (q - ⌊q⌋₊) < 1 then ⌊q⌋₊
  else if 1 < 2 * (q - ⌊q⌋₊) then ⌊q⌋₊ + 1
  else ⌊q⌋₊ + ⌊q⌋₊ % 2

theorem roundHalfEven_eq_roundEven (hden : 0 < den) :
    roundHalfEven num den = roundEven (num / den) := by
  have positive : (0 : ℚ) < den := by exact_mod_cast hden
  have floor : ⌊(num / den : ℚ)⌋₊ = num / den := Nat.floor_div_eq_div num den
  have rest : (num / den : ℚ) - (num / den : Nat) = (num % den : Nat) / den := by
    have whole : ((den * (num / den) + num % den : Nat) : ℚ) = num := by rw [Nat.div_add_mod]
    push_cast at whole ⊢
    field_simp
    linarith
  have below : 2 * ((num % den : Nat) / den : ℚ) < 1 ↔ 2 * (num % den) < den := by
    rw [mul_div, div_lt_one positive]
    exact_mod_cast Iff.rfl
  have above : 1 < 2 * ((num % den : Nat) / den : ℚ) ↔ den < 2 * (num % den) := by
    rw [mul_div, one_lt_div positive]
    exact_mod_cast Iff.rfl
  simp only [roundHalfEven, roundEven, floor, rest, below, above]

theorem roundEven_le (hq : 0 ≤ q) : (roundEven q : ℚ) ≤ q + 1 / 2 := by
  have floor := Nat.floor_le hq
  rw [roundEven]
  split
  next => linarith
  next =>
    split
    next => push_cast; linarith
    next =>
      have parity : ((⌊q⌋₊ % 2 : Nat) : ℚ) ≤ 1 := by exact_mod_cast (by omega : ⌊q⌋₊ % 2 ≤ 1)
      push_cast at parity ⊢
      linarith

theorem le_roundEven (q : ℚ) : q ≤ roundEven q + 1 / 2 := by
  rw [roundEven]
  split
  next => linarith
  next =>
    split
    next =>
      have next := Nat.lt_floor_add_one q
      push_cast
      linarith
    next =>
      have parity : (0 : ℚ) ≤ (⌊q⌋₊ % 2 : Nat) := Nat.cast_nonneg _
      push_cast at parity ⊢
      linarith

theorem floor_le_roundEven (q : ℚ) : ⌊q⌋₊ ≤ roundEven q := by
  rw [roundEven]
  split
  next => exact Nat.le_refl _
  next => split <;> omega

theorem roundEven_le_floor (q : ℚ) : roundEven q ≤ ⌊q⌋₊ + 1 := by
  rw [roundEven]
  split
  next => omega
  next => split <;> omega

theorem roundEven_natCast (n : Nat) : roundEven n = n := by
  simp [roundEven]

/-! ## Rounding to a double -/

/-- The place of the last bit that a double near the rational number keeps. -/
def lastPlace (q : ℚ) : Int :=
  max (Int.log 2 q - 52) (-1074)

/-- The mantissa of that double, which may be carried up to the next power of two. -/
def nearestMantissa (q : ℚ) : Nat :=
  roundEven (q / 2 ^ lastPlace q)

/-- The bits of the double nearest to a rational number. -/
def nearest (q : ℚ) : Nat :=
  min (bitsOf (nearestMantissa q) (lastPlace q)) infinityBits

theorem two_zpow_pos (e : Int) : (0 : ℚ) < 2 ^ e :=
  zpow_pos (by norm_num) e

theorem mul_two_zpow_pos {m : Nat} (hm : 0 < m) (e : Int) : (0 : ℚ) < m * 2 ^ e :=
  mul_pos (by exact_mod_cast hm) (two_zpow_pos e)

theorem log_div_two_zpow (hq : 0 < q) (e : Int) : Int.log 2 (q / 2 ^ e) = Int.log 2 q - e := by
  apply eq_of_forall_le_iff
  intro p
  have scaled : 0 < q / 2 ^ e := div_pos hq (two_zpow_pos e)
  rw [← Int.zpow_le_iff_le_log (by decide) scaled, le_sub_iff_add_le,
    ← Int.zpow_le_iff_le_log (by decide) hq, Nat.cast_ofNat, zpow_add₀ (by norm_num),
    le_div_iff₀ (two_zpow_pos e)]

theorem binaryPlace_eq_log (hnum : 0 < num) (hden : 0 < den) :
    binaryPlace num den = Int.log 2 (num / den : ℚ) := by
  have numPos : (0 : ℚ) < num := by exact_mod_cast hnum
  have denPos : (0 : ℚ) < den := by exact_mod_cast hden
  have numLow : (2 : ℚ) ^ (num.log2 : Int) ≤ num := by exact_mod_cast Nat.log2_self_le hnum.ne'
  have numHigh : (num : ℚ) < 2 ^ (num.log2 + 1 : Int) := by exact_mod_cast Nat.lt_log2_self
  have denLow : (2 : ℚ) ^ (den.log2 : Int) ≤ den := by exact_mod_cast Nat.log2_self_le hden.ne'
  have denHigh : (den : ℚ) < 2 ^ (den.log2 + 1 : Int) := by exact_mod_cast Nat.lt_log2_self
  have place (p : Int) : (2 : ℚ) ^ p * den ≤ num ↔ p ≤ Int.log 2 (num / den : ℚ) := by
    rw [← le_div_iff₀ denPos]
    exact_mod_cast Int.zpow_le_iff_le_log (by decide) (div_pos numPos denPos)
  have low : (num.log2 - den.log2 - 1 : Int) ≤ Int.log 2 (num / den : ℚ) := by
    rw [← place]
    calc (2 : ℚ) ^ (num.log2 - den.log2 - 1 : Int) * den
        ≤ 2 ^ (num.log2 - den.log2 - 1 : Int) * 2 ^ (den.log2 + 1 : Int) := by gcongr
      _ = 2 ^ (num.log2 : Int) := by
          rw [← zpow_add₀ (by norm_num)]
          congr 1
          omega
      _ ≤ num := numLow
  have high : ¬ (num.log2 - den.log2 + 1 : Int) ≤ Int.log 2 (num / den : ℚ) := by
    rw [← place, not_le]
    calc (num : ℚ) < 2 ^ (num.log2 + 1 : Int) := numHigh
      _ = 2 ^ (num.log2 - den.log2 + 1 : Int) * 2 ^ (den.log2 : Int) := by
          rw [← zpow_add₀ (by norm_num)]
          congr 1
          omega
      _ ≤ 2 ^ (num.log2 - den.log2 + 1 : Int) * den := by gcongr
  have reaches : (if 0 ≤ (num.log2 : Int) - den.log2 then
      den * 2 ^ ((num.log2 : Int) - den.log2).toNat ≤ num
      else den ≤ num * 2 ^ (-((num.log2 : Int) - den.log2)).toNat) ↔
        (num.log2 - den.log2 : Int) ≤ Int.log 2 (num / den : ℚ) := by
    rw [← place]
    generalize (num.log2 : Int) - den.log2 = p
    split
    next nonneg =>
      obtain ⟨k, rfl⟩ := Int.eq_ofNat_of_zero_le nonneg
      rw [Int.toNat_natCast, zpow_natCast, mul_comm]
      exact_mod_cast Iff.rfl
    next negative =>
      obtain ⟨k, rfl⟩ : ∃ k : Nat, p = -k := ⟨(-p).toNat, by omega⟩
      rw [neg_neg, Int.toNat_natCast, zpow_neg, zpow_natCast, inv_mul_le_iff₀ (by positivity), mul_comm]
      exact_mod_cast Iff.rfl
  rw [binaryPlace]
  simp only [reaches]
  split <;> omega

theorem lastExponent_eq_lastPlace (hnum : 0 < num) (hden : 0 < den) :
    lastExponent num den = lastPlace (num / den) := by
  rw [lastExponent, lastPlace, binaryPlace_eq_log hnum hden]

theorem nearestBits_eq_nearest (hnum : 0 < num) (hden : 0 < den) :
    nearestBits num den = nearest (num / den) := by
  have mantissa (e : Int) : (if 0 ≤ e then roundHalfEven num (den * 2 ^ e.toNat)
      else roundHalfEven (num * 2 ^ (-e).toNat) den) = roundEven (num / den / 2 ^ e) := by
    split
    next nonneg =>
      obtain ⟨k, rfl⟩ := Int.eq_ofNat_of_zero_le nonneg
      rw [Int.toNat_natCast, roundHalfEven_eq_roundEven (Nat.mul_pos hden (Nat.two_pow_pos k)),
        zpow_natCast, div_div]
      push_cast
      rfl
    next negative =>
      obtain ⟨k, rfl⟩ : ∃ k : Nat, e = -k := ⟨(-e).toNat, by omega⟩
      rw [neg_neg, Int.toNat_natCast, roundHalfEven_eq_roundEven hden, zpow_neg, zpow_natCast,
        div_inv_eq_mul, div_mul_eq_mul_div]
      push_cast
      rfl
  rw [nearestBits, if_neg hnum.ne']
  simp only [mantissa, lastExponent_eq_lastPlace hnum hden]
  rfl

/-! ## What the mantissa holds -/

theorem div_lastPlace_lt (q : ℚ) : q / 2 ^ lastPlace q < 2 ^ 53 := by
  rw [div_lt_iff₀ (two_zpow_pos _)]
  have place : Int.log 2 q + 1 ≤ 53 + lastPlace q := by
    rw [lastPlace]
    omega
  calc q < (2 : ℚ) ^ (Int.log 2 q + 1) := by
        exact_mod_cast Int.lt_zpow_succ_log_self (by decide) q
    _ ≤ 2 ^ (53 + lastPlace q) := zpow_le_zpow_right₀ (by norm_num) place
    _ = 2 ^ 53 * 2 ^ lastPlace q := by
        rw [zpow_add₀ (by norm_num)]
        rfl

theorem le_lastPlace (q : ℚ) : -1074 ≤ lastPlace q :=
  Int.le_max_right _ _

theorem le_div_lastPlace (hq : 0 < q) (normal : lastPlace q ≠ -1074) :
    2 ^ 52 ≤ q / 2 ^ lastPlace q := by
  rw [le_div_iff₀ (two_zpow_pos _)]
  have place : 52 + lastPlace q = Int.log 2 q := by
    rw [lastPlace] at normal ⊢
    omega
  calc (2 : ℚ) ^ 52 * 2 ^ lastPlace q = 2 ^ (52 + lastPlace q) := by
        rw [zpow_add₀ (by norm_num)]
        rfl
    _ = 2 ^ Int.log 2 q := by rw [place]
    _ ≤ q := by exact_mod_cast Int.zpow_log_le_self (by decide) hq

theorem nearestMantissa_le (hq : 0 < q) : nearestMantissa q ≤ 2 ^ 53 := by
  have below : ⌊q / 2 ^ lastPlace q⌋₊ < 2 ^ 53 := by
    rw [Nat.floor_lt (div_nonneg hq.le (two_zpow_pos _).le)]
    exact_mod_cast div_lastPlace_lt q
  have rounded := roundEven_le_floor (q / 2 ^ lastPlace q)
  rw [nearestMantissa]
  omega

/-- The mantissa is full unless the number is too small for that. -/
theorem le_nearestMantissa (hq : 0 < q) : 2 ^ 52 ≤ nearestMantissa q ∨ lastPlace q = -1074 := by
  by_cases lowest : lastPlace q = -1074
  · exact .inr lowest
  · have full : 2 ^ 52 ≤ ⌊q / 2 ^ lastPlace q⌋₊ :=
      Nat.le_floor (by exact_mod_cast le_div_lastPlace hq lowest)
    exact .inl (Nat.le_trans full (floor_le_roundEven _))

/-! ## The value of the nearest double -/

/-- The value of the nearest double, if that is finite. -/
def rounded (q : ℚ) : ℚ :=
  nearestMantissa q * 2 ^ lastPlace q

theorem rounded_le (hq : 0 < q) : rounded q ≤ q + 2 ^ lastPlace q / 2 := by
  have unit := two_zpow_pos (lastPlace q)
  have close := roundEven_le (div_nonneg hq.le unit.le)
  calc rounded q ≤ (q / 2 ^ lastPlace q + 1 / 2) * 2 ^ lastPlace q :=
        mul_le_mul_of_nonneg_right close unit.le
    _ = q + 2 ^ lastPlace q / 2 := by field_simp

theorem le_rounded (q : ℚ) : q ≤ rounded q + 2 ^ lastPlace q / 2 := by
  have unit := two_zpow_pos (lastPlace q)
  have close := le_roundEven (q / 2 ^ lastPlace q)
  calc q = q / 2 ^ lastPlace q * 2 ^ lastPlace q := by field_simp
    _ ≤ (nearestMantissa q + 1 / 2) * 2 ^ lastPlace q := mul_le_mul_of_nonneg_right close unit.le
    _ = rounded q + 2 ^ lastPlace q / 2 := by
        rw [rounded]
        ring

theorem log_nonneg (hq : 1 ≤ q) : 0 ≤ Int.log 2 q := by
  rw [← Int.zpow_le_iff_le_log (by decide) (zero_lt_one.trans_le hq)]
  simpa using hq

/-- Half a unit of the last place is a small part of the number. -/
theorem half_unit_le (hq : 1 ≤ q) : 2 ^ lastPlace q / 2 ≤ q / 2 ^ 53 := by
  have log := log_nonneg hq
  have normal : lastPlace q ≠ -1074 := by
    rw [lastPlace]
    omega
  have full := le_div_lastPlace (zero_lt_one.trans_le hq) normal
  rw [le_div_iff₀ (two_zpow_pos _)] at full
  linarith

theorem one_le_rounded (hq : 1 ≤ q) : 1 ≤ rounded q := by
  have log := log_nonneg hq
  have place : lastPlace q = Int.log 2 q - 52 := by
    rw [lastPlace]
    omega
  have full : 2 ^ 52 ≤ nearestMantissa q :=
    (le_nearestMantissa (zero_lt_one.trans_le hq)).resolve_right (by omega)
  calc (1 : ℚ) ≤ 2 ^ Int.log 2 q := one_le_zpow₀ (by norm_num) log
    _ = 2 ^ (52 : Int) * 2 ^ lastPlace q := by
        rw [place, ← zpow_add₀ (by norm_num)]
        congr 1
        omega
    _ ≤ nearestMantissa q * 2 ^ lastPlace q :=
        mul_le_mul_of_nonneg_right (by exact_mod_cast full) (two_zpow_pos _).le
    _ = rounded q := rfl

/-- A number with no more bits than a mantissa has is rounded to itself. -/
theorem rounded_eq {m : Nat} {e : Int} (hm : 0 < m) (below : m < 2 ^ 53) (low : -1074 ≤ e) :
    rounded (m * 2 ^ e) = m * 2 ^ e := by
  have positive := mul_two_zpow_pos hm e
  have log : Int.log 2 (m * 2 ^ e : ℚ) < 53 + e := by
    rw [← Int.lt_zpow_iff_log_lt (by decide) positive, Nat.cast_ofNat, zpow_add₀ (by norm_num)]
    exact mul_lt_mul_of_pos_right (by exact_mod_cast below) (two_zpow_pos e)
  have place : lastPlace (m * 2 ^ e : ℚ) ≤ e := by
    rw [lastPlace]
    omega
  rw [rounded, nearestMantissa]
  generalize lastPlace (m * 2 ^ e : ℚ) = p at *
  obtain ⟨k, hk⟩ := Int.eq_ofNat_of_zero_le (sub_nonneg.mpr place)
  have whole : (m * 2 ^ e / 2 ^ p : ℚ) = (m * 2 ^ k : Nat) := by
    rw [mul_div_assoc, ← zpow_sub₀ (by norm_num), hk, zpow_natCast]
    push_cast
    rfl
  rw [whole, roundEven_natCast, ← whole, div_mul_cancel₀ _ (two_zpow_pos p).ne']

theorem cast_overflow : (overflow : ℚ) = (2 ^ 53 - 1 / 2) * 2 ^ (971 : Int) := by
  have scaled (k : Nat) : (((2 ^ 54 - 1) * 2 ^ k : Nat) : ℚ) =
      (2 ^ 53 - 1 / 2) * 2 ^ (k + 1 : Int) := by
    rw [zpow_add_one₀ (by norm_num)]
    push_cast
    rw [zpow_natCast]
    ring
  exact scaled 970

/-- Below the threshold a number is not rounded to infinity: the largest mantissa is not carried. -/
theorem nearest_lt_infinityBits (hq : 0 < q) (small : q < overflow) : nearest q < infinityBits := by
  rw [cast_overflow] at small
  have log : Int.log 2 q < 1024 := by
    rw [← Int.lt_zpow_iff_log_lt (by decide) hq]
    calc q < (2 ^ 53 - 1 / 2) * 2 ^ (971 : Int) := small
      _ ≤ 2 ^ (53 : Int) * 2 ^ (971 : Int) := by
          gcongr
          norm_num
      _ = ((2 : Nat) : ℚ) ^ (1024 : Int) := by
          rw [← zpow_add₀ (by norm_num)]
          rfl
  have high := nearestMantissa_le hq
  have notCarried (top : lastPlace q = 971) : nearestMantissa q < 2 ^ 53 := by
    have close := roundEven_le (div_nonneg hq.le (two_zpow_pos 971).le)
    have scaled : q / 2 ^ (971 : Int) < 2 ^ 53 - 1 / 2 := by
      rw [div_lt_iff₀ (two_zpow_pos 971)]
      linarith
    have below : (nearestMantissa q : ℚ) < 2 ^ 53 := by
      rw [nearestMantissa, top]
      linarith
    exact_mod_cast below
  rw [nearest, bitsOf, infinityBits]
  have place : lastPlace q ≤ 971 := by
    rw [lastPlace]
    omega
  omega

/-! ## Doubles by their values -/

/-- The double stands for the rational number, without a minus sign. -/
def StandsFor (x : Float) (q : ℚ) : Prop :=
  ∃ m e, exact x = .finite false m e ∧ (m * 2 ^ e : ℚ) = q

theorem StandsFor.isFinite {x : Float} (stands : StandsFor x q) : x.isFinite = true := by
  obtain ⟨m, e, value, -⟩ := stands
  exact isFinite_iff.mpr ⟨_, _, _, value⟩

theorem StandsFor.nonneg {x : Float} (stands : StandsFor x q) : 0 ≤ q := by
  obtain ⟨m, e, -, rfl⟩ := stands
  exact mul_nonneg (Nat.cast_nonneg m) (two_zpow_pos e).le

theorem StandsFor.lt_overflow {x : Float} (stands : StandsFor x q) : q < overflow := by
  obtain ⟨m, e, value, rfl⟩ := stands
  obtain ⟨below, -, high, -⟩ := Exact.ofBits_finite value
  have mantissa : (m : ℚ) ≤ 2 ^ 53 - 1 := by
    have cast : ((m + 1 : Nat) : ℚ) ≤ (2 ^ 53 : Nat) := by exact_mod_cast below
    push_cast at cast
    linarith
  calc (m * 2 ^ e : ℚ) ≤ (2 ^ 53 - 1) * 2 ^ (971 : Int) :=
        mul_le_mul mantissa (zpow_le_zpow_right₀ (by norm_num) high) (two_zpow_pos e).le (by norm_num)
    _ < overflow := by
        rw [cast_overflow]
        exact mul_lt_mul_of_pos_right (by norm_num) (two_zpow_pos 971)

/-- The exponent of a finite nearest double is the last place, or one more if the mantissa is carried. -/
theorem ofBits_nearest (hq : 0 < q) (finite : nearest q < infinityBits) :
    ∃ m e, Exact.ofBits (nearest q) = .finite false m e ∧ (m * 2 ^ e : ℚ) = rounded q ∧
      lastPlace q ≤ e := by
  have low := le_lastPlace q
  have normal := le_nearestMantissa hq
  rw [nearest, min_lt_iff, or_iff_left (Nat.lt_irrefl _)] at finite
  rw [nearest, Nat.min_eq_left finite.le, rounded]
  rw [bitsOf, infinityBits] at finite
  rcases Nat.lt_or_eq_of_le (nearestMantissa_le hq) with below | carried
  · exact ⟨_, _, Exact.ofBits_bitsOf below low (by omega) normal, rfl, Int.le_refl _⟩
  · have bits : bitsOf (nearestMantissa q) (lastPlace q) = bitsOf (2 ^ 52) (lastPlace q + 1) := by
      rw [carried, bitsOf, bitsOf]
      omega
    refine ⟨2 ^ 52, lastPlace q + 1, ?_, ?_, by omega⟩
    · rw [bits]
      exact Exact.ofBits_bitsOf (by decide) (by omega) (by omega) (.inl (by decide))
    · rw [carried, zpow_add_one₀ (by norm_num)]
      push_cast
      ring

/-- Below the threshold the nearest double is finite and has the value told. -/
theorem standsFor_of_bits {x : Float} (bits : x.toBits.toNat = nearest q) (hq : 0 < q)
    (small : q < overflow) : StandsFor x (rounded q) := by
  obtain ⟨m, e, exactly, value, -⟩ := ofBits_nearest hq (nearest_lt_infinityBits hq small)
  refine ⟨m, e, ?_, value⟩
  rw [exact, bits, exactly]

theorem standsFor_ofBits_nearest (hq : 0 < q) (small : q < overflow) :
    StandsFor (.ofBits (.ofNat (nearest q))) (rounded q) := by
  have finite := nearest_lt_infinityBits hq small
  obtain ⟨m, e, exactly, value, -⟩ := ofBits_nearest hq finite
  refine ⟨m, e, ?_, value⟩
  rw [exact_ofBits (Nat.lt_trans finite (by decide)) (by rw [exactly]; exact Exact.noConfusion), exactly]

/-- What is rounded to a double lies less than a unit of its last place above it. -/
theorem le_of_nearest_eq {m : Nat} {e : Int} (hq : 0 < q) (bits : nearest q = bitsOf m e)
    (below : m < 2 ^ 53) (low : -1074 ≤ e) (high : e ≤ 971) (normal : 2 ^ 52 ≤ m ∨ e = -1074) :
    q ≤ (m + 1 / 2) * 2 ^ e := by
  have finite : nearest q < infinityBits := by
    rw [bits, bitsOf, infinityBits]
    omega
  obtain ⟨n, f, exactly, value, place⟩ := ofBits_nearest hq finite
  rw [bits, Exact.ofBits_bitsOf below low high normal] at exactly
  cases exactly
  have close := le_rounded q
  have unit : (2 : ℚ) ^ lastPlace q ≤ 2 ^ e := zpow_le_zpow_right₀ (by norm_num) place
  rw [← value] at close
  linarith

/-- A double is the nearest one to its own value. -/
theorem nearest_eq {m : Nat} {e : Int} (hm : 0 < m) (below : m < 2 ^ 53) (low : -1074 ≤ e)
    (high : e ≤ 971) (normal : 2 ^ 52 ≤ m ∨ e = -1074) : nearest (m * 2 ^ e) = bitsOf m e := by
  have scaled : (m * 2 ^ e / 2 ^ e : ℚ) = m := mul_div_cancel_right₀ _ (two_zpow_pos e).ne'
  have log := log_div_two_zpow (mul_two_zpow_pos hm e) e
  rw [scaled, Int.log_natCast, ← Nat.log2_eq_log_two] at log
  have place : lastPlace (m * 2 ^ e : ℚ) = e := by
    have bits : m.log2 ≤ 52 := Nat.le_of_lt_succ ((Nat.log2_lt hm.ne').mpr below)
    have full : 2 ^ 52 ≤ m → 52 ≤ m.log2 := (Nat.le_log2 hm.ne').mpr
    rw [lastPlace]
    omega
  rw [nearest, nearestMantissa, place, scaled, roundEven_natCast, Nat.min_eq_left]
  rw [bitsOf, infinityBits]
  omega

end CallScript.Number
