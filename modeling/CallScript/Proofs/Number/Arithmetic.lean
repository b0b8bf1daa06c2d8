import CallScript.Proofs.Number.Nearest

/-! # Products and quotients of doubles

The product and the quotient of two positive doubles are the doubles nearest to the exact product
and quotient (`StandsFor.toNat_toBits_mul`, `StandsFor.toNat_toBits_div`). The runtime drops the bits
of a mantissa one by one and keeps two bits about what it has dropped; these tell all that rounding to
the nearest asks for (`Represents`). -/

namespace CallScript.Number

open Float.Model Float.Model.UnpackedFloat

variable {q : ℚ} {em : ExtendedMantissa}

/-! ## A mantissa and what was dropped behind it -/

/-- What a mantissa and its two bits say about the number that they stand for. -/
def Represents (em : ExtendedMantissa) (q : ℚ) : Prop :=
  match em.roundBit, em.stickyBit with
  | false, false => q = em.mantissa
  | false, true => em.mantissa < q ∧ q < em.mantissa + 1 / 2
  | true, false => q = em.mantissa + 1 / 2
  | true, true => em.mantissa + 1 / 2 < q ∧ q < em.mantissa + 1

theorem Represents.floor_eq (represents : Represents em q) : ⌊q⌋₊ = em.mantissa := by
  obtain ⟨m, roundBit, stickyBit⟩ := em
  have nonneg : (0 : ℚ) ≤ m := Nat.cast_nonneg m
  have bounds : (m : ℚ) ≤ q ∧ q < m + 1 := by
    cases roundBit <;> cases stickyBit <;> simp only [Represents] at represents <;>
      constructor <;> linarith
  exact (Nat.floor_eq_iff (nonneg.trans bounds.1)).mpr bounds

theorem Represents.roundedMantissa_eq (represents : Represents em q) :
    em.roundedMantissa = roundEven q := by
  have floor := represents.floor_eq
  obtain ⟨m, roundBit, stickyBit⟩ := em
  simp only [roundEven, floor]
  cases roundBit <;> cases stickyBit <;> simp only [Represents] at represents
  case false.false => rw [if_pos (by linarith)]; rfl
  case false.true => rw [if_pos (by linarith)]; rfl
  case true.false => rw [if_neg (by linarith), if_neg (by linarith)]; rfl
  case true.true => rw [if_neg (by linarith), if_pos (by linarith)]; rfl

theorem Represents.shiftRightOne (represents : Represents em q) :
    Represents em.shiftRightOne (q / 2) := by
  obtain ⟨m, roundBit, stickyBit⟩ := em
  have whole : (2 * (m / 2 : Nat) + (m % 2 : Nat) : ℚ) = m := by exact_mod_cast Nat.div_add_mod m 2
  simp only [Represents, ExtendedMantissa.shiftRightOne] at represents ⊢
  rcases Nat.mod_two_eq_zero_or_one m with parity | parity <;> rw [parity] at whole ⊢ <;>
    cases roundBit <;> cases stickyBit <;> simp at represents whole ⊢ <;>
    first | constructor <;> linarith | linarith

theorem Represents.shiftRight (represents : Represents em q) (n : Nat) :
    Represents (em >>> n) (q / 2 ^ n) := by
  induction n with
  | zero =>
    rw [pow_zero, div_one]
    exact represents
  | succ n ih =>
    rw [pow_succ, ← div_div]
    exact ih.shiftRightOne

theorem represents_exact (m : Nat) : Represents (.ofMantissaAndAccuracy m .exact) m :=
  rfl

theorem represents_fraction {num den : Nat} (hden : 0 < den) :
    Represents (.ofMantissaAndAccuracy (num / den) (accuracyOfFraction (num % den) den))
      (num / den) := by
  have positive : (0 : ℚ) < den := by exact_mod_cast hden
  have part : ((num % den : Nat) : ℚ) < den := by exact_mod_cast Nat.mod_lt num hden
  have value : (num / den : ℚ) = (num / den : Nat) + (num % den : Nat) / den := by
    have whole : ((den * (num / den) + num % den : Nat) : ℚ) = num := by rw [Nat.div_add_mod]
    push_cast at whole ⊢
    field_simp
    linarith
  rw [value, accuracyOfFraction]
  generalize num / den = m, num % den = r at *
  have nonneg : (0 : ℚ) ≤ (r : ℚ) / den := by positivity
  split
  next zero => simp [zero, represents_exact]
  next nonzero =>
    have rest : (0 : ℚ) < r / den := div_pos (by exact_mod_cast Nat.pos_of_ne_zero nonzero) positive
    have below : (r / den : ℚ) < 1 := (div_lt_one positive).mpr part
    cases half : compare (2 * r) den with
    | lt =>
      have low : (2 * r : ℚ) < den := by exact_mod_cast Nat.compare_eq_lt.mp half
      have small : (r / den : ℚ) < 1 / 2 := by
        rw [div_lt_div_iff₀ positive (by norm_num)]
        linarith
      exact ⟨lt_add_of_pos_right _ rest, (add_lt_add_iff_left _).mpr small⟩
    | eq =>
      have tie : (2 * r : ℚ) = den := by exact_mod_cast Nat.compare_eq_eq.mp half
      have equal : (r / den : ℚ) = 1 / 2 := by
        rw [← tie]
        field_simp
      rw [equal]
      rfl
    | gt =>
      have high : (den : ℚ) < 2 * r := by exact_mod_cast Nat.compare_eq_gt.mp half
      have large : (1 / 2 : ℚ) < r / den := by
        rw [div_lt_div_iff₀ (by norm_num) positive]
        linarith
      exact ⟨(add_lt_add_iff_left _).mpr large, (add_lt_add_iff_left _).mpr below⟩

/-! ## Rounding -/

/-- The runtime's place of the last bit. -/
theorem targetExponent_eq (total : Int) :
    Format.binary64.targetExponent total = max (total - 53) (-1074) :=
  rfl

/-- The whole part of the mantissa is enough to tell the place. -/
theorem targetExponent_of_floor {m : Nat} {e : Int} (hq : 0 < q) (floor : ⌊q / 2 ^ e⌋₊ = m)
    (fine : e ≤ lastPlace q) :
    Format.binary64.targetExponent (totalExponent m e) = lastPlace q := by
  have log := log_div_two_zpow hq e
  rw [targetExponent_eq, totalExponent]
  rw [lastPlace] at fine ⊢
  rcases Nat.eq_zero_or_pos m with rfl | positive
  · -- such a small number has no bit above the lowest place
    have small : q / 2 ^ e < 2 ^ (0 : Int) := by simpa using Nat.floor_eq_zero.mp floor
    have below : Int.log 2 (q / 2 ^ e) < 0 :=
      (Int.lt_zpow_iff_log_lt (by decide) (div_pos hq (two_zpow_pos e))).mp (by exact_mod_cast small)
    rw [Nat.log2_zero]
    omega
  · have large : 1 ≤ q / 2 ^ e := by
      rw [← Nat.floor_pos, floor]
      exact positive
    rw [Int.log_of_one_le_right 2 large, floor, ← Nat.log2_eq_log_two] at log
    omega

theorem mantissa_ofMantissaAndAccuracy (m : Nat) (accuracy : Accuracy) :
    (ExtendedMantissa.ofMantissaAndAccuracy m accuracy).mantissa = m := by
  rcases accuracy with _ | (_ | _ | _) <;> rfl

/-- The first shift leaves the mantissa of the nearest double. -/
theorem shiftToTargetExponent_of_represents {m : Nat} {e : Int} {accuracy : Accuracy} (hq : 0 < q)
    (represents : Represents (.ofMantissaAndAccuracy m accuracy) (q / 2 ^ e))
    (fine : e ≤ lastPlace q) :
    ∃ em, shiftToTargetExponent Format.binary64 m e accuracy = (em, lastPlace q) ∧
      em.roundedMantissa = nearestMantissa q := by
  have floor := represents.floor_eq
  rw [mantissa_ofMantissaAndAccuracy] at floor
  simp only [shiftToTargetExponent, shiftToExponent, targetExponent_of_floor hq floor fine]
  have shift : e + (lastPlace q - e).toNat = lastPlace q := by omega
  have shifted := represents.shiftRight (lastPlace q - e).toNat
  rw [div_div, ← zpow_natCast, ← zpow_add₀ (by norm_num), shift] at shifted
  exact ⟨_, by rw [shift], shifted.roundedMantissa_eq⟩

/-- A mantissa that is not carried up to the next power of two stays as it is. -/
theorem shiftToTargetExponent_of_lt {r : Nat} {e : Int} (below : r < 2 ^ 53) (low : -1074 ≤ e) :
    shiftToTargetExponent Format.binary64 r e .exact = (⟨r, false, false⟩, e) := by
  have log : r.log2 ≤ 52 := by
    rcases Nat.eq_zero_or_pos r with rfl | positive
    · decide
    · exact Nat.le_of_lt_succ ((Nat.log2_lt positive.ne').mpr below)
  have noShift : (max ((r.log2 : Int) + 1 + e - 53) (-1074) - e).toNat = 0 := by omega
  simp only [shiftToTargetExponent, shiftToExponent, targetExponent_eq, totalExponent, noShift]
  rw [Int.natCast_zero, Int.add_zero]
  rfl

theorem shiftToTargetExponent_carried {e : Int} (low : -1074 ≤ e) :
    shiftToTargetExponent Format.binary64 (2 ^ 53) e .exact = (⟨2 ^ 52, false, false⟩, e + 1) := by
  have oneShift : (max (((2 ^ 53).log2 : Int) + 1 + e - 53) (-1074) - e).toNat = 1 := by
    rw [Nat.log2_two_pow]
    omega
  simp only [shiftToTargetExponent, shiftToExponent, targetExponent_eq, totalExponent, oneShift]
  rfl

/-! ## The bits of the result -/

theorem toNat_pack_infinite {m : Nat} {e : Int} (s : Sign) (positive : 0 < m) (high : 972 ≤ e) :
    (UnpackedFloat.pack Format.binary64 (.finite s m e positive)).toNat =
      s.toBitVec.toNat * 2 ^ 63 + infinityBits := by
  have overflows : 2 ^ Format.binary64.exponentBits ≤ (e + (Format.binary64.exponentBias : Nat) +
      (Format.binary64.mantissaBitsWithoutImplicit : Nat)).toNat + 1 := by
    change 2 ^ 11 ≤ (e + 1023 + 52).toNat + 1
    omega
  have packed := toNat_packComponents s (-1#11) 0
  rw [UnpackedFloat.pack]
  simp only [overflows, if_true]
  refine Eq.trans packed ?_
  cases s <;> rfl

/-- The bits of a mantissa with its exponent, which become infinite if the exponent is too large. -/
theorem toNat_pack_eq_min {m : Nat} {e : Int} (s : Sign) (positive : 0 < m) (below : m < 2 ^ 53)
    (low : -1074 ≤ e) (normal : 2 ^ 52 ≤ m ∨ e = -1074) :
    (UnpackedFloat.pack Format.binary64 (.finite s m e positive)).toNat =
      s.toBitVec.toNat * 2 ^ 63 + min (bitsOf m e) infinityBits := by
  by_cases high : e ≤ 971
  · rw [toNat_pack_finite s positive below low high normal, Nat.min_eq_left]
    rw [bitsOf, infinityBits]
    omega
  · rw [toNat_pack_infinite s positive (by omega), Nat.min_eq_right]
    rw [bitsOf, infinityBits]
    omega

/-- The runtime rounds to the nearest double. -/
theorem toNat_pack_roundWithAccuracy {m : Nat} {e : Int} {accuracy : Accuracy} (s : Sign) (hq : 0 < q)
    (represents : Represents (.ofMantissaAndAccuracy m accuracy) (q / 2 ^ e))
    (fine : e ≤ lastPlace q) :
    (UnpackedFloat.pack Format.binary64
        (roundWithAccuracy Format.binary64 s m e accuracy)).toNat =
      s.toBitVec.toNat * 2 ^ 63 + nearest q := by
  obtain ⟨em, first, rounded⟩ := shiftToTargetExponent_of_represents hq represents fine
  have low := le_lastPlace q
  have high := nearestMantissa_le hq
  have normal := le_nearestMantissa hq
  simp only [roundWithAccuracy, first, rounded, nearest]
  generalize nearestMantissa q = r, lastPlace q = p at *
  rcases Nat.lt_or_eq_of_le high with below | rfl
  · simp only [shiftToTargetExponent_of_lt below low]
    split
    next zero =>
      have lowest : p = -1074 := by omega
      have packed := toNat_packComponents s 0 0
      rw [zero, lowest]
      refine Eq.trans packed ?_
      cases s <;> rfl
    next nonzero => exact toNat_pack_eq_min s _ below low normal
  · have carried : bitsOf (2 ^ 53) p = bitsOf (2 ^ 52) (p + 1) := by
      rw [bitsOf, bitsOf]
      omega
    simp only [shiftToTargetExponent_carried low, carried]
    exact toNat_pack_eq_min s _ (by decide) (by omega) (.inl (by decide))

/-! ## Products and quotients -/

theorem le_lastPlace_of_le {p : Int} (hq : 0 < q) (large : (2 : ℚ) ^ (p + 52) ≤ q) :
    p ≤ lastPlace q := by
  have log : p + 52 ≤ Int.log 2 q := (Int.zpow_le_iff_le_log (by decide) hq).mp (by exact_mod_cast large)
  rw [lastPlace]
  omega

variable {x y : Float} {a b : ℚ}

theorem unpack_of_exact {m : Nat} {e : Int} (value : exact x = .finite false m e) :
    x.toModel.unpack =
      if positive : 0 < m then .finite .positive m e positive else .zero .positive := by
  rw [unpack_toModel, value, Exact.unpacked]
  rcases Nat.eq_zero_or_pos m with rfl | positive
  · rfl
  · rw [dif_neg positive.ne', dif_pos positive]
    rfl

/-- A double that stands for a positive number, as the runtime sees it. -/
theorem StandsFor.exists_unpack (stands : StandsFor x a) (positive : 0 < a) :
    ∃ m e, ∃ hm : 0 < m, x.toModel.unpack = .finite .positive m e hm ∧
      (2 ^ 52 ≤ m ∨ e = -1074) ∧ (m * 2 ^ e : ℚ) = a := by
  obtain ⟨m, e, value, rfl⟩ := stands
  obtain ⟨-, -, -, normal⟩ := Exact.ofBits_finite value
  have mPos : (0 : ℚ) < m := (pos_iff_pos_of_mul_pos positive).mpr (two_zpow_pos e)
  have hm : 0 < m := by exact_mod_cast mPos
  exact ⟨m, e, hm, by rw [unpack_of_exact value, dif_pos hm], normal, rfl⟩

theorem StandsFor.unpack_zero (stands : StandsFor x 0) : x.toModel.unpack = .zero .positive := by
  obtain ⟨m, e, value, zero⟩ := stands
  have hm : m = 0 := by exact_mod_cast (mul_eq_zero.mp zero).resolve_right (two_zpow_pos e).ne'
  rw [unpack_of_exact value, dif_neg (by omega)]

theorem mul_eq_pack (x y : Float) : (x * y).toBits.toNat = (UnpackedFloat.pack Format.binary64
    (UnpackedFloat.mul Format.binary64 x.toModel.unpack y.toModel.unpack)).toNat :=
  rfl

theorem div_eq_pack (x y : Float) : (x / y).toBits.toNat = (UnpackedFloat.pack Format.binary64
    (UnpackedFloat.div Format.binary64 x.toModel.unpack y.toModel.unpack)).toNat :=
  rfl

theorem add_le_lastPlace {m n : Nat} {e f : Int} (hm : 0 < m) (hn : 0 < n)
    (normalM : 2 ^ 52 ≤ m ∨ e = -1074) (normalN : 2 ^ 52 ≤ n ∨ f = -1074) :
    e + f ≤ lastPlace ((m * n : Nat) * 2 ^ (e + f)) := by
  by_cases full : 2 ^ 52 ≤ m * n
  · have positive : (0 : ℚ) < (m * n : Nat) * 2 ^ (e + f) :=
      mul_pos (by exact_mod_cast Nat.mul_pos hm hn) (two_zpow_pos _)
    apply le_lastPlace_of_le positive
    rw [zpow_add₀ (by norm_num), mul_comm]
    gcongr
    exact_mod_cast full
  · -- neither mantissa is full, so both exponents are the lowest
    have notM : ¬ 2 ^ 52 ≤ m := fun large => full (Nat.le_trans large (Nat.le_mul_of_pos_right m hn))
    have notN : ¬ 2 ^ 52 ≤ n := fun large => full (Nat.le_trans large (Nat.le_mul_of_pos_left n hm))
    have low := le_lastPlace ((m * n : Nat) * 2 ^ (e + f) : ℚ)
    omega

/-- The product of two positive doubles is the double nearest to the exact product. -/
theorem StandsFor.toNat_toBits_mul (hx : StandsFor x a) (hy : StandsFor y b) (ha : 0 < a)
    (hb : 0 < b) : (x * y).toBits.toNat = nearest (a * b) := by
  obtain ⟨m, e, hm, unpackX, normalM, rfl⟩ := hx.exists_unpack ha
  obtain ⟨n, f, hn, unpackY, normalN, rfl⟩ := hy.exists_unpack hb
  have value : (m * 2 ^ e * (n * 2 ^ f) : ℚ) = (m * n : Nat) * 2 ^ (e + f) := by
    rw [zpow_add₀ (by norm_num)]
    push_cast
    ring
  have exactly : Represents (.ofMantissaAndAccuracy (m * n) .exact)
      ((m * n : Nat) * 2 ^ (e + f) / 2 ^ (e + f)) := by
    rw [mul_div_cancel_right₀ _ (two_zpow_pos _).ne']
    exact represents_exact (m * n)
  have positive : (0 : ℚ) < (m * n : Nat) * 2 ^ (e + f) := value ▸ mul_pos ha hb
  rw [mul_eq_pack, unpackX, unpackY, UnpackedFloat.mul, value,
    toNat_pack_roundWithAccuracy _ positive exactly (add_le_lastPlace hm hn normalM normalN)]
  exact Nat.zero_add _

theorem le_log_div {m n : Nat} (e f : Int) (hm : 0 < m) (hn : 0 < n) :
    (m.log2 + e - (n.log2 + 1 + f) : Int) ≤ Int.log 2 (m * 2 ^ e / (n * 2 ^ f) : ℚ) := by
  have mPos : (0 : ℚ) < m := by exact_mod_cast hm
  have nPos : (0 : ℚ) < n := by exact_mod_cast hn
  have positive : (0 : ℚ) < m * 2 ^ e / (n * 2 ^ f) :=
    div_pos (mul_pos mPos (two_zpow_pos e)) (mul_pos nPos (two_zpow_pos f))
  have low : (2 : ℚ) ^ (m.log2 : Int) ≤ m := by exact_mod_cast Nat.log2_self_le hm.ne'
  have high : (n : ℚ) ≤ 2 ^ (n.log2 + 1 : Int) := by exact_mod_cast Nat.lt_log2_self.le
  rw [← Int.zpow_le_iff_le_log (by decide) positive, Nat.cast_ofNat, zpow_sub₀ (by norm_num),
    zpow_add₀ (by norm_num), zpow_add₀ (by norm_num)]
  gcongr

/-- The quotient of two positive doubles is the double nearest to the exact quotient. -/
theorem StandsFor.toNat_toBits_div (hx : StandsFor x a) (hy : StandsFor y b) (ha : 0 < a)
    (hb : 0 < b) : (x / y).toBits.toNat = nearest (a / b) := by
  obtain ⟨m, e, hm, unpackX, -, rfl⟩ := hx.exists_unpack ha
  obtain ⟨n, f, hn, unpackY, -, rfl⟩ := hy.exists_unpack hb
  have log := le_log_div e f hm hn
  have positive := div_pos ha hb
  rw [div_eq_pack, unpackX, unpackY, UnpackedFloat.div]
  simp only [divCore, targetExponent_eq, totalExponent]
  -- the dividend is shifted so far that the quotient has all bits of a mantissa
  have fine : min (e - f) (max ((m.log2 : Int) + 1 + e - (n.log2 + 1 + f) - 53) (-1074)) ≤
      lastPlace (m * 2 ^ e / (n * 2 ^ f) : ℚ) := by
    rw [lastPlace]
    omega
  have coarse : min (e - f) (max ((m.log2 : Int) + 1 + e - (n.log2 + 1 + f) - 53) (-1074)) ≤
      e - f := Int.min_le_left _ _
  generalize min (e - f) (max ((m.log2 : Int) + 1 + e - (n.log2 + 1 + f) - 53) (-1074)) = p at *
  have scaled : ((m <<< (e - f - p).toNat : Nat) / n : ℚ) = m * 2 ^ e / (n * 2 ^ f) / 2 ^ p := by
    obtain ⟨k, hk⟩ := Int.eq_ofNat_of_zero_le (sub_nonneg.mpr coarse)
    have split : e = k + f + p := by omega
    have fPos := two_zpow_pos f
    have pPos := two_zpow_pos p
    rw [hk, Int.toNat_natCast, Nat.shiftLeft_eq, split, zpow_add₀ (by norm_num),
      zpow_add₀ (by norm_num), zpow_natCast]
    push_cast
    field_simp
  have rest := @represents_fraction (m <<< (e - f - p).toNat) n hn
  rw [scaled] at rest
  rw [toNat_pack_roundWithAccuracy _ positive rest fine]
  exact Nat.zero_add _

theorem StandsFor.mul (hx : StandsFor x a) (hy : StandsFor y b) (ha : 0 < a) (hb : 0 < b)
    (small : a * b < overflow) : StandsFor (x * y) (rounded (a * b)) :=
  standsFor_of_bits (hx.toNat_toBits_mul hy ha hb) (mul_pos ha hb) small

theorem StandsFor.div (hx : StandsFor x a) (hy : StandsFor y b) (ha : 0 < a) (hb : 0 < b)
    (small : a / b < overflow) : StandsFor (x / y) (rounded (a / b)) :=
  standsFor_of_bits (hx.toNat_toBits_div hy ha hb) (div_pos ha hb) small

theorem standsFor_zero (zero : x.toBits.toNat = 0) : StandsFor x 0 := by
  refine ⟨0, -1074, ?_, by simp⟩
  rw [exact, zero]
  decide

theorem StandsFor.zero_mul (hx : StandsFor x 0) (hy : StandsFor y b) (hb : 0 < b) :
    StandsFor (x * y) 0 := by
  obtain ⟨n, f, hn, unpackY, -, -⟩ := hy.exists_unpack hb
  apply standsFor_zero
  rw [mul_eq_pack, hx.unpack_zero, unpackY]
  rfl

theorem StandsFor.zero_div (hx : StandsFor x 0) (hy : StandsFor y b) (hb : 0 < b) :
    StandsFor (x / y) 0 := by
  obtain ⟨n, f, hn, unpackY, -, -⟩ := hy.exists_unpack hb
  apply standsFor_zero
  rw [div_eq_pack, hx.unpack_zero, unpackY]
  rfl

/-! ## Minus signs -/

theorem Exact.ofBits_sign {n m : Nat} {e : Int} (value : Exact.ofBits n = .finite false m e)
    (hn : n < 2 ^ 63) : Exact.ofBits (2 ^ 63 + n) = .finite true m e := by
  have field : (2 ^ 63 + n) / 2 ^ 52 % 2 ^ 11 = n / 2 ^ 52 % 2 ^ 11 := by omega
  have fraction : (2 ^ 63 + n) % 2 ^ 52 = n % 2 ^ 52 := by omega
  have positive : ¬ n / 2 ^ 63 % 2 = 1 := by omega
  have negative : (2 ^ 63 + n) / 2 ^ 63 % 2 = 1 := by omega
  simp only [Exact.ofBits, positive, decide_false] at value
  simp only [Exact.ofBits, field, fraction, negative, decide_true]
  split at value
  next => split at value <;> cases value
  next =>
    split at value
    next subnormal =>
      cases value
      rw [if_neg (by omega), if_pos subnormal]
    next normal =>
      cases value
      rw [if_neg (by omega), if_neg normal]

theorem Exact.ofBits_bits {negative : Bool} {m : Nat} {e : Int} (below : m < 2 ^ 53) (low : -1074 ≤ e)
    (high : e ≤ 971) (normal : 2 ^ 52 ≤ m ∨ e = -1074) :
    Exact.ofBits (Exact.finite negative m e).bits = .finite negative m e := by
  have value := Exact.ofBits_bitsOf below low high normal
  cases negative with
  | false =>
    rw [Exact.bits, if_neg (by decide), Nat.zero_add]
    exact value
  | true =>
    refine Exact.ofBits_sign value ?_
    rw [bitsOf]
    omega

/-- A minus sign changes the sign of a finite double and nothing else. -/
theorem exact_neg {negative : Bool} {m : Nat} {e : Int} (value : exact x = .finite negative m e) :
    exact (-x) = .finite (!negative) m e := by
  obtain ⟨below, low, high, normal⟩ := Exact.ofBits_finite value
  have bits := @Exact.ofBits_bits (!negative) m e below low high normal
  have negated : x.toModel.unpack.neg = (Exact.ofBits (Exact.finite (!negative) m e).bits).unpacked := by
    rw [unpack_toModel, value, bits, Exact.unpacked, Exact.unpacked]
    by_cases zero : m = 0 <;> cases negative <;> simp only [zero, dif_pos] <;> rfl
  have small : (Exact.finite (!negative) m e).bits < 2 ^ 64 := by
    rw [Exact.bits, bitsOf]
    split <;> omega
  have packed := toNat_pack_unpacked small (by rw [bits]; exact Exact.noConfusion)
  have same : (-x).toBits.toNat =
      (UnpackedFloat.pack Format.binary64 x.toModel.unpack.neg).toNat := rfl
  rw [exact, same, negated, packed, bits]

theorem isFinite_neg (finite : x.isFinite = true) : (-x).isFinite = true := by
  obtain ⟨negative, m, e, value⟩ := isFinite_iff.mp finite
  exact isFinite_iff.mpr ⟨_, _, _, exact_neg value⟩

end CallScript.Number
