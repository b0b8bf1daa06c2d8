import CallScript.Proofs.Number.Difference
import CallScript.Proofs.Number.Integer

/-! # Whole doubles

What a machine asks of a double before it takes it for a place in a list, told by the number that the
double is: whether its fraction is zero (`fraction_beq_zero_iff`), whether it is less than zero
(`HasRational.lt_zero_iff`), and which word it is cast to (`HasRational.toNat_toUSize`). -/

namespace CallScript.Number

open Float.Model Float.Model.UnpackedFloat

variable {x : Float} {p q : ℚ}

/-! ## Integers -/

theorem HasRational.unique (hp : HasRational x p) (hq : HasRational x q) : p = q := by
  obtain ⟨negative, m, e, value, rfl⟩ := hp
  obtain ⟨_, _, _, value', rfl⟩ := hq
  rw [value] at value'
  cases value'
  rfl

theorem hasValue_iff {m n : Nat} {e : Int} : HasValue m e n ↔ (n : ℚ) = m * 2 ^ e := by
  have scale : (2 : ℚ) ^ e = 2 ^ e.toNat / 2 ^ (-e).toNat := by
    rw [← zpow_natCast, ← zpow_natCast, ← zpow_sub₀ (by norm_num), Int.toNat_sub_toNat_neg]
  rw [scale, mul_div_assoc', eq_div_iff (by positivity), HasValue]
  exact_mod_cast Iff.rfl

theorem toInt?_of_hasValue {negative : Bool} {m n : Nat} {e : Int}
    (value : exact x = .finite negative m e) (number : HasValue m e n) :
    toInt? x = some (if negative then -(n : Int) else n) := by
  rw [toInt?, value, Exact.toInt?]
  rw [HasValue] at number
  by_cases nonneg : 0 ≤ e
  · have scale : (-e).toNat = 0 := by omega
    rw [scale, Nat.pow_zero, Nat.mul_one] at number
    rw [if_pos nonneg, ← number]
    rfl
  · have scale : e.toNat = 0 := by omega
    rw [scale, Nat.pow_zero, Nat.mul_one] at number
    rw [if_neg nonneg, ← number, Nat.mul_mod_left, if_pos rfl,
      Nat.mul_div_cancel n (Nat.two_pow_pos _)]
    rfl

/-- The integer that a double is equal to, if there is one. -/
theorem toInt?_eq_some_iff {n : Int} : toInt? x = some n ↔ HasRational x n := by
  constructor
  · intro whole
    obtain ⟨negative, m, e, k, value, number, rfl⟩ := exists_hasValue_of_toInt? whole
    refine ⟨negative, m, e, value, ?_⟩
    rw [← hasValue_iff.mp number]
    cases negative <;> simp
  · intro ⟨negative, m, e, value, number⟩
    have nonneg : (0 : ℚ) ≤ m * 2 ^ e := mul_nonneg (Nat.cast_nonneg m) (two_zpow_pos e).le
    cases negative with
    | false =>
      rw [if_neg (by decide)] at number
      obtain ⟨k, rfl⟩ := Int.eq_ofNat_of_zero_le (a := n) (by exact_mod_cast number ▸ nonneg)
      exact toInt?_of_hasValue value (hasValue_iff.mpr (by exact_mod_cast number))
    | true =>
      rw [if_pos rfl] at number
      have magnitude : ((-n : Int) : ℚ) = m * 2 ^ e := by
        rw [Int.cast_neg, number, neg_neg]
      obtain ⟨k, hk⟩ := Int.eq_ofNat_of_zero_le (a := -n) (by exact_mod_cast magnitude ▸ nonneg)
      rw [hk] at magnitude
      have same : n = -(k : Int) := by omega
      rw [same]
      exact toInt?_of_hasValue value (hasValue_iff.mpr (by exact_mod_cast magnitude))

theorem toNat?_eq_some_iff {n : Nat} : toNat? x = some n ↔ HasRational x n := by
  have whole := @toInt?_eq_some_iff x n
  rw [Int.cast_natCast] at whole
  rw [← whole, toNat?]
  split
  next k same =>
    rw [same]
    simp
  next other =>
    simp only [reduceCtorEq, false_iff]
    exact other n

/-- A number of up to 53 bits is not rounded. -/
theorem hasRational_ofNat {n : Nat} (small : n ≤ 2 ^ 53) : HasRational (ofNat n) n := by
  rcases Nat.eq_zero_or_pos n with rfl | positive
  · exact_mod_cast standsFor_ofNat_zero.hasRational
  · have finite : n < overflow := Nat.lt_of_le_of_lt small (by decide +kernel)
    have exactly : rounded n = n := by
      rcases Nat.lt_or_eq_of_le small with below | rfl
      · simpa using @rounded_eq n 0 positive below (by decide)
      · have power := @rounded_eq 1 53 (by decide) (by decide) (by decide)
        norm_num at power ⊢
        exact power
    have stands := (standsFor_ofNat positive finite).hasRational
    rwa [exactly] at stands

/-! ## Fractions -/

/-- The integer that is left of a rational number without its fraction. -/
def towardZero (q : ℚ) : Int :=
  if q < 0 then ⌈q⌉ else ⌊q⌋

theorem towardZero_intCast (n : Int) : towardZero n = n := by
  rw [towardZero, Int.ceil_intCast, Int.floor_intCast, ite_self]

theorem towardZero_neg (q : ℚ) : towardZero (-q) = -towardZero q := by
  rw [towardZero, towardZero, Int.ceil_neg, Int.floor_neg]
  rcases lt_trichotomy q 0 with negative | rfl | positive
  · rw [if_neg (by linarith), if_pos negative]
  · simp
  · rw [if_pos (by linarith), if_neg (by linarith)]

theorem towardZero_div (m n : Nat) : towardZero (m / n) = (m / n : Nat) := by
  have nonneg : (0 : ℚ) ≤ m / n := by positivity
  rw [towardZero, if_neg nonneg.not_gt, Rat.floor_natCast_div_natCast, Int.natCast_ediv]

theorem hasRational_truncate (h : HasRational x q) : HasRational (truncate x) (towardZero q) := by
  obtain ⟨negative, m, e, value, rfl⟩ := h
  simp only [truncate, value]
  by_cases whole : 0 ≤ e
  · obtain ⟨k, rfl⟩ := Int.eq_ofNat_of_zero_le whole
    obtain ⟨n, hn⟩ : ∃ n : Int,
        (if negative then -(m * 2 ^ (k : Int)) else m * 2 ^ (k : Int) : ℚ) = n := by
      refine ⟨if negative then -(m * 2 ^ k) else m * 2 ^ k, ?_⟩
      cases negative <;> simp
    rw [if_pos whole, hn, towardZero_intCast, ← hn]
    exact ⟨negative, m, k, value, rfl⟩
  · obtain ⟨k, rfl⟩ : ∃ k : Nat, e = -k := ⟨(-e).toNat, by omega⟩
    obtain ⟨below, -⟩ := Exact.ofBits_finite value
    have part : towardZero (m * 2 ^ (-k : Int)) = (m / 2 ^ k : Nat) := by
      rw [← towardZero_div, zpow_neg, zpow_natCast, ← div_eq_mul_inv]
      push_cast
      rfl
    have magnitude : HasRational (ofNat (m / 2 ^ k)) (towardZero (m * 2 ^ (-k : Int))) := by
      rw [part]
      exact_mod_cast hasRational_ofNat (Nat.le_trans (Nat.div_le_self m _) below.le)
    rw [if_neg whole, neg_neg, Int.toNat_natCast]
    cases negative with
    | false => exact magnitude
    | true =>
      simp only [if_true]
      rw [towardZero_neg, Int.cast_neg]
      exact magnitude.neg

/-- What is no finite double has no fraction that could be zero. -/
theorem sub_self_beq_zero_eq_false (other : ∀ q, ¬ HasRational x q) : (x - x == 0) = false := by
  rw [Bool.eq_false_iff, Ne, beq_zero_iff, isZero_iff_bits, sub_eq_pack, unpack_toModel]
  cases value : exact x with
  | nan => decide
  | infinite negative => cases negative <;> decide
  | finite negative m e => exact absurd ⟨negative, m, e, value, rfl⟩ (other _)

/-- The fraction of a double is zero if and only if the double is an integer. -/
theorem fraction_beq_zero_iff : (fraction x == 0) = true ↔ ∃ n : Int, HasRational x n := by
  by_cases finite : ∃ q, HasRational x q
  · obtain ⟨q, h⟩ := finite
    rw [fraction, h.sub_beq_zero_iff (hasRational_truncate h)]
    constructor
    · intro same
      rw [same] at h
      exact ⟨_, h⟩
    · intro ⟨n, whole⟩
      rw [h.unique whole, towardZero_intCast]
  · rw [not_exists] at finite
    have stays : truncate x = x := by
      cases value : exact x with
      | nan | infinite => rw [truncate, value]
      | finite negative m e => exact absurd ⟨negative, m, e, value, rfl⟩ (finite _)
    rw [fraction, stays, sub_self_beq_zero_eq_false finite]
    constructor
    · intro no
      cases no
    · intro ⟨n, whole⟩
      exact absurd whole (finite n)

/-! ## Signs -/

theorem HasRational.lt_zero_iff (h : HasRational x q) : x < 0 ↔ q < 0 := by
  have unpackZero : (0 : Float).toModel.unpack = .zero .positive :=
    unpack_toModel 0
  have compared : x < 0 ↔ x.toModel.unpack.lt (0 : Float).toModel.unpack = true :=
    decide_eq_true_iff
  rw [compared, unpackZero]
  obtain ⟨s, unpack, rfl⟩ | ⟨s, m, e, hm, unpack, rfl, -⟩ := h.exists_unpack
  · rw [unpack]
    exact iff_of_false (by cases s <;> decide) (lt_irrefl 0)
  · have positive := mul_two_zpow_pos hm e
    rw [unpack]
    cases s with
    | negative => exact iff_of_true rfl (by simpa [Sign.apply] using positive)
    | positive => exact iff_of_false Bool.false_ne_true (by simpa [Sign.apply] using positive.le)

/-! ## Casts -/

theorem toNat_ofNatClamp (n : Nat) : (USize.ofNatClamp n).toNat = min n (USize.size - 1) := by
  have positive := USize.size_pos
  rw [USize.ofNatClamp]
  split
  next fits => rw [USize.toNat_ofNatLT, Nat.min_eq_left (by omega)]
  next large => rw [USize.toNat_ofNatLT, Nat.min_eq_right (by omega)]

theorem roundToInt_positive (m : Nat) (e : Int) :
    (roundToInt .positive m e).toNat = ⌊(m * 2 ^ e : ℚ)⌋₊ := by
  -- the mantissa is shifted up, and then down to units
  obtain ⟨up, hup⟩ : ∃ up, up = (e - 0).toNat := ⟨_, rfl⟩
  obtain ⟨down, hdown⟩ : ∃ down, down = (0 - (e - up)).toNat := ⟨_, rfl⟩
  have value : ((m <<< up : Nat) / 2 ^ down : ℚ) = m * 2 ^ e := by
    have exponent : (up : Int) - down = e := by omega
    rw [Nat.shiftLeft_eq, ← exponent, zpow_sub₀ (by norm_num), zpow_natCast, zpow_natCast]
    push_cast
    ring
  have represents := (represents_exact (m <<< up)).shiftRight down
  rw [value] at represents
  rw [represents.floor_eq, hdown, hup]
  rfl

/-- A cast to a machine word truncates, and what lies above the largest word becomes that. -/
theorem HasRational.toNat_toUSize (h : HasRational x q) (nonneg : 0 ≤ q) :
    x.toUSize.toNat = min ⌊q⌋₊ (USize.size - 1) := by
  have cast : x.toUSize =
      USize.ofNatClamp (x.toModel.unpack.toInt 0 (USize.size - 1)).toNat := rfl
  rw [cast, toNat_ofNatClamp]
  congr 1
  obtain ⟨s, unpack, rfl⟩ | ⟨s, m, e, hm, unpack, rfl, -⟩ := h.exists_unpack
  · rw [unpack, Nat.floor_zero]
    rfl
  · have positive := mul_two_zpow_pos hm e
    cases s with
    | positive =>
      rw [unpack]
      exact roundToInt_positive m e
    | negative =>
      rw [Sign.apply, Int.cast_neg, neg_mul] at nonneg
      exact absurd nonneg (by simpa using positive)

end CallScript.Number
