import CallScript.Number.Exact
import CallScript.Proofs.Number.Rounding

/-! # Integers as doubles

The integer that a double equals is rounded to a double that equals it (`ofInt_beq_of_toInt?`). -/

namespace CallScript.Number

open Float.Model

/-- A minus sign sets the sign bit. -/
theorem toNat_toBits_neg {x : Float} {m : Nat} {e : Int} (value : exact x = .finite false m e)
    (positive : 0 < m) : (-x).toBits.toNat = 2 ^ 63 + bitsOf m e := by
  obtain ⟨below, low, high, normal⟩ := Exact.ofBits_finite value
  have unpacked : x.toModel.unpack = .finite .positive m e positive := by
    rw [unpack_toModel, value, Exact.unpacked, dif_neg positive.ne']
    rfl
  have negated : (-x).toBits.toNat =
      (UnpackedFloat.pack Format.binary64 x.toModel.unpack.neg).toNat := rfl
  rw [negated, unpacked, UnpackedFloat.neg, toNat_pack_finite _ positive below low high normal]
  rfl

/-- The double of minus a natural number. -/
theorem neg_ofNat_of_hasValue {x : Float} {m n : Nat} {e : Int} (value : exact x = .finite true m e)
    (positive : 0 < m) (number : HasValue m e n) : -ofNat n = x := by
  obtain ⟨below, low, high, normal⟩ := Exact.ofBits_finite value
  have magnitude := exact_ofBits_bitsOf below low high normal
  rw [ofNat_of_hasValue magnitude number]
  apply toBits_injective
  apply UInt64.toNat_inj.mp
  rw [toNat_toBits_neg magnitude positive, toNat_toBits (by rw [value]; exact Exact.noConfusion), value]
  rfl

/-- A whole double is a sign and a natural number. -/
theorem exists_hasValue_of_toInt? {x : Float} {n : Int} (whole : toInt? x = some n) :
    ∃ negative m e k, exact x = .finite negative m e ∧ HasValue m e k ∧
      n = if negative then -(k : Int) else k := by
  rw [toInt?] at whole
  cases value : exact x with
  | nan | infinite => rw [value] at whole; cases whole
  | finite negative m e =>
    rw [value] at whole
    obtain ⟨k, magnitude, rfl⟩ := Option.map_eq_some_iff.mp whole
    refine ⟨negative, m, e, k, rfl, ?_, rfl⟩
    split at magnitude
    next nonneg =>
      cases magnitude
      exact .of_nonneg m nonneg
    next negative =>
      split at magnitude
      next divides =>
        cases magnitude
        have scale : e.toNat = 0 := by omega
        rw [HasValue, scale, Nat.pow_zero, Nat.mul_one]
        exact Nat.div_mul_cancel (Nat.dvd_of_mod_eq_zero divides)
      next => cases magnitude

theorem toInt?_of_isZero {x : Float} (zero : IsZero x) : toInt? x = some 0 := by
  obtain ⟨negative, e, value⟩ := zero
  rw [toInt?, value, Exact.toInt?]
  cases negative <;> simp

/-- The integer that a double equals is rounded to a double that equals it: the same, or plus zero for
minus zero. -/
theorem ofInt_beq_of_toInt? {x : Float} {n : Int} (whole : toInt? x = some n) :
    (ofInt n == x) = true := by
  obtain ⟨negative, m, e, k, value, number, rfl⟩ := exists_hasValue_of_toInt? whole
  have isNumber : exact x ≠ .nan := by rw [value]; exact Exact.noConfusion
  cases negative with
  | false =>
    have same : ofInt k = x := by
      rw [ofInt, if_neg (by omega), Int.natAbs_natCast]
      exact ofNat_of_hasValue value number
    rw [if_neg (by decide), same]
    exact beq_self_of_number isNumber
  | true =>
    rw [if_pos rfl]
    rcases Nat.eq_zero_or_pos m with rfl | positive
    · have zero : k = 0 := by
        rw [HasValue, Nat.zero_mul] at number
        exact (Nat.mul_eq_zero.mp number).resolve_right (Nat.two_pow_pos _).ne'
      subst zero
      have plusZero : exact (ofInt (-((0 : Nat) : Int))) = .finite false 0 (-1074) :=
        exact_ofBits (by decide) (by decide)
      exact beq_iff.mpr (.inr ⟨⟨false, _, plusZero⟩, ⟨true, e, value⟩⟩)
    · have hk := number.pos positive
      have same : ofInt (-(k : Int)) = x := by
        rw [ofInt, if_pos (by omega), Int.natAbs_neg, Int.natAbs_natCast]
        exact neg_ofNat_of_hasValue value positive number
      rw [same]
      exact beq_self_of_number isNumber

end CallScript.Number
