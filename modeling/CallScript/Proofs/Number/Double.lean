import CallScript.Number.Decimal
import CallScript.Number.Exact
import Mathlib

/-! # Doubles by their exact values

The exact value of a double tells its bits, NaN apart (`Exact.ofBits_injective`), so equality of
doubles is a statement about exact values (`beq_iff`), and bits that stand for no NaN survive being
made a double (`toBits_ofBits`). The runtime's own view of a double, a sign and a mantissa that is not
zero, is tied to the exact value once, in `unpack_eq`. -/

namespace CallScript.Number

open Float.Model Float.Model.UnpackedFloat

/-! ## The fields of the bits -/

theorem toNat_packComponents (s : Sign) (exponent : BitVec 11) (mantissa : BitVec 52) :
    (packComponents Format.binary64 s exponent mantissa).toNat =
      s.toBitVec.toNat * 2 ^ 63 + exponent.toNat * 2 ^ 52 + mantissa.toNat := by
  have hm := mantissa.isLt
  have he := exponent.isLt
  simp only [packComponents, BitVec.toNat_append]
  rw [← Nat.shiftLeft_add_eq_or_of_lt he, ← Nat.shiftLeft_add_eq_or_of_lt hm]
  simp only [Nat.shiftLeft_eq]
  ring

theorem toNat_unpackMantissa (b : BitVec 64) :
    (@unpackMantissa Format.binary64 b).toNat = b.toNat % 2 ^ 52 := by
  simp [unpackMantissa]

theorem toNat_unpackExponent (b : BitVec 64) :
    (@unpackExponent Format.binary64 b).toNat = b.toNat / 2 ^ 52 % 2 ^ 11 := by
  simp [unpackExponent, Nat.shiftRight_eq_div_pow]

theorem toNat_unpackSign (b : BitVec 64) :
    (@unpackSign Format.binary64 b).toNat = b.toNat / 2 ^ 63 % 2 := by
  simp [unpackSign, Nat.shiftRight_eq_div_pow]

/-- The runtime's sign. -/
def signOf (negative : Bool) : Sign :=
  if negative then .negative else .positive

theorem ofBitVec_unpackSign (b : BitVec 64) :
    Sign.ofBitVec (@unpackSign Format.binary64 b) = signOf (decide (b.toNat / 2 ^ 63 % 2 = 1)) := by
  have h := toNat_unpackSign b
  have hlt : b.toNat / 2 ^ 63 % 2 < 2 := Nat.mod_lt _ (by decide)
  have zero : @unpackSign Format.binary64 b = 0#1 ↔ b.toNat / 2 ^ 63 % 2 = 0 := by
    rw [← BitVec.toNat_inj, h]
    rfl
  simp only [Sign.ofBitVec, signOf, zero, decide_eq_true_eq]
  split
  next positive => rw [if_neg (by omega)]
  next negative => rw [if_pos (by omega)]

theorem toNat_toBitVec_signOf (negative : Bool) :
    (signOf negative).toBitVec.toNat = if negative then 1 else 0 := by
  cases negative <;> rfl

/-- What the runtime makes of an exact value. -/
def Exact.unpacked : Exact → UnpackedFloat
  | .nan => .notANumber
  | .infinite negative => .infinity (signOf negative)
  | .finite negative mantissa exponent =>
    if h : mantissa = 0 then .zero (signOf negative)
    else .finite (signOf negative) mantissa exponent (Nat.pos_of_ne_zero h)

theorem unpack_eq (b : BitVec 64) :
    UnpackedFloat.unpack Format.binary64 b = (Exact.ofBits b.toNat).unpacked := by
  have hm := toNat_unpackMantissa b
  have he := toNat_unpackExponent b
  have implicit : (1#1 ++ @unpackMantissa Format.binary64 b).toNat =
      2 ^ 52 + b.toNat % 2 ^ 52 := by
    rw [BitVec.toNat_append, ← Nat.shiftLeft_add_eq_or_of_lt (BitVec.isLt _), hm]
    rfl
  have mantissaZero : @unpackMantissa Format.binary64 b = 0#_ ↔ b.toNat % 2 ^ 52 = 0 := by
    rw [← BitVec.toNat_inj, hm]
    rfl
  have exponentMax : @unpackExponent Format.binary64 b = -1#_ ↔
      b.toNat / 2 ^ 52 % 2 ^ 11 = 2 ^ 11 - 1 := by
    rw [← BitVec.toNat_inj, he]
    rfl
  have exponentZero : @unpackExponent Format.binary64 b = 0#_ ↔ b.toNat / 2 ^ 52 % 2 ^ 11 = 0 := by
    rw [← BitVec.toNat_inj, he]
    rfl
  have bias : ((Format.binary64.exponentBias : Nat) : Int) = 1023 := rfl
  simp only [UnpackedFloat.unpack, ofBitVec_unpackSign, mantissaZero, exponentMax, exponentZero,
    Exact.ofBits]
  split
  next => split <;> rfl
  next =>
    split
    next subnormal =>
      rw [Exact.unpacked]
      split
      next => rfl
      next =>
        simp only [hm, he, subnormal, bias]
        rfl
    next normal =>
      have nonzero : 2 ^ 52 + b.toNat % 2 ^ 52 ≠ 0 := by omega
      rw [Exact.unpacked, dif_neg nonzero]
      simp only [implicit, he, bias]
      congr 1

/-- A double as the runtime sees it. -/
theorem unpack_toModel (x : Float) : x.toModel.unpack = (exact x).unpacked :=
  unpack_eq x.toBits.toBitVec

theorem isFinite_iff {x : Float} :
    x.isFinite = true ↔ ∃ negative mantissa exponent, exact x = .finite negative mantissa exponent := by
  have unpacked : x.isFinite = (exact x).unpacked.isFinite := by
    rw [exact, UInt64.toNat, ← unpack_eq]
    rfl
  rw [unpacked]
  cases exact x with
  | nan | infinite => simp [Exact.unpacked, UnpackedFloat.isFinite]
  | finite negative m e =>
    by_cases zero : m = 0 <;> simp [Exact.unpacked, UnpackedFloat.isFinite, zero]

theorem isNaN_iff {x : Float} : x.isNaN = true ↔ exact x = .nan := by
  have unpacked : x.isNaN = (exact x).unpacked.isNaN := by
    rw [exact, UInt64.toNat, ← unpack_eq]
    rfl
  rw [unpacked]
  cases exact x with
  | nan | infinite => simp [Exact.unpacked, UnpackedFloat.isNaN]
  | finite negative m e =>
    by_cases zero : m = 0 <;> simp [Exact.unpacked, UnpackedFloat.isNaN, zero]

/-! ## Exact values tell the bits -/

/-- The bits of an exact value; those of NaN are not told. -/
def Exact.bits : Exact → Nat
  | .nan => 0
  | .infinite negative => (if negative then 2 ^ 63 else 0) + infinityBits
  | .finite negative mantissa exponent =>
    (if negative then 2 ^ 63 else 0) + bitsOf mantissa exponent

theorem Exact.bits_ofBits {n : Nat} (hn : n < 2 ^ 64) (number : Exact.ofBits n ≠ .nan) :
    (Exact.ofBits n).bits = n := by
  have sign : (if decide (n / 2 ^ 63 % 2 = 1) then 2 ^ 63 else 0) = n / 2 ^ 63 * 2 ^ 63 := by
    by_cases negative : n / 2 ^ 63 % 2 = 1
    · simp only [negative, decide_true, if_true]
      omega
    · simp only [negative, decide_false, Bool.false_eq_true, if_false]
      omega
  revert number
  simp only [Exact.ofBits]
  split
  next infinite =>
    split
    next zero =>
      intro _
      simp only [Exact.bits, infinityBits, sign]
      omega
    next => intro number; exact absurd rfl number
  next =>
    split
    next subnormal =>
      intro _
      have lowest : ((-1074 : Int) + 1074).toNat = 0 := rfl
      simp only [Exact.bits, bitsOf, sign, lowest]
      omega
    next normal =>
      intro _
      simp only [Exact.bits, bitsOf, sign]
      omega

/-- The mantissa has 53 bits, or fewer if the exponent is the smallest. -/
theorem Exact.ofBits_finite {n m : Nat} {negative : Bool} {e : Int}
    (h : Exact.ofBits n = .finite negative m e) :
    m < 2 ^ 53 ∧ -1074 ≤ e ∧ e ≤ 971 ∧ (2 ^ 52 ≤ m ∨ e = -1074) := by
  revert h
  simp only [Exact.ofBits]
  split
  next => split <;> intro h <;> cases h
  next =>
    split
    next subnormal =>
      intro h
      cases h
      omega
    next normal =>
      intro h
      cases h
      omega

theorem toBits_injective {x y : Float} (h : x.toBits = y.toBits) : x = y := by
  obtain ⟨⟨a, validA⟩⟩ := x
  obtain ⟨⟨b, validB⟩⟩ := y
  obtain rfl : a = b := h
  rfl

theorem toNat_toBits_lt (x : Float) : x.toBits.toNat < 2 ^ 64 :=
  UInt64.toNat_lt x.toBits

/-- The bits of a double that is no NaN, from its exact value. -/
theorem toNat_toBits {x : Float} (number : exact x ≠ .nan) : x.toBits.toNat = (exact x).bits :=
  (Exact.bits_ofBits (toNat_toBits_lt x) number).symm

theorem exact_injective {x y : Float} (same : exact x = exact y) (number : exact x ≠ .nan) :
    x = y := by
  apply toBits_injective
  apply UInt64.toNat_inj.mp
  rw [toNat_toBits number, toNat_toBits (same ▸ number), same]

/-! ## Equality of doubles -/

theorem beq_eq_compare (x y : Float) :
    (x == y) = (UnpackedFloat.compare (exact x).unpacked (exact y).unpacked == some .eq) := by
  change (x.toModel.unpack.compare y.toModel.unpack == some .eq) = _
  simp only [Float.Model.unpack, unpack_eq]
  rfl

/-- Plus or minus zero. -/
def IsZero (x : Float) : Prop :=
  ∃ negative exponent, exact x = .finite negative 0 exponent

theorem compare_unpacked_eq_iff {a b : Exact} :
    UnpackedFloat.compare a.unpacked b.unpacked = some .eq ↔
      a ≠ .nan ∧ a = b ∨
        (∃ negative exponent, a = .finite negative 0 exponent) ∧
          (∃ negative exponent, b = .finite negative 0 exponent) := by
  cases a with
  | nan => simp [Exact.unpacked, UnpackedFloat.compare]
  | infinite s =>
    cases b with
    | nan => simp [Exact.unpacked, UnpackedFloat.compare]
    | infinite t =>
      cases s <;> cases t <;> simp [Exact.unpacked, UnpackedFloat.compare, signOf, compare]
    | finite t n f =>
      by_cases hn : n = 0 <;> cases s <;> simp [Exact.unpacked, UnpackedFloat.compare, signOf, hn]
  | finite s m e =>
    cases b with
    | nan =>
      by_cases hm : m = 0 <;> simp [Exact.unpacked, UnpackedFloat.compare, hm]
    | infinite t =>
      by_cases hm : m = 0 <;> cases t <;> simp [Exact.unpacked, UnpackedFloat.compare, signOf, hm]
    | finite t n f =>
      by_cases hm : m = 0 <;> by_cases hn : n = 0 <;> cases s <;> cases t <;>
        simp [Exact.unpacked, UnpackedFloat.compare, signOf, hm, hn, Ordering.then_eq_eq,
          Ordering.swap_eq_eq, and_comm, @eq_comm _ 0 n]

/-- Two doubles are equal if they are the same number, or both zero. -/
theorem beq_iff {x y : Float} :
    (x == y) = true ↔ exact x ≠ .nan ∧ x = y ∨ IsZero x ∧ IsZero y := by
  rw [beq_eq_compare, beq_iff_eq, compare_unpacked_eq_iff]
  have same : exact x ≠ .nan ∧ exact x = exact y ↔ exact x ≠ .nan ∧ x = y := by
    constructor
    · intro h
      exact ⟨h.1, exact_injective h.2 h.1⟩
    · intro h
      exact ⟨h.1, by rw [h.2]⟩
  rw [same]
  rfl

theorem beq_self_of_number {x : Float} (number : exact x ≠ .nan) : (x == x) = true :=
  beq_iff.mpr (.inl ⟨number, rfl⟩)

theorem IsZero.number {x : Float} (zero : IsZero x) : exact x ≠ .nan := by
  obtain ⟨negative, exponent, value⟩ := zero
  intro nan
  rw [value] at nan
  cases nan

/-- A double is equal to itself unless it is NaN. -/
theorem beq_self_iff {x : Float} : (x == x) = true ↔ ¬ x.isNaN = true := by
  rw [isNaN_iff]
  refine ⟨fun equal => ?_, beq_self_of_number⟩
  obtain ⟨number, -⟩ | ⟨zero, -⟩ := beq_iff.mp equal
  · exact number
  · exact zero.number

theorem beq_symm {x y : Float} (equal : (x == y) = true) : (y == x) = true := by
  rw [beq_iff] at equal ⊢
  obtain ⟨number, rfl⟩ | ⟨zero, zero'⟩ := equal
  · exact .inl ⟨number, rfl⟩
  · exact .inr ⟨zero', zero⟩

theorem beq_trans {x y z : Float} (first : (x == y) = true) (second : (y == z) = true) :
    (x == z) = true := by
  rw [beq_iff] at first
  obtain ⟨-, rfl⟩ | ⟨zero, zero'⟩ := first
  · exact second
  · rw [beq_iff] at second ⊢
    obtain ⟨-, rfl⟩ | ⟨-, zero''⟩ := second
    · exact .inr ⟨zero, zero'⟩
    · exact .inr ⟨zero, zero''⟩

/-! ## Bits made a double -/

theorem toNat_pack_finite {m : Nat} {e : Int} (s : Sign) (positive : 0 < m) (below : m < 2 ^ 53)
    (low : -1074 ≤ e) (high : e ≤ 971) (normal : 2 ^ 52 ≤ m ∨ e = -1074) :
    (UnpackedFloat.pack Format.binary64 (.finite s m e positive)).toNat =
      s.toBitVec.toNat * 2 ^ 63 + bitsOf m e := by
  have biased : (e + (Format.binary64.exponentBias : Nat) +
      (Format.binary64.mantissaBitsWithoutImplicit : Nat)).toNat = (e + 1074).toNat + 1 := by
    change (e + 1023 + 52).toNat = _
    omega
  have noOverflow : ¬ 2 ^ Format.binary64.exponentBits ≤ (e + 1074).toNat + 1 + 1 := by
    change ¬ 2 ^ 11 ≤ _
    omega
  have mantissaBits : Format.binary64.mantissaBits = 53 := rfl
  rw [UnpackedFloat.pack]
  simp only [biased]
  rw [if_neg noOverflow, mantissaBits]
  by_cases full : 2 ^ 52 ≤ m
  · -- the leading bit of the mantissa is dropped, and the exponent field counts one up for it
    have log : m.log2 = 52 := (Nat.log2_eq_iff (by omega)).mpr ⟨full, below⟩
    rw [if_pos (by omega)]
    refine Eq.trans (toNat_packComponents s _ _) ?_
    rw [BitVec.toNat_ofNat, BitVec.toNat_ofNat, bitsOf]
    omega
  · have log : m.log2 < 52 := (Nat.log2_lt (by omega)).mpr (by omega)
    rw [if_neg (by omega)]
    refine Eq.trans (toNat_packComponents s _ _) ?_
    rw [BitVec.toNat_ofNat, BitVec.toNat_ofNat, bitsOf]
    omega

theorem toNat_pack_unpacked {n : Nat} (hn : n < 2 ^ 64) (number : Exact.ofBits n ≠ .nan) :
    (UnpackedFloat.pack Format.binary64 (Exact.ofBits n).unpacked).toNat = n := by
  have bits := Exact.bits_ofBits hn number
  cases value : Exact.ofBits n with
  | nan => exact absurd value number
  | infinite negative =>
    rw [value] at bits
    have packed := toNat_packComponents (signOf negative) (-1#11) 0
    rw [toNat_toBitVec_signOf] at packed
    rw [← bits]
    refine Eq.trans packed ?_
    cases negative <;> rfl
  | finite negative m e =>
    rw [value] at bits
    obtain ⟨below, low, high, normal⟩ := Exact.ofBits_finite value
    rw [Exact.unpacked]
    split
    next zero =>
      have packed := toNat_packComponents (signOf negative) 0 0
      rw [toNat_toBitVec_signOf] at packed
      have lowest : e = -1074 := by omega
      rw [← bits, zero, lowest]
      refine Eq.trans packed ?_
      cases negative <;> rfl
    next nonzero =>
      rw [toNat_pack_finite _ _ below low high normal, toNat_toBitVec_signOf, ← bits, Exact.bits]
      cases negative <;> rfl

theorem toBits_ofBits {b : UInt64} (number : Exact.ofBits b.toNat ≠ .nan) :
    (Float.ofBits b).toBits = b := by
  apply UInt64.toNat_inj.mp
  change (UnpackedFloat.pack Format.binary64 (UnpackedFloat.unpack Format.binary64 b.toBitVec)).toNat
    = b.toNat
  rw [unpack_eq]
  exact toNat_pack_unpacked b.toNat_lt number

theorem exact_ofBits {n : Nat} (hn : n < 2 ^ 64) (number : Exact.ofBits n ≠ .nan) :
    exact (.ofBits (.ofNat n)) = Exact.ofBits n := by
  have value : (UInt64.ofNat n).toNat = n := by
    rw [UInt64.toNat_ofNat']
    exact Nat.mod_eq_of_lt hn
  rw [exact, toBits_ofBits (by rwa [value]), value]

end CallScript.Number
