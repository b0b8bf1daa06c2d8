import CallScript.Proofs.Json.Scale

/-! # Numbers that are read again

Every finite double is read from its own text as some double (`rereadDouble_isSome`), which need not
be the same one. It is the same if the digits of its shortest decimal fit into a mantissa and the power
of ten is exact, since then nothing but the quotient is rounded (`rereadDouble_of_isShort`). -/

namespace CallScript.Json

open Number

variable {x : Float} {digits : List Char} {n : Nat} {p : Parts} {d : Decimal}

/-! ## The digits that are kept -/

theorem mul_pow_le_natOfDigitsFrom (n : Nat) (digits : List Char) :
    n * 10 ^ digits.length ≤ natOfDigitsFrom n digits := by
  induction digits generalizing n with
  | nil => simp [natOfDigitsFrom]
  | cons c cs ih =>
    have first : n * 10 ≤ natOfDigitsFrom n [c] := by
      simp only [natOfDigitsFrom, List.foldl_cons, List.foldl_nil]
      omega
    calc n * 10 ^ (c :: cs).length = n * 10 * 10 ^ cs.length := by
          rw [List.length_cons, Nat.pow_succ]
          ring
      _ ≤ natOfDigitsFrom n [c] * 10 ^ cs.length := Nat.mul_le_mul_right _ first
      _ ≤ natOfDigitsFrom n (c :: cs) := ih _

/-- The digits that are left over count as zeros. -/
theorem takeFitting_le (n : Nat) (digits : List Char) :
    (takeFitting n digits).1 * 10 ^ (takeFitting n digits).2.length ≤ natOfDigitsFrom n digits := by
  fun_induction takeFitting n digits with
  | case1 => simp [natOfDigitsFrom]
  | case2 n c cs next below ih => exact ih
  | case3 n c cs => exact mul_pow_le_natOfDigitsFrom n (c :: cs)

theorem natOfDigitsFrom_lt (digit : ∀ c ∈ digits, c.isDigit = true) :
    natOfDigitsFrom n digits < (n + 1) * 10 ^ digits.length := by
  induction digits generalizing n with
  | nil => simp [natOfDigitsFrom]
  | cons c cs ih =>
    obtain ⟨first, others⟩ := List.forall_mem_cons.mp digit
    have value : natOfDigitsFrom n [c] + 1 ≤ (n + 1) * 10 := by
      have range : c.toNat ≤ '9'.toNat := by
        simp only [Char.isDigit, Bool.and_eq_true, decide_eq_true_eq] at first
        exact first.2
      have nine : '9'.toNat = 57 := rfl
      have zero : '0'.toNat = 48 := rfl
      simp only [natOfDigitsFrom, List.foldl_cons, List.foldl_nil]
      omega
    calc natOfDigitsFrom n (c :: cs) < (natOfDigitsFrom n [c] + 1) * 10 ^ cs.length := ih others
      _ ≤ (n + 1) * 10 * 10 ^ cs.length := Nat.mul_le_mul_right _ value
      _ = (n + 1) * 10 ^ (c :: cs).length := by
          rw [List.length_cons, Nat.pow_succ]
          ring

/-! ## Reading -/

/-- The digits behind the point that the reader has kept, after all of those before it, and those that
it has left over. -/
def Parts.kept (p : Parts) : Nat × List Char :=
  takeFitting (natOfDigits p.whole) (p.fraction?.getD [])

theorem Parts.decimal_digits (p : Parts) :
    p.decimal.digits = natOfDigitsFrom (natOfDigits p.whole) (p.fraction?.getD []) :=
  List.foldl_append

theorem Parts.Spells.takeFitting_whole (spells : p.Spells d) :
    takeFitting 0 p.whole = (natOfDigits p.whole, []) := by
  apply takeFitting_of_lt
  calc natOfDigitsFrom 0 p.whole
      < (0 + 1) * 10 ^ p.whole.length := natOfDigitsFrom_lt spells.valid.digits
    _ ≤ (0 + 1) * 10 ^ 16 := Nat.mul_le_mul_left _ (Nat.pow_le_pow_right (by decide) spells.short)
    _ < 2 ^ 64 := by decide

theorem Parts.Spells.ofParts_eq (spells : p.Spells d) (negative : Bool) :
    ofParts negative p.whole p.fraction? p.exponent? =
      (scale (ofNat p.kept.1) (p.decimal.exponent + p.kept.2.length)).map fun x =>
        .double (if negative then -x else x) := by
  have double : (p.fraction?.isNone && p.exponent?.isNone) = false := spells.isDouble
  have shift : p.exponent?.getD 0 + ((([] : List Char).length : Int) -
      ((p.fraction?.getD []).length - p.kept.2.length)) = p.decimal.exponent + p.kept.2.length := by
    simp only [Parts.decimal, List.length_nil]
    omega
  rw [← shift]
  simp only [ofParts, spells.takeFitting_whole, double, Bool.false_and, Bool.false_eq_true, if_false]
  rfl

/-- The parts name the number that the decimal names. -/
theorem Parts.Spells.value_eq (spells : p.Spells d) : p.decimal.value = d.value := by
  rcases spells.decimal with same | ⟨whole, scaled⟩
  · rw [same]
  · obtain ⟨k, hk⟩ := Int.eq_ofNat_of_zero_le whole
    rw [scaled, Decimal.value, Decimal.value, hk, Int.toNat_natCast, zpow_natCast, zpow_neg_one, pow_succ]
    push_cast
    field_simp

/-- What is kept and scaled does not exceed the number that is spelled. -/
theorem Parts.Spells.kept_le (spells : p.Spells d) :
    (p.kept.1 * 10 ^ (p.decimal.exponent + p.kept.2.length) : ℚ) ≤ d.value := by
  have kept : p.kept.1 * 10 ^ p.kept.2.length ≤ p.decimal.digits := by
    rw [p.decimal_digits]
    exact takeFitting_le _ _
  have cast : (p.kept.1 * 10 ^ p.kept.2.length : ℚ) ≤ p.decimal.digits := by exact_mod_cast kept
  calc (p.kept.1 * 10 ^ (p.decimal.exponent + p.kept.2.length) : ℚ)
      = p.kept.1 * 10 ^ p.kept.2.length * 10 ^ p.decimal.exponent := by
        rw [zpow_add₀ (by norm_num), zpow_natCast]
        ring
    _ ≤ p.decimal.digits * 10 ^ p.decimal.exponent :=
        mul_le_mul_of_nonneg_right cast (Decimal.ten_zpow_pos _).le
    _ = d.value := spells.value_eq

/-- All digits of a short decimal are kept. -/
theorem Parts.kept_of_lt (fits : p.decimal.digits < 2 ^ 64) : p.kept = (p.decimal.digits, []) := by
  rw [p.decimal_digits] at fits ⊢
  exact takeFitting_of_lt fits

/-- A double is read from its own text by scaling the digits that are kept. -/
theorem exists_rereadDouble_eq {negative : Bool} {m : Nat} {e : Int}
    (value : exact x = .finite negative m e) :
    ∃ p : Parts, p.Spells (writtenDecimal m e) ∧
      rereadDouble x = (scale (ofNat p.kept.1) (p.decimal.exponent + p.kept.2.length)).map fun y =>
        if negative then -y else y := by
  obtain ⟨negative', m', e', p, value', spells, chars⟩ :=
    exists_parts_double (isFinite_iff.mpr ⟨_, _, _, value⟩)
  rw [value] at value'
  cases value'
  have read := @takeNumber_signed [] p negative spells.valid (by simp [EndsNumber])
  rw [List.append_nil, spells.ofParts_eq negative] at read
  refine ⟨p, spells, ?_⟩
  rw [rereadDouble, chars, read]
  cases scale (ofNat p.kept.1) (p.decimal.exponent + p.kept.2.length) <;> rfl

/-! ## Every finite double is read -/

theorem eq_ofBits (number : exact x ≠ .nan) : x = .ofBits (.ofNat (exact x).bits) := by
  rw [← toNat_toBits number, UInt64.ofNat_toNat]
  exact toBits_injective (toBits_ofBits number).symm

/-- The two largest doubles are too close to the threshold for an estimate, but they are read. -/
theorem rereadDouble_of_largest {negative : Bool} {m : Nat} (top : 2 ^ 53 - 3 < m) (below : m < 2 ^ 53)
    (value : exact x = .finite negative m 971) : (rereadDouble x).isSome = true := by
  have same := eq_ofBits (x := x) (by rw [value]; exact Exact.noConfusion)
  rw [same, value]
  obtain rfl | rfl : m = 2 ^ 53 - 1 ∨ m = 2 ^ 53 - 2 := by omega
  all_goals cases negative <;> decide +kernel

theorem value_writtenDecimal_le {m : Nat} {e : Int} (below : m < 2 ^ 53)
    (low : -1074 ≤ e) (high : e ≤ 971) (normal : 2 ^ 52 ≤ m ∨ e = -1074) :
    (writtenDecimal m e).value ≤ (m + 1 / 2) * 2 ^ e := by
  rw [writtenDecimal]
  split
  next zero =>
    have unit := two_zpow_pos e
    simp only [Decimal.value, zero, Nat.cast_zero, zero_mul, zero_add]
    positivity
  next nonzero =>
    have positive := Nat.pos_of_ne_zero nonzero
    exact le_of_nearest_eq (Decimal.value_pos (digits_shortest_pos positive))
      (nearest_value_shortest positive below low high normal) below low high normal

theorem le_safeLimit {m : Nat} {e : Int} (below : m < 2 ^ 53) (high : e ≤ 971)
    (notLargest : ¬ (2 ^ 53 - 3 < m ∧ e = 971)) : ((m + 1 / 2) * 2 ^ e : ℚ) ≤ safeLimit := by
  rw [safeLimit]
  by_cases top : e = 971
  · have mantissa : ((m + 3 : Nat) : ℚ) ≤ (2 ^ 53 : Nat) := by exact_mod_cast (by omega)
    push_cast at mantissa
    rw [top]
    exact mul_le_mul_of_nonneg_right (by linarith) (two_zpow_pos 971).le
  · have mantissa : ((m + 1 : Nat) : ℚ) ≤ (2 ^ 53 : Nat) := by exact_mod_cast below
    push_cast at mantissa
    have double : (2 : ℚ) ^ (971 : Int) = 2 ^ (970 : Int) * 2 := by
      rw [← zpow_add_one₀ (by norm_num)]
      rfl
    calc ((m + 1 / 2) * 2 ^ e : ℚ) ≤ 2 ^ 53 * 2 ^ (970 : Int) :=
          mul_le_mul (by linarith) (zpow_le_zpow_right₀ (by norm_num) (by omega)) (two_zpow_pos e).le
            (by norm_num)
      _ = 2 ^ 52 * 2 ^ (971 : Int) := by
          rw [double]
          ring
      _ ≤ (2 ^ 53 - 5 / 2) * 2 ^ (971 : Int) :=
          mul_le_mul_of_nonneg_right (by norm_num) (two_zpow_pos 971).le

/-- Every finite double is read from its own text as some double. -/
theorem rereadDouble_isSome (finite : x.isFinite = true) : (rereadDouble x).isSome = true := by
  obtain ⟨negative, m, e, value⟩ := isFinite_iff.mp finite
  obtain ⟨below, low, high, normal⟩ := Exact.ofBits_finite value
  by_cases largest : 2 ^ 53 - 3 < m ∧ e = 971
  · obtain ⟨top, rfl⟩ := largest
    exact rereadDouble_of_largest top below value
  obtain ⟨p, spells, read⟩ := exists_rereadDouble_eq value
  have limit := le_safeLimit below high largest
  have small := (spells.kept_le.trans (value_writtenDecimal_le below low high normal)).trans limit
  rw [read, Option.isSome_map]
  exact scale_isSome small

/-! ## Doubles that are read back -/

/-- The digits of the decimal fit into a mantissa, and it ends at one of the first places behind the
point. -/
def IsShort (d : Decimal) : Prop :=
  d.digits < 2 ^ 53 ∧ -22 ≤ d.exponent ∧ d.exponent < 0

/-- The operands of the one division are exact. -/
theorem toNat_toBits_div_powerOfTen {n k : Nat} (positive : 0 < n) (fits : n < 2 ^ 53) (hk : k ≤ 22) :
    (ofNat n / powerOfTen k).toBits.toNat = nearest (n / 10 ^ k) := by
  have digits : rounded n = n := by simpa using rounded_eq (e := 0) positive fits (by decide)
  have power : rounded (10 ^ k) = 10 ^ k := by
    have five : 5 ^ k < 2 ^ 53 :=
      Nat.lt_of_le_of_lt (Nat.pow_le_pow_right (by decide) hk) (by decide)
    have ten : ((5 ^ k : Nat) * 2 ^ (k : Int) : ℚ) = 10 ^ k := by
      rw [zpow_natCast, Nat.cast_pow, Nat.cast_ofNat, ← mul_pow]
      norm_num
    have exactly := rounded_eq (e := k) (Nat.pow_pos (by decide)) five (by omega)
    rwa [ten] at exactly
  have dividend := standsFor_ofNat positive (Nat.lt_trans fits (by decide +kernel))
  have divisor := standsFor_powerOfTen (Nat.le_trans hk (by decide))
  rw [digits] at dividend
  rw [power] at divisor
  exact dividend.toNat_toBits_div divisor (by exact_mod_cast positive)
    (zero_lt_one.trans_le (one_le_ten_pow k))

theorem exact_div_powerOfTen {m : Nat} {e : Int} (below : m < 2 ^ 53) (low : -1074 ≤ e) (high : e ≤ 971)
    (normal : 2 ^ 52 ≤ m ∨ e = -1074) (short : IsShort (writtenDecimal m e)) :
    exact (ofNat (writtenDecimal m e).digits / powerOfTen (writtenDecimal m e).exponent.natAbs) =
      .finite false m e := by
  obtain ⟨fits, near, fraction⟩ := short
  have positive : 0 < m := by
    apply Nat.pos_of_ne_zero
    intro zero
    rw [writtenDecimal, if_pos zero] at fraction
    cases fraction
  have written : writtenDecimal m e = shortest Layout.interchange.tie m e := if_neg positive.ne'
  have nearest := @nearest_value_shortest Layout.interchange.tie m e positive below low high normal
  have digits := @digits_shortest_pos Layout.interchange.tie m e positive
  rw [written] at fits near fraction ⊢
  obtain ⟨k, hk⟩ : ∃ k : Nat, (shortest Layout.interchange.tie m e).exponent = -k :=
    ⟨(-(shortest Layout.interchange.tie m e).exponent).toNat, by omega⟩
  have count : (shortest Layout.interchange.tie m e).exponent.natAbs = k := by omega
  have bits := toNat_toBits_div_powerOfTen digits fits (by omega : k ≤ 22)
  rw [Decimal.value, hk, zpow_neg, zpow_natCast, ← div_eq_mul_inv] at nearest
  rw [count, exact, bits, nearest, Exact.ofBits_bitsOf below low high normal]

/-- A double whose decimal is short is read back from its own text. -/
theorem rereadDouble_of_isShort {negative : Bool} {m : Nat} {e : Int}
    (value : exact x = .finite negative m e) (short : IsShort (writtenDecimal m e)) :
    rereadDouble x = some x := by
  obtain ⟨below, low, high, normal⟩ := Exact.ofBits_finite value
  have quotient := exact_div_powerOfTen below low high normal short
  obtain ⟨p, spells, read⟩ := exists_rereadDouble_eq value
  obtain ⟨fits, near, fraction⟩ := short
  have same : p.decimal = writtenDecimal m e :=
    spells.decimal.resolve_right fun whole => absurd whole.1 (Int.not_le.mpr fraction)
  have kept : p.kept = ((writtenDecimal m e).digits, []) := by
    rw [← same]
    apply Parts.kept_of_lt
    rw [same]
    exact Nat.lt_trans fits (by decide)
  rw [read, kept, same]
  generalize writtenDecimal m e = d at *
  have scaled : scale (ofNat d.digits) (d.exponent + ([] : List Char).length) =
      some (ofNat d.digits / powerOfTen d.exponent.natAbs) := by
    have small : d.exponent.natAbs ≤ maxPower := by
      rw [maxPower]
      omega
    rw [List.length_nil, Int.natCast_zero, Int.add_zero, scale, if_pos small,
      if_neg (Int.not_le.mpr fraction)]
  have result : exact (if negative then -(ofNat d.digits / powerOfTen d.exponent.natAbs)
      else ofNat d.digits / powerOfTen d.exponent.natAbs) = exact x := by
    rw [value]
    cases negative with
    | false => exact quotient
    | true => exact exact_neg quotient
  rw [scaled, Option.map_some, exact_injective result (by rw [result, value]; exact Exact.noConfusion)]

end CallScript.Json
