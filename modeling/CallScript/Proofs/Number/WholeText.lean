import CallScript.Number.Layout
import CallScript.Proofs.Number.Rounding

/-! # Whole numbers in program text

A double that stands for a natural number is written in program text as digits, and these are read
as the same double (`digitsOf_plainChars`). Which of the decimals that read back the search for the
shortest one finds does not matter: all that it can find end at the units or before them. -/

namespace CallScript.Number

/-! ## Zeros at the end of a decimal -/

namespace Decimal

theorem digitCount_mul_ten {n : Nat} (hn : 0 < n) : digitCount (n * 10) = digitCount n + 1 := by
  have ends := Nat.toDigits_append_toDigits (b := 10) (n := n) (d := 0) (by decide) hn (by decide)
  have same : digitCount (10 * n + 0) = (Nat.toDigits 10 n ++ Nat.toDigits 10 0).length := by
    rw [ends, digitCount]
  rw [Nat.mul_comm, ← Nat.add_zero (10 * n), same, List.length_append]
  rfl

/-- A zero at the end of the digits and one place more of the exponent are the same. -/
theorem toBits_shift (n k : Nat) : toBits ⟨n * 10, k⟩ = toBits ⟨n, k + 1⟩ := by
  rcases Nat.eq_zero_or_pos n with rfl | hn
  · rw [toBits, toBits, if_pos rfl, if_pos rfl]
  · have place : leadingPlace ⟨n * 10, k⟩ = leadingPlace ⟨n, k + 1⟩ := by
      simp only [leadingPlace, digitCount_mul_ten hn]
      omega
    have value : n * 10 * 10 ^ (k : Int).toNat = n * 10 ^ ((k : Int) + 1).toNat := by
      have next : ((k : Int) + 1).toNat = k + 1 := by omega
      rw [next, Int.toNat_natCast, Nat.pow_succ, Nat.mul_assoc, Nat.mul_comm 10]
    have positive : ¬ n * 10 = 0 := by omega
    have exponent : (0 : Int) ≤ k := Int.natCast_nonneg k
    have nextExponent : (0 : Int) ≤ k + 1 := by omega
    simp only [toBits, place, value, if_neg positive, if_neg hn.ne', if_pos exponent,
      if_pos nextExponent]

theorem toBits_mul_pow (n k : Nat) : toBits ⟨n * 10 ^ k, 0⟩ = toBits ⟨n, k⟩ := by
  induction k generalizing n with
  | zero => rw [Nat.pow_zero, Nat.mul_one]; rfl
  | succ k ih =>
    have step := toBits_shift n k
    rw [Nat.pow_succ, Nat.mul_comm (10 ^ k), ← Nat.mul_assoc, ih, step]
    rfl

/-- A decimal that names a whole number and reads back as the given bits. -/
def ReadsWhole (bits : Nat) (d : Decimal) : Prop :=
  0 ≤ d.exponent ∧ d.toBits = bits

theorem readsWhole_trim {bits : Nat} (d : Decimal) (reads : ReadsWhole bits d) :
    ReadsWhole bits d.trim := by
  fun_induction trim d with
  | case1 d zero ih =>
    apply ih
    obtain ⟨whole, value⟩ := reads
    obtain ⟨k, hk⟩ := Int.eq_ofNat_of_zero_le whole
    refine ⟨by simp only [hk]; omega, ?_⟩
    have digits : d.digits / 10 * 10 = d.digits := by omega
    have shift := toBits_shift (d.digits / 10) k
    rw [digits] at shift
    rw [hk, ← shift, ← value, ← hk]
  | case2 => exact reads

theorem digits_trim_pos (d : Decimal) (positive : 0 < d.digits) : 0 < d.trim.digits := by
  fun_induction trim d with
  | case1 d zero ih =>
    apply ih
    dsimp only
    omega
  | case2 => exact positive

end Decimal

open Decimal (ReadsWhole)

/-! ## The search for the shortest decimal -/

theorem nearestAt_eq_some {tie : Tie} {readsBack : Decimal → Bool} {num den : Nat} {place : Int}
    {d : Decimal} (found : nearestAt tie readsBack num den place = some d) :
    d.exponent = place ∧ readsBack d = true := by
  revert found
  simp only [nearestAt]
  generalize (if 0 ≤ place then num else num * 10 ^ (-place).toNat) = scaledNum
  generalize (if 0 ≤ place then den * 10 ^ place.toNat else den) = scaledDen
  split
  next bothLow bothHigh =>
    split
    next => intro found; cases found; exact ⟨rfl, bothLow⟩
    next => intro found; cases found; exact ⟨rfl, bothHigh⟩
    next =>
      intro found
      cases found
      split
      next => exact ⟨rfl, bothLow⟩
      next => exact ⟨rfl, bothHigh⟩
  next low _ => intro found; cases found; exact ⟨rfl, low⟩
  next _ high => intro found; cases found; exact ⟨rfl, high⟩
  next => intro found; cases found

/-- At the units a whole number is found if it reads back. -/
theorem nearestAt_units {tie : Tie} {readsBack : Decimal → Bool} {n den : Nat} (hden : 0 < den)
    (reads : readsBack ⟨n, 0⟩ = true) :
    (nearestAt tie readsBack (n * den) den 0).isSome = true := by
  have low : n * den / (den * 10 ^ (0 : Int).toNat) = n := by
    rw [Int.toNat_zero, Nat.pow_zero, Nat.mul_one, Nat.mul_div_cancel n hden]
  simp only [nearestAt, Int.le_refl, if_true, low, reads]
  cases readsBack ⟨n + 1, 0⟩ with
  | false => rfl
  | true =>
    dsimp only
    split <;> rfl

/-- What a search down a range finds is found no later than at any place known to hold something. -/
theorem findSome?_range_le {α : Type} {f : Nat → Option α} {n k : Nat} {a : α}
    (found : (List.range n).findSome? f = some a) (hit : (f k).isSome = true) :
    ∃ i, i ≤ k ∧ f i = some a := by
  obtain ⟨earlier, i, later, split, value, misses⟩ := List.findSome?_eq_some_iff.mp found
  refine ⟨i, Nat.le_of_not_lt ?_, value⟩
  intro before
  have sorted := List.pairwise_lt_range (n := n)
  have bound : i < n := by
    apply List.mem_range.mp
    rw [split]
    simp
  have inside : k ∈ earlier ++ i :: later := by
    rw [← split]
    exact List.mem_range.mpr (Nat.lt_trans before bound)
  rw [split, List.pairwise_append] at sorted
  obtain ⟨-, rest, -⟩ := sorted
  rcases List.mem_append.mp inside with early | late
  · rw [misses k early] at hit
    cases hit
  · rcases List.mem_cons.mp late with same | after
    · omega
    · have := List.rel_of_pairwise_cons rest after
      omega

theorem decimalPlace_whole {n den : Nat} (hn : 0 < n) (hden : 0 < den) :
    decimalPlace (n * den) den = digitCount n - 1 := by
  rw [decimalPlace, if_pos (Nat.le_mul_of_pos_left den hn), Nat.mul_div_cancel n hden]

theorem digitCount_pos (n : Nat) : 0 < digitCount n :=
  Nat.length_toDigits_pos

/-- The fraction that is searched for is the number, in whatever terms it is given. -/
theorem fraction_of_hasValue {m n : Nat} {e : Int} (value : HasValue m e n) :
    ∃ den, 0 < den ∧ (if 0 ≤ e then 1 else 2 ^ (-e).toNat) = den ∧
      (if 0 ≤ e then m * 2 ^ e.toNat else m) = n * den := by
  refine ⟨_, ?_, rfl, ?_⟩
  · split
    next => exact Nat.one_pos
    next => exact Nat.two_pow_pos _
  · rw [HasValue] at value
    split
    next whole =>
      have scale : (-e).toNat = 0 := by omega
      rw [← value, scale, Nat.pow_zero]
    next fraction =>
      have scale : e.toNat = 0 := by omega
      rw [value, scale, Nat.pow_zero, Nat.mul_one]

/-- A number with more digits than are searched has no fraction bits. -/
theorem exactDecimal_of_hasValue {m n : Nat} {e : Int} (value : HasValue m e n)
    (full : 2 ^ 52 ≤ m) (below : m < 2 ^ 53) (far : 17 < digitCount n) :
    exactDecimal m e = ⟨n, 0⟩ := by
  have hn := value.pos (by omega)
  have large : 2 ^ 52 ≤ n := by
    apply Nat.le_of_not_lt
    intro small
    have few := (@digitCount_le_iff n 17 (by decide)).mpr (Nat.lt_trans small (by decide))
    omega
  have whole : 0 ≤ e := by
    have bits := (Nat.le_log2 (by omega)).mpr large
    have log := value.log2_eq full below
    omega
  have scale : (-e).toNat = 0 := by omega
  rw [HasValue, scale, Nat.pow_zero, Nat.mul_one] at value
  rw [exactDecimal, if_pos whole, value]

theorem readsWhole_shortest {tie : Tie} {m n : Nat} {e : Int} (value : HasValue m e n)
    (full : 2 ^ 52 ≤ m) (below : m < 2 ^ 53) (high : e ≤ 971) :
    ReadsWhole (bitsOf m e) (shortest tie m e) := by
  have hn := value.pos (by omega)
  have reads := Decimal.toBits_of_hasValue value below high (.inl full)
  obtain ⟨den, hden, isDen, isNum⟩ := fraction_of_hasValue value
  have count := digitCount_pos n
  rw [shortest]
  simp only [isDen, isNum, decimalPlace_whole hn hden]
  apply Decimal.readsWhole_trim
  -- the search comes to the units after the other digits of `n`, if it does not stop before
  have units : (digitCount n : Int) - 1 - ((digitCount n - 1 : Nat) : Int) = 0 := by omega
  have hit : (nearestAt tie (fun d => d.toBits == bitsOf m e) (n * den) den
      ((digitCount n : Int) - 1 - ((digitCount n - 1 : Nat) : Int))).isSome = true := by
    rw [units]
    exact nearestAt_units hden (beq_iff_eq.mpr reads)
  cases found : (List.range 17).findSome? fun i : Nat =>
      nearestAt tie (fun d => d.toBits == bitsOf m e) (n * den) den
        ((digitCount n : Int) - 1 - i) with
  | some d =>
    obtain ⟨i, early, value⟩ := findSome?_range_le found hit
    obtain ⟨place, back⟩ := nearestAt_eq_some value
    refine ⟨?_, beq_iff_eq.mp back⟩
    rw [Option.getD_some, place]
    omega
  | none =>
    have far : 17 < digitCount n := by
      apply Nat.lt_of_not_le
      intro near
      have reached := List.mem_range.mpr (by omega : digitCount n - 1 < 17)
      have miss := List.findSome?_eq_none_iff.mp found _ reached
      rw [miss] at hit
      cases hit
    rw [Option.getD_none, exactDecimal_of_hasValue value full below far]
    exact ⟨Int.le_refl 0, reads⟩

/-- The shortest decimal of a double other than zero is not zero. -/
theorem digits_shortest_pos {tie : Tie} {m : Nat} {e : Int} (positive : 0 < m) :
    0 < (shortest tie m e).digits := by
  have readsBack {d : Decimal} (back : (d.toBits == bitsOf m e) = true) : 0 < d.digits := by
    apply Nat.pos_of_ne_zero
    intro zero
    rw [beq_iff_eq, Decimal.toBits, if_pos zero, bitsOf] at back
    omega
  rw [shortest]
  apply Decimal.digits_trim_pos
  cases found : List.findSome? _ (List.range 17) with
  | some d =>
    obtain ⟨i, -, hit⟩ := List.exists_of_findSome?_eq_some found
    exact readsBack (nearestAt_eq_some hit).2
  | none =>
    rw [Option.getD_none, exactDecimal]
    split
    next => exact Nat.mul_pos positive (Nat.two_pow_pos _)
    next => exact Nat.mul_pos positive (Nat.pow_pos (by decide))

/-! ## The digits -/

theorem natOfDigits_positional (n k : Nat) :
    natOfDigits (Nat.toDigits 10 n ++ List.replicate k '0') = n * 10 ^ k := by
  have value : natOfDigits (Nat.toDigits 10 n ++ List.replicate k '0') =
      Nat.ofDigitChars 10 (Nat.toDigits 10 n ++ List.replicate k '0') 0 := rfl
  rw [value, Nat.ofDigitChars_append, Nat.ofDigitChars_ten_toDigits,
    Nat.ofDigitChars_replicate_zero, Nat.mul_comm]

theorem isDigit_of_mem_toDigits {n : Nat} : ∀ c ∈ Nat.toDigits 10 n, c.isDigit = true :=
  fun _ member => Nat.isDigit_of_mem_toDigits (by decide) (by decide) member

theorem isDigit_of_mem_zeros {n : Nat} : ∀ c ∈ List.replicate n '0', c.isDigit = true := by
  intro c member
  rw [List.eq_of_mem_replicate member]
  rfl

theorem natOfDigits_toDigits (n : Nat) : natOfDigits (Nat.toDigits 10 n) = n := by
  simpa using natOfDigits_positional n 0

theorem natOfDigits_zeros (n : Nat) (digits : List Char) :
    natOfDigits (List.replicate n '0' ++ digits) = natOfDigits digits := by
  have value : natOfDigits (List.replicate n '0' ++ digits) =
      Nat.ofDigitChars 10 (List.replicate n '0' ++ digits) 0 := rfl
  rw [value, Nat.ofDigitChars_append, Nat.ofDigitChars_replicate_zero, Nat.mul_zero]
  rfl

/-- A nonempty run of digits that is read as `x`. -/
structure DigitsOf (x : Float) (run : List Char) : Prop where
  nonempty : run ≠ []
  digits : ∀ c ∈ run, c.isDigit = true
  value : ofDigits run = x

/-- A decimal that names a whole number is written as digits that read back. -/
theorem digitsOf_positionalChars {bits : Nat} {d : Decimal} (reads : ReadsWhole bits d) :
    DigitsOf (.ofBits (.ofNat bits)) (Layout.plain.positionalChars d) := by
  obtain ⟨whole, value⟩ := reads
  obtain ⟨k, hk⟩ := Int.eq_ofNat_of_zero_le whole
  have chars : Layout.plain.positionalChars d =
      Nat.toDigits 10 d.digits ++ List.replicate k '0' := by
    have noMark : Layout.plain.wholeMark = [] := rfl
    simp only [Layout.positionalChars, noMark, List.append_nil]
    rw [if_pos whole, hk]
    rfl
  rw [chars]
  constructor
  case nonempty => simp
  case digits =>
    exact List.forall_mem_append.mpr ⟨isDigit_of_mem_toDigits, isDigit_of_mem_zeros⟩
  case value =>
    rw [ofDigits, natOfDigits_positional, ofNat, Decimal.toFloat, Decimal.toBits_mul_pow, ← value,
      ← hk]

/-- A double that stands for a natural number is written as digits that are read as this double. -/
theorem digitsOf_plainChars {x : Float} (whole : IsWhole x) :
    DigitsOf x (Layout.plain.chars x) := by
  obtain ⟨m, e, n, value, number⟩ := whole
  obtain ⟨below, low, high, normal⟩ := Exact.ofBits_finite value
  have chars : Layout.plain.chars x = Layout.plain.finiteChars m e := by
    simp only [Layout.chars, value]
    rfl
  rw [chars, Layout.finiteChars]
  rcases Nat.eq_zero_or_pos m with rfl | positive
  · have zero : HasValue 0 e 0 := by rw [HasValue, Nat.zero_mul, Nat.zero_mul]
    rw [if_pos rfl]
    exact ⟨List.cons_ne_nil _ _, List.forall_mem_singleton.mpr rfl, ofNat_of_hasValue value zero⟩
  · have reads := @readsWhole_shortest Layout.plain.tie _ _ _ number (number.full positive normal)
      below high
    have bits : Float.ofBits (.ofNat (bitsOf m e)) = x := by
      have same : exact (.ofBits (.ofNat (bitsOf m e))) = exact x := by
        rw [exact_ofBits_bitsOf below low high normal, value]
      exact exact_injective same (by rw [same, value]; exact Exact.noConfusion)
    rw [if_neg (by omega), ← bits]
    exact digitsOf_positionalChars reads

theorem plainChars_minusZero {x : Float} {e : Int} (value : exact x = .finite true 0 e) :
    Layout.plain.chars x = ['-', '0'] := by
  simp only [Layout.chars, value]
  rfl

theorem plainChars_infinity {x : Float} (value : exact x = .infinite false) :
    Layout.plain.chars x = ['i', 'n', 'f'] := by
  simp only [Layout.chars, value]
  rfl

end CallScript.Number
