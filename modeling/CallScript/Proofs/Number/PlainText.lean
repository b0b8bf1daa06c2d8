import CallScript.Proofs.Number.Decimal
import CallScript.Text.Run

/-! # The plain texts of doubles

In program text and messages a finite double is written with all digits of its shortest decimal. The
digits and the place of the point tell the number that the decimal names (`pointedValue_positionalChars`),
and this number tells the double, so different doubles have different texts (`plainChars_injective`). -/

namespace CallScript.Number

variable {whole fraction : List Char} {x y : Float}

/-! ## Digits with a point -/

/-- The number that digits name which have at most one point among them. -/
def pointedValue (text : List Char) : ℚ :=
  let fraction := (text.dropWhile Char.isDigit).drop 1
  natOfDigits (text.takeWhile Char.isDigit ++ fraction) / 10 ^ fraction.length

theorem pointedValue_digits (digits : ∀ c ∈ whole, c.isDigit = true) :
    pointedValue whole = natOfDigits whole := by
  have taken := @Text.takeWhile_run _ _ whole [] digits (by simp)
  have left := @Text.dropWhile_run _ _ whole [] digits (by simp)
  rw [List.append_nil] at taken left
  simp [pointedValue, taken, left]

theorem pointedValue_point (digits : ∀ c ∈ whole, c.isDigit = true) :
    pointedValue (whole ++ '.' :: fraction) =
      natOfDigits (whole ++ fraction) / 10 ^ fraction.length := by
  have point : ∀ c ∈ ('.' :: fraction).head?, c.isDigit = false := by
    rintro c ⟨⟩
    rfl
  rw [pointedValue]
  simp only [Text.takeWhile_run digits point, Text.dropWhile_run digits point, List.drop_succ_cons,
    List.drop_zero]

/-- The digits of a decimal with its point name the same number. -/
theorem pointedValue_positionalChars (d : Decimal) :
    pointedValue (Layout.plain.positionalChars d) = d.value := by
  have digits := @isDigit_of_mem_toDigits d.digits
  have number := natOfDigits_toDigits d.digits
  have mark : Layout.plain.wholeMark = [] := rfl
  simp only [Layout.positionalChars, mark, List.append_nil]
  split
  next nonneg =>
    obtain ⟨k, hk⟩ := Int.eq_ofNat_of_zero_le nonneg
    rw [pointedValue_digits (List.forall_mem_append.mpr ⟨digits, isDigit_of_mem_zeros⟩),
      natOfDigits_positional, Decimal.value, hk, Int.toNat_natCast, zpow_natCast]
    push_cast
    rfl
  next negative =>
    obtain ⟨k, hk⟩ : ∃ k : Nat, d.exponent = -k := ⟨(-d.exponent).toNat, by omega⟩
    have value : d.value = d.digits / 10 ^ k := by
      rw [Decimal.value, hk, zpow_neg, zpow_natCast, div_eq_mul_inv]
    rw [hk, neg_neg, Int.toNat_natCast, value]
    split
    next inside =>
      have length : ((Nat.toDigits 10 d.digits).drop ((Nat.toDigits 10 d.digits).length - k)).length =
          k := by
        rw [List.length_drop]
        omega
      rw [pointedValue_point fun c member => digits c (List.mem_of_mem_take member),
        List.take_append_drop, number, length]
    next before =>
      have length : (List.replicate (k - (Nat.toDigits 10 d.digits).length) '0' ++
          Nat.toDigits 10 d.digits).length = k := by
        rw [List.length_append, List.length_replicate]
        omega
      have zeros := natOfDigits_zeros (k - (Nat.toDigits 10 d.digits).length + 1)
        (Nat.toDigits 10 d.digits)
      have point := @pointedValue_point ['0']
        (List.replicate (k - (Nat.toDigits 10 d.digits).length) '0' ++ Nat.toDigits 10 d.digits)
        (List.forall_mem_singleton.mpr rfl)
      rw [List.replicate_succ, List.cons_append] at zeros
      rw [length, List.singleton_append, List.singleton_append, zeros, number] at point
      exact point

theorem minus_not_mem_positionalChars (d : Decimal) : '-' ∉ Layout.plain.positionalChars d := by
  have digits : '-' ∉ Nat.toDigits 10 d.digits := by
    intro member
    cases isDigit_of_mem_toDigits _ member
  have mark : Layout.plain.wholeMark = [] := rfl
  simp only [Layout.positionalChars, mark, List.append_nil]
  split
  next => simp [digits]
  next =>
    split
    next =>
      have front (k : Nat) : '-' ∉ (Nat.toDigits 10 d.digits).take k :=
        fun member => digits (List.mem_of_mem_take member)
      have back (k : Nat) : '-' ∉ (Nat.toDigits 10 d.digits).drop k :=
        fun member => digits (List.mem_of_mem_drop member)
      simp [front, back]
    next => simp [digits]

/-! ## Finite doubles -/

theorem plain_finiteChars (m : Nat) (e : Int) : Layout.plain.finiteChars m e =
    if m = 0 then ['0'] else Layout.plain.positionalChars (shortest Layout.plain.tie m e) :=
  rfl

theorem minus_not_mem_finiteChars (m : Nat) (e : Int) : '-' ∉ Layout.plain.finiteChars m e := by
  rw [plain_finiteChars]
  split
  next => decide
  next => exact minus_not_mem_positionalChars _

theorem pointedValue_finiteChars (m : Nat) (e : Int) : pointedValue (Layout.plain.finiteChars m e) =
    if m = 0 then 0 else (shortest Layout.plain.tie m e).value := by
  rw [plain_finiteChars]
  split
  next => simp [pointedValue, natOfDigits, natOfDigitsFrom]
  next => exact pointedValue_positionalChars _

/-- The text of a double without its sign tells all of the bits but the sign: the double is the nearest one
to the number that the text names. -/
theorem bitsOf_eq_of_finiteChars_eq {s t : Bool} {m n : Nat} {e f : Int}
    (hx : exact x = .finite s m e) (hy : exact y = .finite t n f)
    (same : Layout.plain.finiteChars m e = Layout.plain.finiteChars n f) : bitsOf m e = bitsOf n f := by
  obtain ⟨belowX, lowX, highX, normalX⟩ := Exact.ofBits_finite hx
  obtain ⟨belowY, lowY, highY, normalY⟩ := Exact.ofBits_finite hy
  have positive {m : Nat} (e : Int) (hm : m ≠ 0) : 0 < (shortest Layout.plain.tie m e).value :=
    Decimal.value_pos (digits_shortest_pos (Nat.pos_of_ne_zero hm))
  have values := congrArg pointedValue same
  rw [pointedValue_finiteChars, pointedValue_finiteChars] at values
  split at values <;> split at values
  next zeroX zeroY =>
    obtain rfl : e = -1074 := normalX.resolve_left (by omega)
    obtain rfl : f = -1074 := normalY.resolve_left (by omega)
    rw [zeroX, zeroY]
  next zeroX nonzeroY => exact absurd values (positive f nonzeroY).ne
  next nonzeroX zeroY => exact absurd values (positive e nonzeroX).ne'
  next nonzeroX nonzeroY =>
    rw [← nearest_value_shortest (Nat.pos_of_ne_zero nonzeroX) belowX lowX highX normalX, values,
      nearest_value_shortest (Nat.pos_of_ne_zero nonzeroY) belowY lowY highY normalY]

theorem sign_eq_of_plainChars_eq {s t : Bool} {m n : Nat} {e f : Int}
    (hx : exact x = .finite s m e) (hy : exact y = .finite t n f)
    (same : Layout.plain.chars x = Layout.plain.chars y) :
    s = t ∧ Layout.plain.finiteChars m e = Layout.plain.finiteChars n f := by
  simp only [Layout.chars, hx, hy] at same
  cases s <;> cases t <;> simp only [Bool.false_eq_true, if_true, if_false] at same
  case false.false => exact ⟨rfl, same⟩
  case false.true =>
    refine absurd ?_ (minus_not_mem_finiteChars m e)
    rw [same]
    exact List.mem_cons_self
  case true.false =>
    refine absurd ?_ (minus_not_mem_finiteChars n f)
    rw [← same]
    exact List.mem_cons_self
  case true.true => exact ⟨rfl, List.tail_eq_of_cons_eq same⟩

/-- Different finite doubles have different plain texts. -/
theorem plainChars_injective (finiteX : x.isFinite = true) (finiteY : y.isFinite = true)
    (same : Layout.plain.chars x = Layout.plain.chars y) : x = y := by
  obtain ⟨s, m, e, hx⟩ := isFinite_iff.mp finiteX
  obtain ⟨t, n, f, hy⟩ := isFinite_iff.mp finiteY
  obtain ⟨rfl, texts⟩ := sign_eq_of_plainChars_eq hx hy same
  obtain ⟨belowX, lowX, highX, normalX⟩ := Exact.ofBits_finite hx
  obtain ⟨belowY, lowY, highY, normalY⟩ := Exact.ofBits_finite hy
  have exactly := Exact.ofBits_bitsOf belowX lowX highX normalX
  rw [bitsOf_eq_of_finiteChars_eq hx hy texts, Exact.ofBits_bitsOf belowY lowY highY normalY] at exactly
  cases exactly
  exact exact_injective (hx.trans hy.symm) (by rw [hx]; exact Exact.noConfusion)

end CallScript.Number
