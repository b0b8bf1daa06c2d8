import CallScript.Json.Token
import CallScript.Proofs.Number.WholeText

/-! # Numbers in JSON text

The text of a number consists of its parts: the digits before and behind the point and an exponent.
The reader takes such a text apart into the same parts, whatever follows that cannot belong to a
number (`takeUnsigned_parts`). An integer of 64 bits is read as itself. A double is read as the one
that the reader computes from its parts, and for this it may round more than once
(`takeNumber_double`). -/

namespace CallScript.Json

open Number

/-! ## The parts of a number -/

/-- The digits before the point, those behind it, and the exponent. -/
structure Parts where
  whole : List Char
  fraction? : Option (List Char)
  exponent? : Option Int

/-- The parts keep to the grammar: there are digits where digits have to be, and no zero leads. -/
structure Parts.Valid (p : Parts) : Prop where
  nonempty : p.whole ≠ []
  digits : ∀ c ∈ p.whole, c.isDigit = true
  noLeadingZero : p.whole.head? = some '0' → p.whole.length = 1
  fraction : ∀ ds ∈ p.fraction?, ds ≠ [] ∧ ∀ c ∈ ds, c.isDigit = true

def fractionChars : Option (List Char) → List Char
  | none => []
  | some digits => '.' :: digits

def signChar (n : Int) : Char :=
  if n < 0 then '-' else '+'

def exponentChars : Option Int → List Char
  | none => []
  | some n => 'e' :: signChar n :: Nat.toDigits 10 n.natAbs

def Parts.chars (p : Parts) : List Char :=
  p.whole ++ fractionChars p.fraction? ++ exponentChars p.exponent?

/-- The characters that can stand behind the first digit of a number. -/
def isNumberChar (c : Char) : Bool :=
  c.isDigit || ['.', 'e', 'E', '+', '-'].contains c

variable {text rest : List Char} {p : Parts}

theorem ne_of_not_isNumberChar {c d : Char} (h : isNumberChar c = false)
    (number : isNumberChar d = true) : c ≠ d := by
  rintro rfl
  rw [h] at number
  cases number

/-- Digits that do not start with a zero. -/
theorem valid_of_ne_zero {c : Char} {cs : List Char} {fraction? : Option (List Char)}
    {exponent? : Option Int} (noZero : c ≠ '0') (digits : ∀ d ∈ c :: cs, d.isDigit = true)
    (fraction : ∀ ds ∈ fraction?, ds ≠ [] ∧ ∀ d ∈ ds, d.isDigit = true) :
    Parts.Valid ⟨c :: cs, fraction?, exponent?⟩ where
  nonempty := List.cons_ne_nil c cs
  digits := digits
  noLeadingZero := fun zero => absurd (Option.some.inj zero) noZero
  fraction := fraction

/-- A single digit. -/
theorem valid_single {c : Char} {fraction? : Option (List Char)} {exponent? : Option Int}
    (digit : c.isDigit = true)
    (fraction : ∀ ds ∈ fraction?, ds ≠ [] ∧ ∀ d ∈ ds, d.isDigit = true) :
    Parts.Valid ⟨[c], fraction?, exponent?⟩ where
  nonempty := List.cons_ne_nil c []
  digits := by simpa using digit
  noLeadingZero := fun _ => rfl
  fraction := fraction

/-! ## Taking a number apart -/

/-- Nothing that belongs to a number follows. -/
def EndsNumber (rest : List Char) : Prop :=
  ∀ c ∈ rest.head?, isNumberChar c = false

theorem EndsNumber.noDigit (ends : EndsNumber rest) : ∀ c ∈ rest.head?, c.isDigit = false := by
  intro c hc
  have other := ends c hc
  rw [isNumberChar, Bool.or_eq_false_iff] at other
  exact other.1

/-- The sign of an exponent and whether it is negative; the sign may be missing. -/
inductive SignText : List Char → Bool → Prop where
  | missing : SignText [] false
  | plus : SignText ['+'] false
  | minus : SignText ['-'] true

/-- The text of an exponent and its value; the exponent may be missing. -/
inductive ExponentText : List Char → Option Int → Prop where
  | missing : ExponentText [] none
  | digits {mark : Char} {sign digits : List Char} {negative : Bool} (isMark : mark = 'e' ∨ mark = 'E')
      (isSign : SignText sign negative) (nonempty : digits ≠ [])
      (isDigits : ∀ c ∈ digits, c.isDigit = true) :
      ExponentText (mark :: (sign ++ digits))
        (some (if negative then -(natOfDigits digits : Int) else natOfDigits digits))

theorem exponentText_chars (exponent? : Option Int) :
    ExponentText (exponentChars exponent?) exponent? := by
  cases exponent? with
  | none => exact .missing
  | some n =>
    have digits := @isDigit_of_mem_toDigits n.natAbs
    have value := natOfDigits_toDigits n.natAbs
    have nonempty : Nat.toDigits 10 n.natAbs ≠ [] := by simp
    by_cases negative : n < 0
    · have text := ExponentText.digits (.inl rfl) .minus nonempty digits
      have same : (-(n.natAbs : Int)) = n := by omega
      rw [if_pos rfl, value, same] at text
      rw [exponentChars, signChar, if_pos negative]
      exact text
    · have text := ExponentText.digits (.inl rfl) .plus nonempty digits
      have same : (n.natAbs : Int) = n := by omega
      rw [if_neg Bool.false_ne_true, value, same] at text
      rw [exponentChars, signChar, if_neg negative]
      exact text

theorem SignText.takeSign_eq {sign : List Char} {negative : Bool} (h : SignText sign negative)
    (digit : ∃ c ∈ text.head?, c.isDigit = true) : takeSign (sign ++ text) = (negative, text) := by
  cases h with
  | plus | minus => rfl
  | missing =>
    obtain ⟨c, first, digit⟩ := digit
    rw [List.nil_append, takeSign]
    all_goals
      rintro tail rfl
      cases first
      cases digit

theorem takeExponent_text {part : List Char} {exponent? : Option Int}
    (h : ExponentText part exponent?) (ends : EndsNumber rest) :
    takeExponent (part ++ rest) = some (exponent?, rest) := by
  cases h with
  | missing =>
    rw [List.nil_append, takeExponent]
    · rintro tail rfl
      exact ne_of_not_isNumberChar (ends 'e' rfl) (by decide) rfl
    · rintro tail rfl
      exact ne_of_not_isNumberChar (ends 'E' rfl) (by decide) rfl
  | @digits mark sign digits negative isMark isSign nonempty isDigits =>
    have signed : takeSigned (sign ++ (digits ++ rest)) =
        some (if negative then -(natOfDigits digits : Int) else natOfDigits digits, rest) := by
      obtain ⟨c, cs, rfl⟩ := List.exists_cons_of_ne_nil nonempty
      have first : ∃ d ∈ (c :: cs ++ rest).head?, d.isDigit = true :=
        ⟨c, rfl, isDigits c List.mem_cons_self⟩
      rw [takeSigned, isSign.takeSign_eq first]
      simp only [Text.takeWhile_run isDigits ends.noDigit, Text.dropWhile_run isDigits ends.noDigit]
      rfl
    rw [List.cons_append, List.append_assoc]
    rcases isMark with rfl | rfl
    all_goals
      rw [takeExponent, signed]
      rfl

theorem head_exponentText {part : List Char} {exponent? : Option Int}
    (h : ExponentText part exponent?) (ends : EndsNumber rest) :
    ∀ c ∈ (part ++ rest).head?, c.isDigit = false ∧ c ≠ '.' := by
  intro c hc
  cases h with
  | missing => exact ⟨ends.noDigit c hc, ne_of_not_isNumberChar (ends c hc) (by decide)⟩
  | digits isMark =>
    cases hc
    rcases isMark with rfl | rfl <;> decide

theorem takeFraction_chars {fraction? : Option (List Char)}
    (digits : ∀ ds ∈ fraction?, ds ≠ [] ∧ ∀ c ∈ ds, c.isDigit = true)
    (ends : ∀ c ∈ rest.head?, c.isDigit = false ∧ c ≠ '.') :
    takeFraction (fractionChars fraction? ++ rest) = some (fraction?, rest) := by
  cases fraction? with
  | none =>
    rw [fractionChars, List.nil_append, takeFraction]
    rintro tail rfl
    exact (ends '.' rfl).2 rfl
  | some ds =>
    obtain ⟨nonempty, digits⟩ := digits ds rfl
    have stops := fun c hc => (ends c hc).1
    rw [fractionChars, List.cons_append, takeFraction]
    simp only [Text.takeWhile_run digits stops, Text.dropWhile_run digits stops]
    rw [if_neg (by simpa using nonempty)]

theorem head_fractionChars (fraction? : Option (List Char))
    (ends : ∀ c ∈ rest.head?, c.isDigit = false) :
    ∀ c ∈ (fractionChars fraction? ++ rest).head?, c.isDigit = false := by
  intro c hc
  cases fraction? with
  | none => exact ends c hc
  | some ds =>
    cases hc
    decide

/-- The reader takes a number apart into its parts, however the exponent is written. -/
theorem takeUnsigned_text {part : List Char} (negative : Bool) (valid : p.Valid)
    (exponent : ExponentText part p.exponent?) (ends : EndsNumber rest) :
    takeUnsigned negative (p.whole ++ (fractionChars p.fraction? ++ (part ++ rest))) =
      (ofParts negative p.whole p.fraction? p.exponent?).map fun value => (value, rest) := by
  have behind := head_exponentText exponent ends
  have stops := head_fractionChars p.fraction? fun c hc => (behind c hc).1
  rw [takeUnsigned]
  simp only [Text.takeWhile_run valid.digits stops, Text.dropWhile_run valid.digits stops,
    takeFraction_chars valid.fraction behind, takeExponent_text exponent ends]
  rw [if_neg]
  simp only [Bool.or_eq_true, Bool.and_eq_true, beq_iff_eq, bne_iff_ne, not_or, not_and, not_not]
  exact ⟨by simpa using valid.nonempty, valid.noLeadingZero⟩

theorem takeUnsigned_parts (negative : Bool) (valid : p.Valid) (ends : EndsNumber rest) :
    takeUnsigned negative (p.chars ++ rest) =
      (ofParts negative p.whole p.fraction? p.exponent?).map fun value => (value, rest) := by
  rw [← takeUnsigned_text negative valid (exponentText_chars p.exponent?) ends, Parts.chars,
    List.append_assoc, List.append_assoc]

/-! ## Signs -/

def signedChars (negative : Bool) (p : Parts) : List Char :=
  if negative then '-' :: p.chars else p.chars

theorem Parts.Valid.exists_cons (valid : p.Valid) :
    ∃ c cs, p.chars = c :: cs ∧ c.isDigit = true := by
  cases digits : p.whole with
  | nil => exact absurd digits valid.nonempty
  | cons c cs =>
    refine ⟨c, cs ++ fractionChars p.fraction? ++ exponentChars p.exponent?, ?_, ?_⟩
    · rw [Parts.chars, digits, List.cons_append, List.cons_append]
    · apply valid.digits
      rw [digits]
      exact List.mem_cons_self

theorem takeNumber_signed (negative : Bool) (valid : p.Valid) (ends : EndsNumber rest) :
    takeNumber (signedChars negative p ++ rest) =
      (ofParts negative p.whole p.fraction? p.exponent?).map fun value => (value, rest) := by
  rw [← takeUnsigned_parts negative valid ends]
  cases negative with
  | true => rfl
  | false =>
    obtain ⟨c, cs, chars, digit⟩ := valid.exists_cons
    have start : signedChars false p = c :: cs := chars
    rw [start, chars, List.cons_append, takeNumber]
    rintro tail same
    cases same
    cases digit

theorem isNumberChar_of_isDigit {c : Char} (digit : c.isDigit = true) : isNumberChar c = true := by
  rw [isNumberChar, digit]
  rfl

theorem isNumberChar_of_mem_fractionChars {fraction? : Option (List Char)} {c : Char}
    (digits : ∀ ds ∈ fraction?, ds ≠ [] ∧ ∀ c ∈ ds, c.isDigit = true)
    (member : c ∈ fractionChars fraction?) : isNumberChar c = true := by
  cases fraction? with
  | none => cases member
  | some ds =>
    rcases List.mem_cons.mp member with rfl | digit
    · decide
    · exact isNumberChar_of_isDigit ((digits ds rfl).2 c digit)

theorem ExponentText.isNumberChar {part : List Char} {exponent? : Option Int} {c : Char}
    (h : ExponentText part exponent?) (member : c ∈ part) : isNumberChar c = true := by
  cases h with
  | missing => cases member
  | digits isMark isSign _ isDigits =>
    rcases List.mem_cons.mp member with rfl | member
    · rcases isMark with rfl | rfl <;> decide
    rcases List.mem_append.mp member with inSign | digit
    · cases isSign with
      | missing => cases inSign
      | plus | minus =>
        rw [List.mem_singleton.mp inSign]
        decide
    · exact isNumberChar_of_isDigit (isDigits c digit)

/-- The text of a number is told apart from other texts by its characters. -/
structure IsNumberText (text : List Char) : Prop where
  nonempty : text ≠ []
  chars : ∀ c ∈ text, isNumberChar c = true

theorem Parts.Valid.isNumberText_text {part : List Char} (valid : p.Valid)
    (exponent : ExponentText part p.exponent?) :
    IsNumberText (p.whole ++ (fractionChars p.fraction? ++ part)) := by
  constructor
  case nonempty => exact List.append_ne_nil_of_left_ne_nil valid.nonempty _
  case chars =>
    intro c member
    rw [List.mem_append, List.mem_append] at member
    rcases member with digit | fraction | inside
    · exact isNumberChar_of_isDigit (valid.digits c digit)
    · exact isNumberChar_of_mem_fractionChars valid.fraction fraction
    · exact exponent.isNumberChar inside

theorem Parts.Valid.isNumberText (valid : p.Valid) : IsNumberText p.chars := by
  rw [Parts.chars, List.append_assoc]
  exact valid.isNumberText_text (exponentText_chars p.exponent?)

theorem isNumberText_signed (negative : Bool) (valid : p.Valid) :
    IsNumberText (signedChars negative p) := by
  cases negative with
  | false => exact valid.isNumberText
  | true =>
    refine ⟨List.cons_ne_nil _ _, ?_⟩
    intro c member
    rcases List.mem_cons.mp member with rfl | inside
    · decide
    · exact valid.isNumberText.chars c inside

/-! ## Integers -/

/-- The digits of a number other than zero do not start with a zero. -/
theorem exists_toDigits_cons {n : Nat} (positive : 0 < n) :
    ∃ c cs, Nat.toDigits 10 n = c :: cs ∧ c ≠ '0' := by
  induction n using Nat.strongRecOn with
  | ind n ih =>
    by_cases small : n < 10
    · refine ⟨n.digitChar, [], Nat.toDigits_of_lt_base small, ?_⟩
      rw [ne_eq, Nat.digitChar_eq_zero]
      omega
    · obtain ⟨c, cs, digits, noZero⟩ := ih (n / 10) (by omega) (by omega)
      refine ⟨c, cs ++ [(n % 10).digitChar], ?_, noZero⟩
      rw [Nat.toDigits_of_base_le (by decide) (by omega), digits, List.cons_append]

theorem valid_integer (n : Nat) : Parts.Valid ⟨Nat.toDigits 10 n, none, none⟩ := by
  rcases Nat.eq_zero_or_pos n with rfl | positive
  · exact valid_single (by decide) (by simp)
  · have digits := @isDigit_of_mem_toDigits n
    obtain ⟨c, cs, chars, noZero⟩ := exists_toDigits_cons positive
    rw [chars] at digits ⊢
    exact valid_of_ne_zero noZero digits (by simp)

theorem le_natOfDigitsFrom (n : Nat) (digits : List Char) : n ≤ natOfDigitsFrom n digits := by
  induction digits generalizing n with
  | nil => exact Nat.le_refl n
  | cons c cs ih =>
    have next := ih (10 * n + (c.toNat - '0'.toNat))
    exact Nat.le_trans (by omega) next

/-- No digit of a number of 64 bits is left over. -/
theorem takeFitting_of_lt {n : Nat} {digits : List Char}
    (fits : natOfDigitsFrom n digits < 2 ^ 64) :
    takeFitting n digits = (natOfDigitsFrom n digits, []) := by
  induction digits generalizing n with
  | nil => rfl
  | cons c cs ih =>
    have rest : natOfDigitsFrom n (c :: cs) = natOfDigitsFrom (natOfDigitsFrom n [c]) cs := rfl
    rw [rest] at fits
    rw [takeFitting, if_pos (Nat.lt_of_le_of_lt (le_natOfDigitsFrom _ cs) fits), ih fits, rest]

theorem ofInteger_eq {n : Int} (low : -2 ^ 63 ≤ n) : ofInteger (decide (n < 0)) n.natAbs = .int n := by
  rw [ofInteger]
  by_cases negative : n < 0
  · have fits : ¬ (n.natAbs = 0 ∨ 2 ^ 63 < n.natAbs) := by omega
    simp only [negative, decide_true, Bool.not_true, Bool.false_eq_true, if_false, if_neg fits]
    congr 1
    omega
  · simp only [negative, decide_false, Bool.not_false, if_true]
    congr 1
    omega

theorem intChars_eq (n : Int) :
    intChars n = signedChars (decide (n < 0)) ⟨Nat.toDigits 10 n.natAbs, none, none⟩ := by
  have chars : Parts.chars ⟨Nat.toDigits 10 n.natAbs, none, none⟩ = Nat.toDigits 10 n.natAbs := by
    simp [Parts.chars, fractionChars, exponentChars]
  simp only [intChars, signedChars, chars, decide_eq_true_eq]

theorem isNumberText_int (n : Int) : IsNumberText (intChars n) := by
  rw [intChars_eq]
  exact isNumberText_signed _ (valid_integer _)

/-- An integer of 64 bits is read as itself. -/
theorem takeNumber_int {n : Int} (low : -2 ^ 63 ≤ n) (high : n < 2 ^ 64) (ends : EndsNumber rest) :
    takeNumber (intChars n ++ rest) = some (.int n, rest) := by
  have value : natOfDigitsFrom 0 (Nat.toDigits 10 n.natAbs) = n.natAbs := by
    simpa [natOfDigits] using natOfDigits_positional n.natAbs 0
  have fitting : takeFitting 0 (Nat.toDigits 10 n.natAbs) = (n.natAbs, []) := by
    rw [takeFitting_of_lt (by omega), value]
  rw [intChars_eq, takeNumber_signed _ (valid_integer _) ends, ofParts]
  simp [fitting, ofInteger_eq low]

/-! ## Doubles -/

/-- A number with a fraction or an exponent is not read as an integer. -/
def Parts.IsDouble (p : Parts) : Prop :=
  (p.fraction?.isNone && p.exponent?.isNone) = false

theorem ofParts_of_isDouble (negative : Bool) (double : p.IsDouble) :
    ∃ y?, ofParts negative p.whole p.fraction? p.exponent? = Option.map Json.double y? := by
  rw [Parts.IsDouble] at double
  simp only [ofParts, double, Bool.false_and, Bool.false_eq_true, if_false]
  exact ⟨(scale _ _).map fun x => if negative then -x else x, by rw [Option.map_map]; rfl⟩

/-- The decimal that the parts name. -/
def Parts.decimal (p : Parts) : Decimal :=
  ⟨natOfDigits (p.whole ++ p.fraction?.getD []), p.exponent?.getD 0 - (p.fraction?.getD []).length⟩

/-- The parts spell a decimal: as it is or, if it is a whole number, with all of its digits and a zero
behind the point. -/
structure Parts.Spells (p : Parts) (d : Decimal) : Prop where
  valid : p.Valid
  isDouble : p.IsDouble
  short : p.whole.length ≤ 16
  decimal : p.decimal = d ∨
    0 ≤ d.exponent ∧ p.decimal = ⟨d.digits * 10 ^ (d.exponent.toNat + 1), -1⟩

theorem exists_parts_positional {d : Decimal} (positive : 0 < d.digits) (place : d.leadingPlace < 16) :
    ∃ p : Parts, p.Spells d ∧ Layout.interchange.positionalChars d = p.chars := by
  obtain ⟨c, cs, chars, noZero⟩ := exists_toDigits_cons positive
  have digits : ∀ d ∈ c :: cs, d.isDigit = true := chars ▸ isDigit_of_mem_toDigits
  have mark : Layout.interchange.wholeMark = ['.', '0'] := rfl
  have value : natOfDigits (c :: cs) = d.digits := chars ▸ natOfDigits_toDigits d.digits
  have count : digitCount d.digits = (c :: cs).length := congrArg List.length chars
  rw [Decimal.leadingPlace, count] at place
  simp only [Layout.positionalChars, chars, mark]
  split
  next whole =>
    refine ⟨⟨c :: (cs ++ List.replicate d.exponent.toNat '0'), some ['0'], none⟩,
      ⟨valid_of_ne_zero noZero ?_ (by simp), rfl, ?_, .inr ⟨whole, ?_⟩⟩,
      by simp [Parts.chars, fractionChars, exponentChars]⟩
    · exact List.forall_mem_append.mpr ⟨digits, isDigit_of_mem_zeros⟩
    · simp only [List.length_cons, List.length_append, List.length_replicate] at place ⊢
      omega
    · have zeros := natOfDigits_positional d.digits (d.exponent.toNat + 1)
      rw [chars, List.replicate_succ'] at zeros
      simpa [Parts.decimal] using zeros
  next fraction =>
    split
    next inside =>
      obtain ⟨k, hk⟩ : ∃ k, (c :: cs).length - (-d.exponent).toNat = k + 1 :=
        Nat.exists_eq_succ_of_ne_zero (by omega)
      rw [hk, List.take_succ_cons, List.drop_succ_cons]
      refine ⟨⟨c :: cs.take k, some (cs.drop k), none⟩,
        ⟨valid_of_ne_zero noZero ?_ ?_, rfl, ?_, .inl ?_⟩,
        by simp [Parts.chars, fractionChars, exponentChars]⟩
      · intro d member
        exact digits d (List.cons_subset_cons c (List.take_subset k cs) member)
      · rintro ds same
        cases same
        rw [List.length_cons] at hk inside
        have some : cs.drop k ≠ [] := by
          simp
          omega
        exact ⟨some, fun d member => digits d (List.mem_cons_of_mem c (List.mem_of_mem_drop member))⟩
      · simp only [List.length_cons, List.length_take] at place hk ⊢
        omega
      · have exponent : (0 : Int) - (cs.drop k).length = d.exponent := by
          rw [List.length_drop]
          rw [List.length_cons] at hk inside
          omega
        simp only [Parts.decimal, Option.getD_none, Option.getD_some, List.cons_append,
          List.take_append_drop, value, exponent]
    next before =>
      refine ⟨⟨['0'], some (List.replicate ((-d.exponent).toNat - (c :: cs).length) '0' ++ c :: cs),
        none⟩, ⟨valid_single (by decide) ?_, rfl, by simp, .inl ?_⟩,
        by simp [Parts.chars, fractionChars, exponentChars]⟩
      · rintro ds same
        cases same
        exact ⟨by simp, List.forall_mem_append.mpr ⟨isDigit_of_mem_zeros, digits⟩⟩
      · have zeros := natOfDigits_zeros ((-d.exponent).toNat - (c :: cs).length + 1) (c :: cs)
        rw [List.replicate_succ, List.cons_append] at zeros
        have exponent : (0 : Int) - (List.replicate ((-d.exponent).toNat - (c :: cs).length) '0' ++
            c :: cs).length = d.exponent := by
          rw [List.length_append, List.length_replicate]
          omega
        simp only [Parts.decimal, Option.getD_none, Option.getD_some, List.cons_append,
          List.nil_append, zeros, value, exponent]

theorem exists_parts_exponent (d : Decimal) :
    ∃ p : Parts, p.Spells d ∧ Layout.interchange.exponentChars d = p.chars := by
  have digits := @isDigit_of_mem_toDigits d.digits
  have value := natOfDigits_toDigits d.digits
  have sign : (if d.leadingPlace < 0 then ['-'] else Layout.interchange.exponentSign) =
      [signChar d.leadingPlace] := by
    rw [signChar]
    split <;> rfl
  cases chars : Nat.toDigits 10 d.digits with
  | nil => simp at chars
  | cons c cs =>
    rw [chars] at digits value
    obtain ⟨digit, others⟩ := List.forall_mem_cons.mp digits
    have fraction : (if cs.isEmpty then none else some cs).getD [] = cs := by cases cs <;> rfl
    refine ⟨⟨[c], if cs.isEmpty then none else some cs, some d.leadingPlace⟩,
      ⟨valid_single digit ?_, by simp [Parts.IsDouble], by simp, .inl ?_⟩, ?_⟩
    · intro ds same
      split at same
      next => cases same
      next some =>
        cases same
        exact ⟨by simpa using some, others⟩
    · have exponent : d.leadingPlace - cs.length = d.exponent := by
        have count : digitCount d.digits = (c :: cs).length := congrArg List.length chars
        rw [Decimal.leadingPlace, count, List.length_cons]
        omega
      simp only [Parts.decimal, fraction, Option.getD_some, List.cons_append, List.nil_append, value,
        exponent]
    · simp only [Layout.exponentChars, chars, sign, Parts.chars, exponentChars]
      cases cs <;> simp [fractionChars]

/-- The decimal that is written for a finite double. -/
def writtenDecimal (m : Nat) (e : Int) : Decimal :=
  if m = 0 then ⟨0, 0⟩ else shortest Layout.interchange.tie m e

theorem exists_parts_finite (m : Nat) (e : Int) :
    ∃ p : Parts, p.Spells (writtenDecimal m e) ∧ Layout.interchange.finiteChars m e = p.chars := by
  rw [Layout.finiteChars, writtenDecimal]
  split
  next zero =>
    exact ⟨⟨['0'], some ['0'], none⟩, ⟨valid_single (by decide) (by simp), rfl, by decide,
      .inr ⟨Int.le_refl 0, rfl⟩⟩, rfl⟩
  next nonzero =>
    dsimp only
    split
    next positional =>
      have place : _ ∧ _ := of_decide_eq_true positional
      exact exists_parts_positional (digits_shortest_pos (Nat.pos_of_ne_zero nonzero)) place.2
    next => exact exists_parts_exponent _

theorem exists_parts_double {x : Float} (finite : x.isFinite = true) :
    ∃ negative m e p, exact x = .finite negative m e ∧ p.Spells (writtenDecimal m e) ∧
      Layout.interchange.chars x = signedChars negative p := by
  obtain ⟨negative, m, e, value⟩ := isFinite_iff.mp finite
  obtain ⟨p, spells, chars⟩ := exists_parts_finite m e
  refine ⟨negative, m, e, p, value, spells, ?_⟩
  simp only [Layout.chars, value, chars, signedChars]

theorem isNumberText_double {x : Float} (finite : x.isFinite = true) :
    IsNumberText (Layout.interchange.chars x) := by
  obtain ⟨negative, m, e, p, -, spells, chars⟩ := exists_parts_double finite
  rw [chars]
  exact isNumberText_signed negative spells.valid

/-- The double that the text of a double is read as, if it is read at all. -/
def rereadDouble (x : Float) : Option Float :=
  match takeNumber (Layout.interchange.chars x) with
  | some (.double y, _) => some y
  | _ => none

/-- What follows the text of a double has no part in what it is read as. -/
theorem takeNumber_double {x : Float} (finite : x.isFinite = true) (ends : EndsNumber rest) :
    takeNumber (Layout.interchange.chars x ++ rest) =
      (rereadDouble x).map fun y => (.double y, rest) := by
  obtain ⟨negative, m, e, p, -, spells, chars⟩ := exists_parts_double finite
  obtain ⟨y?, value⟩ := ofParts_of_isDouble negative spells.isDouble
  have alone := @takeNumber_signed [] p negative spells.valid (by simp [EndsNumber])
  have followed := takeNumber_signed negative spells.valid ends
  rw [value, List.append_nil] at alone
  rw [value] at followed
  rw [rereadDouble, chars, alone, followed]
  cases y? <;> rfl

end CallScript.Json
