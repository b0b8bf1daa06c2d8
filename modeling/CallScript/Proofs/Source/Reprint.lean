import CallScript.Proofs.Expr.Json
import CallScript.Proofs.Source.Depth

/-! # Printing what was read

The text of a tree that was read from a text is a program again. It is read as the same tree unless a
number was too large for a double: infinity is printed as `inf`, and that is a word
(`reprint_of_parseWith`). -/

namespace CallScript.Source

open Number

/-! ## Respelling keeps the argument lists -/

theorem links_respell (e : Expr) : (respell e).links = e.links := by
  fun_induction Expr.links e with
  | case1 l =>
    cases l with
    | number x =>
      rw [respell, respellLiteral]
      split <;> rfl
    | string s => rfl
  | case2 name => rfl
  | case3 operator args ih => rw [respell, Expr.links, ih]

mutual

theorem nesting_respell (e : Expr) : (respell e).nesting = e.nesting := by
  match e with
  | .literal (.number x) =>
    rw [respell, respellLiteral]
    split <;> rfl
  | .literal (.string s) => rfl
  | .word name => rfl
  | .call operator args =>
    rw [respell, Expr.nesting, nesting_respell operator, links_respell operator,
      nestingAll_respellAll args, Expr.nesting]

theorem nestingAll_respellAll (es : List Expr) :
    Expr.nestingAll (respellAll es) = Expr.nestingAll es := by
  match es with
  | [] => rfl
  | e :: es =>
    rw [respellAll, Expr.nestingAll, nesting_respell e, nestingAll_respellAll es, Expr.nestingAll]

end

/-! ## Trees of program text -/

theorem equalsConstant_of_isConstant {l : Literal} (constant : IsConstant l) : EqualsConstant l := by
  cases l with
  | string s => exact constant
  | number x => exact constant.imp_right fun infinite => .inl (plainChars_infinity infinite)

/-- A constant of program text is given back by its text unless it is infinite. -/
theorem canonical_iff_isFinite {l : Literal} (constant : IsConstant l) :
    l.Canonical ↔ l.IsFinite := by
  cases l with
  | string s => exact iff_of_true constant trivial
  | number x =>
    rcases constant with whole | infinite
    · exact iff_of_true whole whole.isFinite
    · apply iff_of_false _ (not_isFinite_of_infinite infinite)
      rintro ⟨m, e, n, value, -⟩
      rw [infinite] at value
      cases value

variable {options : Options} {text : String} {e : Expr}

theorem isText_of_parseWith (read : parseWith options text = .ok e) : IsText e := by
  have ⟨⟨rest, derived, _⟩, _⟩ := runProgram_eq_ok_iff.mp (parseWith_eq_runProgram.mp read)
  exact isText_of_exprAt derived

theorem canonical_respell_of_isText (isText : IsText e) : (respell e).Canonical := by
  apply canonical_respell
  apply (Expr.leaves_congr _ (fun _ _ => Iff.rfl) isText).mp isText
  intro l constant
  exact iff_of_true constant (equalsConstant_of_isConstant constant)

theorem canonical_iff_isFinite_of_isText (isText : IsText e) : e.Canonical ↔ e.IsFinite :=
  Expr.leaves_congr (fun _ => canonical_iff_isFinite) (fun _ word => iff_of_true word trivial) isText

/-- The text of a tree that was read is a program, in which numbers that are infinite stand as words. -/
theorem isProgram_respell (comments : Bool) (isText : IsText e) :
    IsProgram comments e.sourceChars (respell e) := by
  rw [← sourceChars_respell]
  exact isProgram_of_canonical (canonical_respell_of_isText isText)

theorem respell_same_iff (isText : IsText e) : (respell e == e) = true ↔ e.IsFinite := by
  rw [← canonical_iff_isFinite_of_isText isText]
  constructor
  · intro same
    rw [← respell_of_same same]
    exact canonical_respell_of_isText isText
  · intro canonical
    have unchanged := (isProgram_respell true isText).unique (isProgram_of_canonical canonical)
    rw [unchanged]
    exact same_self_of_canonical canonical

/-! ## The round trip from text -/

theorem parseWith_source_of_isText (isText : IsText e) (fits : e.nesting ≤ options.maxDepth) :
    parseWith options e.source = .ok (respell e) := by
  rw [parseWith_eq_runProgram, Expr.source, String.toList_ofList, runProgram_eq_ok_iff,
    nesting_respell]
  exact ⟨isProgram_respell _ isText, fits⟩

/-- The text of a tree that was read is read again, under the same options, as the tree with every
infinite number as the word `inf`. So it is read as the same tree if and only if the numbers are
finite, which a run of digits is if it names a number below `overflow`. -/
theorem reprint_of_parseWith (read : parseWith options text = .ok e) :
    parseWith options e.source = .ok (respell e) ∧
      ((∃ e', parseWith options e.source = .ok e' ∧ (e' == e) = true) ↔ e.IsFinite) ∧
      ∀ digits, (Literal.number (ofDigits digits)).IsFinite ↔ natOfDigits digits < overflow := by
  have isText := isText_of_parseWith read
  have again := parseWith_source_of_isText isText (nesting_le_of_parseWith read)
  refine ⟨again, ?_, ?_⟩
  · rw [← respell_same_iff isText]
    constructor
    · rintro ⟨e', read', same⟩
      rw [again] at read'
      cases read'
      exact same
    · intro same
      exact ⟨_, again, same⟩
  · intro digits
    exact isFinite_ofNat_iff (natOfDigits digits)

/-! ## Runs of digits -/

theorem parse_digits {digits : List Char} (nonempty : digits ≠ [])
    (all : ∀ c ∈ digits, c.isDigit = true) :
    parse (.ofList digits) = .ok (.literal (.number (ofDigits digits))) := by
  have number : NumberAt digits digits [] := ⟨by simp, nonempty, all, by simp⟩
  rw [parse, parseWith_eq_runProgram, String.toList_ofList, runProgram_eq_ok_iff]
  exact ⟨⟨[], .of_atom (.number number), .none⟩, Nat.zero_le _⟩

/-- A number is the same without the zeros in front of it. -/
theorem seven_is_reprinted :
    parse "007" = .ok (.literal (.number (ofDigits ['0', '0', '7']))) ∧
      ∃ e', parse (Expr.literal (.number (ofDigits ['0', '0', '7']))).source = .ok e' ∧
        (e' == .literal (.number (ofDigits ['0', '0', '7']))) = true := by
  have read : parse "007" = .ok (.literal (.number (ofDigits ['0', '0', '7']))) :=
    parse_digits (List.cons_ne_nil _ _) (List.all_eq_true.mp rfl)
  obtain ⟨-, same, finite⟩ := reprint_of_parseWith read
  have small : natOfDigits ['0', '0', '7'] < overflow := by decide +kernel
  exact ⟨read, same.mpr ((finite _).mpr small)⟩

/-- The digits of `10 ^ 309`, the first power of ten beyond the doubles. -/
def hugeDigits : List Char :=
  '1' :: List.replicate 309 '0'

theorem not_isFinite_hugeDigits : (ofDigits hugeDigits).isFinite ≠ true := by
  have beyond : ¬ natOfDigits hugeDigits < overflow := by decide +kernel
  rwa [ofDigits, ne_eq, isFinite_ofNat_iff]

/-- A number that is too large for a double is printed as a word. -/
theorem huge_number_is_lost :
    ∃ e, parse (.ofList hugeDigits) = .ok e ∧
      ¬ ∃ e', parse e.source = .ok e' ∧ (e' == e) = true := by
  have read := @parse_digits hugeDigits (List.cons_ne_nil _ _)
    (List.all_eq_true.mp (by decide +kernel))
  have isText := isText_of_parseWith read
  refine ⟨_, read, ?_⟩
  rintro ⟨e', read', same⟩
  have again := @parseWith_source_of_isText {} _ isText (Nat.zero_le _)
  rw [parse, again] at read'
  rw [← Except.ok.inj read'] at same
  exact not_isFinite_hugeDigits ((respell_same_iff isText).mp same)

end CallScript.Source
