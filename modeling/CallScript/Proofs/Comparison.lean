import CallScript.Proofs.Equality
import CallScript.Proofs.Text.ByteOrder

/-! # The order of values

The builtins for less, equal and greater speak of one order (`comparisons_form_one_order`). Less and
greater are the same question with the arguments exchanged, and are answered for two numbers and for two
strings. The order of strings is total; it goes by their bytes, which comes to the same as going by their
code points. -/

namespace CallScript

/-- Both values are numbers, or both are strings. -/
inductive Value.Comparable : Value → Value → Prop where
  | numbers (x y : Float) : Comparable (.number x) (.number y)
  | strings (s t : String) : Comparable (.string s) (.string t)

namespace Prelude

variable {a b : Value}

/-- Less one way round is greater the other way round. -/
theorem less_eq_greater (comparable : a.Comparable b) :
    ∃ truth, less a b = .ok truth ∧ greater b a = .ok truth := by
  cases comparable with
  | numbers x y => exact ⟨decide (x < y), rfl, rfl⟩
  | strings s t => exact ⟨decide (s < t), rfl, rfl⟩

theorem less_of_not_comparable (other : ¬ a.Comparable b) :
    less a b = .error (cannotCombine "<" a b) := by
  fun_cases less a b with
  | case1 x y => exact absurd (.numbers x y) other
  | case2 s t => exact absurd (.strings s t) other
  | case3 => rfl

theorem greater_of_not_comparable (other : ¬ a.Comparable b) :
    greater b a = .error (cannotCombine ">" b a) := by
  fun_cases greater b a with
  | case1 y x => exact absurd (.numbers x y) other
  | case2 t s => exact absurd (.strings s t) other
  | case3 => rfl

end Prelude

/-! ## The builtins -/

namespace World

variable {world : World} {f : Value}

theorem OffersPrelude.less (offers : world.OffersPrelude "<" f) :
    world.Offers f (.binary .any .any Prelude.less) :=
  offers.offers (by simp [Prelude.operations])

theorem OffersPrelude.greater (offers : world.OffersPrelude ">" f) :
    world.Offers f (.binary .any .any Prelude.greater) :=
  offers.offers (by simp [Prelude.operations])

/-- The call of a builtin with two arguments yields the truth value. -/
abbrev Judges (world : World) (f a b : Value) (truth : Bool) : Prop :=
  world.Answers f [a, b] (.ok (.boolean truth))

theorem Judges.unique {a b : Value} {truth other : Bool} (h : world.Judges f a b truth)
    (h' : world.Judges f a b other) : truth = other := by
  have same := Answers.unique h h'
  cases same
  rfl

theorem OffersPrelude.judges_less (offers : world.OffersPrelude "<" f) (s t : String) :
    world.Judges f (.string s) (.string t) (decide (s < t)) :=
  offers.less.answers_test _ _

theorem OffersPrelude.judges_greater (offers : world.OffersPrelude ">" f) (s t : String) :
    world.Judges f (.string s) (.string t) (decide (t < s)) :=
  offers.greater.answers_test _ _

theorem OffersPrelude.judges_equal (offers : world.OffersPrelude "==" f) (s t : String) :
    world.Judges f (.string s) (.string t) (decide (s = t)) :=
  offers.answers_equal rfl

/-- The builtin for less yields true of two strings if and only if one is less than the other. -/
theorem OffersPrelude.judges_less_iff (offers : world.OffersPrelude "<" f) {s t : String} :
    world.Judges f (.string s) (.string t) true ↔ s < t := by
  have judges := offers.judges_less s t
  constructor
  · intro yes
    exact of_decide_eq_true (judges.unique yes)
  · intro less
    rwa [decide_eq_true less] at judges

end World

/-- Of two strings exactly one is true: that the first is less, that they are equal, and that it is
greater. Less is transitive on strings, and goes by their bytes and so by their code points. On any two
values less, with the arguments exchanged, is the same as greater: a truth value if both are numbers or
both are strings, and otherwise an error that names their types. -/
theorem comparisons_form_one_order (world : World) (less equal greater : Value)
    (offersLess : world.OffersPrelude "<" less) (offersEqual : world.OffersPrelude "==" equal)
    (offersGreater : world.OffersPrelude ">" greater) :
    (∀ s t : String, ∃ l e g : Bool,
      world.Judges less (.string s) (.string t) l ∧
      world.Judges equal (.string s) (.string t) e ∧
      world.Judges greater (.string s) (.string t) g ∧ [l, e, g].count true = 1) ∧
    (∀ s t u : String, world.Judges less (.string s) (.string t) true →
      world.Judges less (.string t) (.string u) true →
      world.Judges less (.string s) (.string u) true) ∧
    (∀ s t : String,
      (world.Judges less (.string s) (.string t) true ↔ Text.utf8 s < Text.utf8 t) ∧
      (world.Judges less (.string s) (.string t) true ↔
        Text.Precedes (Text.codePoints s) (Text.codePoints t))) ∧
    ∀ a b : Value,
      (a.Comparable b → ∃ truth, world.Judges less a b truth ∧ world.Judges greater b a truth) ∧
      (¬ a.Comparable b →
        world.Answers less [a, b] (.error (.typeError (.cannotCombine "<" a.type b.type))) ∧
        world.Answers greater [b, a] (.error (.typeError (.cannotCombine ">" b.type a.type)))) := by
  refine ⟨?one, ?trans, ?order, ?exchanged⟩
  case one =>
    intro s t
    refine ⟨_, _, _, offersLess.judges_less s t, offersEqual.judges_equal s t,
      offersGreater.judges_greater s t, ?_⟩
    rcases lt_trichotomy s t with before | same | behind
    · simp [before, before.ne, before.asymm]
    · simp [same]
    · simp [behind, behind.ne', behind.asymm]
  case trans =>
    intro s t u first second
    rw [offersLess.judges_less_iff] at first second ⊢
    exact first.trans second
  case order =>
    intro s t
    rw [offersLess.judges_less_iff]
    exact ⟨Text.utf8_lt_utf8_iff.symm, Text.precedes_codePoints_iff.symm⟩
  case exchanged =>
    intro a b
    constructor
    · intro comparable
      obtain ⟨truth, one, other⟩ := Prelude.less_eq_greater comparable
      have forward := offersLess.less.answers_test a b
      have backward := offersGreater.greater.answers_test b a
      rw [one] at forward
      rw [other] at backward
      exact ⟨truth, forward, backward⟩
    · intro other
      have forward := offersLess.less.answers_test a b
      have backward := offersGreater.greater.answers_test b a
      rw [Prelude.less_of_not_comparable other] at forward
      rw [Prelude.greater_of_not_comparable other] at backward
      exact ⟨forward, backward⟩

/-- A character of four bytes comes after one of three bytes, and a text after its beginnings. -/
theorem longer_characters_come_later :
    ∃ (world : World) (less greater : Value), world.OffersPrelude "<" less ∧
      world.Judges less (.string "a") (.string "a\uffff") true ∧
      world.Judges less (.string "a\uffff") (.string "a😀") true ∧
      world.Judges less (.string "a") (.string "a😀") true ∧
      (∃ truth, world.Judges less (.number 1) (.number 2) truth ∧
        world.Judges greater (.number 2) (.number 1) truth) ∧
      world.Answers less [.number 1, .string "a"]
        (.error (.typeError (.cannotCombine "<" .number .string))) := by
  obtain ⟨less, -, offersLess⟩ := World.newGlobal_offers {} "<" (by decide)
  obtain ⟨equal, -, offersEqual⟩ := World.newGlobal_offers {} "==" (by decide)
  obtain ⟨greater, -, offersGreater⟩ := World.newGlobal_offers {} ">" (by decide)
  obtain ⟨-, trans, order, exchanged⟩ :=
    comparisons_form_one_order _ less equal greater offersLess offersEqual offersGreater
  have first := (order "a" "a\uffff").2.mpr (.shorter [97] 65535 [])
  have below : 65535 < 128512 := by decide
  have second := (order "a\uffff" "a😀").2.mpr (.lesser [97] below [] [])
  refine ⟨_, less, greater, offersLess, first, second, trans _ _ _ first second,
    (exchanged _ _).1 (.numbers 1 2), ((exchanged _ _).2 ?_).1⟩
  intro comparable
  cases comparable

end CallScript
