import CallScript.Proofs.Builtin
import CallScript.Proofs.Number.Truncation

/-! # Arrays

The builtins that make an array, count its items and find one of them by its index
(`array_access_is_exact`). An index is a double, and finds the item whose place it is equal to. A machine
finds the same item by looking at the fraction and the sign of the index and casting it to a machine word,
as long as the length of the array is a machine word as well (`elementByWord_eq`). -/

namespace CallScript

open Number

namespace Prelude

variable {items : List Value} {index : Float} {v : Value}

/-- An index that is no natural number is refused. -/
theorem element_of_not_natural (other : ¬ ∃ k : Nat, HasRational index k) :
    element items index = .error (.runError (.badIndex index)) := by
  rw [element]
  cases natural : toNat? index with
  | none => rfl
  | some k => exact absurd ⟨k, toNat?_eq_some_iff.mp natural⟩ other

theorem element_of_lt {k : Nat} (natural : HasRational index k) (inside : k < items.length) :
    element items index = .ok items[k] := by
  rw [element, toNat?_eq_some_iff.mpr natural]
  simp only [List.getElem?_eq_getElem inside]

theorem element_of_le {k : Nat} (natural : HasRational index k) (beyond : items.length ≤ k) :
    element items index = .error (.runError (.indexOutOfRange index items.length)) := by
  rw [element, toNat?_eq_some_iff.mpr natural]
  simp only [List.getElem?_eq_none beyond]

theorem element_eq_ok_iff : element items index = .ok v ↔
    ∃ (k : Nat) (_ : k < items.length), HasRational index k ∧ v = items[k] := by
  constructor
  · intro found
    by_cases natural : ∃ k : Nat, HasRational index k
    · obtain ⟨k, natural⟩ := natural
      by_cases inside : k < items.length
      · rw [element_of_lt natural inside] at found
        cases found
        exact ⟨k, inside, natural, rfl⟩
      · rw [element_of_le natural (Nat.le_of_not_lt inside)] at found
        cases found
    · rw [element_of_not_natural natural] at found
      cases found
  · intro ⟨k, inside, natural, same⟩
    rw [element_of_lt natural inside, same]

/-- The fraction and the sign tell the natural numbers. -/
theorem refuses_iff : (fraction index != 0 || index < 0) = true ↔ ¬ ∃ k : Nat, HasRational index k := by
  rw [Bool.or_eq_true, bne, Bool.not_eq_true', ← Bool.not_eq_true, fraction_beq_zero_iff,
    decide_eq_true_eq]
  constructor
  · rintro (fractional | negative) ⟨k, natural⟩
    · exact fractional ⟨k, by exact_mod_cast natural⟩
    · have sign := natural.lt_zero_iff.mp negative
      exact absurd sign (not_lt_of_ge (Nat.cast_nonneg k))
  · intro other
    by_cases whole : ∃ n : Int, HasRational index n
    · obtain ⟨n, whole⟩ := whole
      refine .inr (whole.lt_zero_iff.mpr ?_)
      by_contra nonneg
      obtain ⟨k, rfl⟩ := Int.eq_ofNat_of_zero_le (a := n) (by exact_mod_cast not_lt.mp nonneg)
      exact other ⟨k, by exact_mod_cast whole⟩
    · exact .inl whole

/-- A machine finds the same item, and where there is none reports the same fault. A word that the cast has
cut off is no place in the array. -/
theorem elementByWord_eq (fits : items.length < USize.size) :
    elementByWord items index = element items index := by
  rw [elementByWord]
  by_cases natural : ∃ k : Nat, HasRational index k
  · rw [if_neg (by rw [refuses_iff, not_not]; exact natural)]
    obtain ⟨k, natural⟩ := natural
    rw [natural.toNat_toUSize (Nat.cast_nonneg k), Nat.floor_natCast]
    by_cases inside : k < items.length
    · rw [Nat.min_eq_left (by omega), element_of_lt natural inside, List.getElem?_eq_getElem inside]
    · have beyond : items.length ≤ min k (USize.size - 1) := by omega
      rw [element_of_le natural (Nat.le_of_not_lt inside), List.getElem?_eq_none beyond]
  · rw [if_pos (refuses_iff.mpr natural), element_of_not_natural natural]

end Prelude

/-! ## The builtins -/

namespace World

variable {world : World} {f : Value}

theorem OffersPrelude.answers_array (offers : world.OffersPrelude "array" f) (vs : List Value) :
    world.Answers f vs (.ok (.array vs)) := by
  have array : world.Offers f (.variadic .any Value.array) :=
    offers.offers (by simp [Prelude.operations])
  exact array.answers rfl

theorem OffersPrelude.answers_length (offers : world.OffersPrelude "length" f) (vs : List Value) :
    world.Answers f [.array vs] (.ok (.number (ofNat vs.length))) := by
  have length : world.Offers f (.unary .items List.length) :=
    offers.offers (by simp [Prelude.operations])
  exact length.answers rfl

theorem OffersPrelude.answers_element (offers : world.OffersPrelude "element" f) (vs : List Value)
    (i : Float) : world.Answers f [.array vs, .number i] (Prelude.element vs i) := by
  have element : world.Offers f (.binary .items .number Prelude.element) :=
    offers.offers (by simp [Prelude.operations])
  have reply : (toReply (Prelude.element vs i) : Reply) = { result := Prelude.element vs i } := by
    cases Prelude.element vs i <;> rfl
  exact element.answers reply

end World

/-- Any values make an array of them. Its length is the number of its items: exactly so up to `2 ^ 53` items,
and no finite double is closer. An index finds the item at `k` if and only if it is equal to `k`, and `k` is
less than the length of the array. With any other index the call fails, with one fault for a natural number
that is too large and with another one for what is no natural number. In each case the call ends as the
search by machine arithmetic does. -/
theorem array_access_is_exact (world : World) (array length element : Value)
    (offersArray : world.OffersPrelude "array" array)
    (offersLength : world.OffersPrelude "length" length)
    (offersElement : world.OffersPrelude "element" element) (vs : List Value) :
    world.Answers array vs (.ok (.array vs)) ∧
    (∃ count, world.Answers length [.array vs] (.ok (.number count)) ∧
      (vs.length ≤ 2 ^ 53 → HasRational count vs.length) ∧
      (vs.length < overflow → ∃ q, HasRational count q ∧
        ∀ y r, HasRational y r → |q - vs.length| ≤ |r - vs.length|)) ∧
    ∀ i : Float,
      (∀ v, world.Answers element [.array vs, .number i] (.ok v) ↔
        ∃ (k : Nat) (_ : k < vs.length), HasRational i k ∧ v = vs[k]) ∧
      ((¬ ∃ k < vs.length, HasRational i k) →
        ∃ fault, world.Answers element [.array vs, .number i] (.error (.runError fault)) ∧
          ((∃ k : Nat, HasRational i k) ∧ fault = .indexOutOfRange i vs.length ∨
            (¬ ∃ k : Nat, HasRational i k) ∧ fault = .badIndex i)) ∧
      (vs.length < USize.size →
        world.Answers element [.array vs, .number i] (Prelude.elementByWord vs i)) := by
  refine ⟨offersArray.answers_array vs, ⟨_, offersLength.answers_length vs, hasRational_ofNat,
    ofNat_closest⟩, fun i => ?_⟩
  have answers := offersElement.answers_element vs i
  refine ⟨fun v => ?found, fun missing => ?fails, fun fits => ?word⟩
  case found =>
    rw [← Prelude.element_eq_ok_iff]
    constructor
    · exact answers.unique
    · intro found
      rwa [found] at answers
  case fails =>
    by_cases natural : ∃ k : Nat, HasRational i k
    · obtain ⟨k, equal⟩ := natural
      have beyond : vs.length ≤ k := Nat.le_of_not_lt fun inside => missing ⟨k, inside, equal⟩
      rw [Prelude.element_of_le equal beyond] at answers
      exact ⟨_, answers, .inl ⟨⟨k, equal⟩, rfl⟩⟩
    · rw [Prelude.element_of_not_natural natural] at answers
      exact ⟨_, answers, .inr ⟨natural, rfl⟩⟩
  case word =>
    rwa [Prelude.elementByWord_eq fits]

/-- Of three items the first one is found at minus zero as well, and none at `3`, `0.5`, infinity or NaN. -/
theorem three_items_are_found :
    let vs := [Value.number 10, .string "a", .number 30]
    ∃ (world : World) (array length element : Value), world.OffersPrelude "element" element ∧
      world.Answers array vs (.ok (.array vs)) ∧
      (∃ count, world.Answers length [.array vs] (.ok (.number count)) ∧ HasRational count 3) ∧
      world.Answers element [.array vs, .number 2] (.ok (.number 30)) ∧
      world.Answers element [.array vs, .number (-0)] (.ok (.number 10)) ∧
      world.Answers element [.array vs, .number 3] (.error (.runError (.indexOutOfRange 3 3))) ∧
      (∀ i ∈ [1 / 2, -1, 1 / 0, 0 / 0], ∃ fault,
        world.Answers element [.array vs, .number i] (.error (.runError fault))) ∧
      ∀ i : Float, world.Answers element [.array vs, .number i] (Prelude.elementByWord vs i) := by
  intro vs
  obtain ⟨array, -, offersArray⟩ := World.newGlobal_offers {} "array" (by decide)
  obtain ⟨length, -, offersLength⟩ := World.newGlobal_offers {} "length" (by decide)
  obtain ⟨element, -, offersElement⟩ := World.newGlobal_offers {} "element" (by decide)
  obtain ⟨make, ⟨count, counts, exactly, -⟩, access⟩ :=
    array_access_is_exact _ array length element offersArray offersLength offersElement vs
  have natural {i : Float} {k : Nat} (equal : toNat? i = some k) : HasRational i k :=
    toNat?_eq_some_iff.mp equal
  have zero : HasRational (-0) (0 : Nat) := ⟨true, 0, -1074, by decide, by simp⟩
  have three : HasRational 3 (3 : Nat) := natural (by decide)
  have word : vs.length < USize.size := by
    have sizes := USize.size_eq
    change 3 < _
    omega
  refine ⟨_, array, length, element, offersElement, make, ⟨count, counts, ?_⟩, ?_, ?_, ?_, ?_,
    fun i => (access i).2.2 word⟩
  · exact_mod_cast exactly (by decide)
  · exact ((access 2).1 _).mpr ⟨2, by decide, natural (by decide), rfl⟩
  · exact ((access (-0)).1 _).mpr ⟨0, by decide, zero, rfl⟩
  · have missing : ¬ ∃ k < vs.length, HasRational 3 k := by
      intro ⟨k, inside, equal⟩
      have same : (k : ℚ) = (3 : Nat) := equal.unique three
      exact absurd inside (by rw [Nat.cast_inj.mp same]; decide)
    obtain ⟨fault, fails, ⟨-, rfl⟩ | ⟨other, -⟩⟩ := (access 3).2.1 missing
    · exact fails
    · exact absurd ⟨3, three⟩ other
  · intro i member
    have other : toNat? i = none := by
      fin_cases member <;> decide
    have missing : ¬ ∃ k < vs.length, HasRational i k := by
      intro ⟨k, _, equal⟩
      rw [toNat?_eq_some_iff.mpr equal] at other
      cases other
    obtain ⟨fault, fails, -⟩ := (access i).2.1 missing
    exact ⟨fault, fails⟩

end CallScript
