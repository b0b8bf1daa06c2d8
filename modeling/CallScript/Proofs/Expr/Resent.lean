import CallScript.Proofs.Expr.Json
import CallScript.Proofs.Expr.Represents
import CallScript.Proofs.Json.Proper
import CallScript.Proofs.Number.PlainText
import CallScript.World

/-! # Trees that are sent through JSON again

A tree that was read from JSON has finite numbers and is not too high (`isFinite_of_ofJsonText`), so its
own JSON is read again (`ofJsonText_resent`). Not every constant survives: minus zero is written as the
integer zero, and some doubles are read one unit off, which is seen when they are displayed
(`Literal.display_resent_iff`). A number that is written without loss survives (`survives_of_isPlain`). -/

namespace CallScript

open Number

/-! ## Constants -/

/-- Zero with a minus sign, which compares equal to zero and is printed as `-0`. -/
def Number.IsMinusZero (x : Float) : Prop :=
  ∃ e, exact x = .finite true 0 e

namespace Literal

variable {l : Literal} {x : Float}

/-- What comes back is the same constant, bit by bit. -/
def Survives : Literal → Prop
  | .number x => ¬ IsMinusZero x ∧ ReadsBack (.number x)
  | .string _ => True

/-- A string, or a number that is written without loss: a whole number that a mantissa holds, other than
minus zero, or a fraction whose decimal is short. -/
def IsPlain : Literal → Prop
  | .number x => (∃ n, toInt? x = some n ∧ n.natAbs < 2 ^ 53) ∧ ¬ IsMinusZero x ∨
      ∃ negative m e, exact x = .finite negative m e ∧ Json.IsShort (Json.writtenDecimal m e)
  | .string _ => True

theorem exact_ofInt_zero : exact (ofInt 0) = .finite false 0 (-1074) :=
  exact_ofBits (by decide) (by decide)

/-- The integer that a double equals is rounded to this double unless it is minus zero. -/
theorem ofInt_eq_iff {n : Int} (whole : toInt? x = some n) : ofInt n = x ↔ ¬ IsMinusZero x := by
  have zero (isZero : IsZero x) : n = 0 := by
    rw [toInt?_of_isZero isZero] at whole
    exact (Option.some.inj whole).symm
  constructor
  · rintro same ⟨e, value⟩
    obtain rfl := zero ⟨true, e, value⟩
    rw [← same, exact_ofInt_zero] at value
    cases value
  · intro noMinus
    rcases beq_iff.mp (ofInt_beq_of_toInt? whole) with ⟨-, same⟩ | ⟨-, isZero⟩
    · exact same
    · obtain rfl := zero isZero
      obtain ⟨negative, e, value⟩ := isZero
      obtain rfl : negative = false := by
        cases negative with
        | false => rfl
        | true => exact absurd ⟨e, value⟩ noMinus
      obtain ⟨-, -, -, normal⟩ := Exact.ofBits_finite value
      obtain rfl : e = -1074 := normal.resolve_left (by decide)
      exact exact_injective (exact_ofInt_zero.trans value.symm)
        (by rw [exact_ofInt_zero]; exact Exact.noConfusion)

theorem resent_eq_iff (finite : l.IsFinite) : l.resent = l ↔ l.Survives := by
  cases l with
  | string s => exact iff_of_true rfl trivial
  | number x =>
    rw [Survives]
    rcases resent_cases finite with ⟨n, written, -, whole, back⟩ | ⟨written, nonzero, y, read, back⟩
    · rw [back, Literal.number.injEq, ofInt_eq_iff whole, and_iff_left (readsBack_of_int written)]
    · have noMinus : ¬ IsMinusZero x := by
        rintro ⟨e, value⟩
        exact nonzero ⟨true, e, value⟩
      rw [back, Literal.number.injEq, and_iff_right noMinus, readsBack_iff finite written, read,
        Option.some.injEq]

theorem exists_resent_number (finite : x.isFinite = true) :
    ∃ y, (Literal.number x).resent = .number y ∧ y.isFinite = true := by
  rcases resent_cases finite with ⟨n, -, small, -, back⟩ | ⟨-, -, y, read, back⟩
  · exact ⟨_, back, Json.isFinite_ofInt (Nat.lt_trans small (by decide))⟩
  · exact ⟨_, back, Json.isFinite_of_rereadDouble read⟩

/-- What does not survive is displayed differently. -/
theorem display_resent_iff (finite : l.IsFinite) :
    l.resent.toValue.display = l.toValue.display ↔ l.Survives := by
  rw [← resent_eq_iff finite]
  constructor
  · intro same
    cases l with
    | string s => rfl
    | number x =>
      obtain ⟨y, back, finiteBack⟩ := exists_resent_number finite
      rw [back] at same ⊢
      simp only [toValue, Value.display, Layout.render, String.ofList_inj] at same
      rw [plainChars_injective finiteBack finite same]
  · intro same
    rw [same]

theorem survives_of_isPlain (finite : l.IsFinite) (plain : l.IsPlain) : l.Survives := by
  cases l with
  | string s => trivial
  | number x =>
    rcases plain with ⟨⟨n, whole, small⟩, noMinus⟩ | ⟨negative, m, e, value, short⟩
    · have written : Json.ofFloat x = .int n := by simp only [Json.ofFloat, whole, if_pos small]
      exact ⟨noMinus, readsBack_of_int written⟩
    · constructor
      · rintro ⟨f, minus⟩
        rw [minus] at value
        cases value
        exact Int.lt_irrefl 0 short.2.2
      · intro _
        exact (read_double finite).mpr (Json.rereadDouble_of_isShort value short)

end Literal

namespace Expr

variable {e : Expr}

mutual

theorem resent_eq_iff {e : Expr} (finite : e.Leaves Literal.IsFinite fun _ => True) :
    e.resent = e ↔ e.Leaves Literal.Survives fun _ => True := by
  match e with
  | .literal l =>
    rw [resent, Leaves, Expr.literal.injEq]
    exact Literal.resent_eq_iff finite
  | .word name => exact iff_of_true rfl trivial
  | .call operator args =>
    rw [resent, Leaves, Expr.call.injEq]
    exact and_congr (resent_eq_iff finite.1) (resentAll_eq_iff finite.2)

theorem resentAll_eq_iff {es : List Expr} (finite : LeavesAll Literal.IsFinite (fun _ => True) es) :
    resentAll es = es ↔ LeavesAll Literal.Survives (fun _ => True) es := by
  match es with
  | [] => exact iff_of_true rfl trivial
  | e :: es =>
    rw [resentAll, LeavesAll, List.cons.injEq]
    exact and_congr (resent_eq_iff finite.1) (resentAll_eq_iff finite.2)

end

theorem survives_of_isPlain (finite : e.IsFinite) (plain : e.Leaves Literal.IsPlain fun _ => True) :
    e.Leaves Literal.Survives fun _ => True :=
  leaves_imp (fun _ => Literal.survives_of_isPlain) (fun _ _ => id) finite plain

/-! ## What the decoder makes -/

theorem proper_of_lookup? {name : String} {json : Json} {members : List (String × Json)}
    (proper : Json.ProperMembers members) (found : Bindings.lookup? name members = some json) :
    json.Proper := by
  fun_induction Bindings.lookup? name members with
  | case1 => cases found
  | case2 =>
    cases found
    exact proper.1
  | case3 key old rest different ih => exact ih proper.2 found

mutual

/-- What a proper value represents is finite. -/
theorem Represents.isFinite {json : Json} {e : Expr} (represents : Represents json e)
    (proper : json.Proper) : e.IsFinite := by
  match e with
  | .literal _ =>
    cases represents with
    | string => trivial
    | @integer members n type value =>
      have range : -2 ^ 63 ≤ n ∧ n < 2 ^ 64 := proper_of_lookup? proper.1 value
      exact Json.isFinite_ofInt (by omega)
    | @double members x type value =>
      have finite : x.isFinite = true := proper_of_lookup? proper.1 value
      exact finite
  | .word _ => trivial
  | .call operator args =>
    cases represents with
    | call type first list represents each =>
      exact ⟨represents.isFinite (proper_of_lookup? proper.1 first),
        isFinite_of_forall₂ each (proper_of_lookup? proper.1 list)⟩

theorem isFinite_of_forall₂ {items : List Json} {es : List Expr}
    (each : List.Forall₂ Represents items es) (proper : Json.ProperAll items) :
    LeavesAll Literal.IsFinite (fun _ => True) es := by
  match es with
  | [] => trivial
  | e :: es =>
    cases each with
    | cons first others => exact ⟨first.isFinite proper.1, isFinite_of_forall₂ others proper.2⟩

end

theorem isFinite_of_readJson {text : List Char} {e : Expr} (decoded : readJson text = .ok e) :
    e.IsFinite ∧ e.height ≤ maxHeight := by
  obtain ⟨-, json, rest, ⟨taken, -⟩, decoded⟩ := readJson_eq_ok_iff.mp decoded
  obtain ⟨represents, low⟩ := ofJson_eq_ok_iff.mp decoded
  exact ⟨represents.isFinite (Json.proper_of_read taken), Nat.le_of_lt_succ low⟩

theorem isFinite_of_ofJsonText {text : String} {e : Expr} (decoded : ofJsonText text = .ok e) :
    e.IsFinite ∧ e.height ≤ maxHeight :=
  isFinite_of_readJson (ofJsonText_eq_ok_iff.mp decoded)

/-- The text of a constant whose number is written as a double. -/
theorem ofJsonText_of_double {text : String} {x : Float} (finite : x.isFinite = true)
    (reads : Json.rereadDouble x = some x)
    (written :
      text.toList = (Json.object [("type", .string "value"), ("value", .double x)]).chars) :
    ofJsonText text = .ok (.literal (.number x)) := by
  have proper : (Json.object [("type", .string "value"), ("value", .double x)]).Proper := by
    refine ⟨⟨trivial, finite, trivial⟩, ?_⟩
    simp only [List.map_cons, List.map_nil]
    decide
  rw [ofJsonText, written, readJson_chars proper]
  simp only [Json.reread, Json.rereadMembers, reads]
  rfl

/-! ## Sending a tree again -/

/-- A tree that was read from JSON is always read again. It comes back with each constant as its own
JSON is read, so it comes back the same if and only if every constant survives, and then it means the
same. A constant that does not survive is displayed differently. Strings survive, and so do numbers
that are written without loss. -/
theorem ofJsonText_resent {text : String} {e : Expr} (accepted : ofJsonText text = .ok e) :
    ofJsonText e.toJsonText = .ok e.resent ∧
    (e.resent = e ↔ e.Leaves Literal.Survives fun _ => True) ∧
    ((e.Leaves Literal.Survives fun _ => True) →
      ∀ (world : World) fuel scope, world.eval fuel e.resent scope = world.eval fuel e scope) ∧
    (e.Leaves (fun l => l.resent.toValue.display = l.toValue.display ↔ l.Survives) fun _ => True) ∧
    ((e.Leaves Literal.IsPlain fun _ => True) → e.Leaves Literal.Survives fun _ => True) := by
  obtain ⟨finite, low⟩ := isFinite_of_ofJsonText accepted
  have same := resent_eq_iff finite
  refine ⟨?_, same, ?_, ?_, survives_of_isPlain finite⟩
  · exact ofJsonText_of_height_le finite low
  · intro survives world fuel scope
    rw [same.mpr survives]
  · exact leaves_imp (fun _ constant _ => Literal.display_resent_iff constant) (fun _ _ => id) finite finite

/-- One half is spelled by a short decimal. -/
theorem half_survives :
    ∃ e, ofJsonText "\x7b\"type\":\"value\",\"value\":0.5\x7d" = .ok e ∧
      ofJsonText e.toJsonText = .ok e ∧
      ∀ (world : World) fuel scope, world.eval fuel e.resent scope = world.eval fuel e scope := by
  have value : exact 0.5 = .finite false (2 ^ 52) (-53) := by decide +kernel
  have short : Json.IsShort (Json.writtenDecimal (2 ^ 52) (-53)) := by
    have decimal : Json.writtenDecimal (2 ^ 52) (-53) = ⟨5, -1⟩ := by decide +kernel
    rw [decimal]
    exact ⟨by decide, by decide, by decide⟩
  have accepted : ofJsonText "\x7b\"type\":\"value\",\"value\":0.5\x7d" = .ok _ :=
    ofJsonText_of_double (isFinite_iff.mpr ⟨_, _, _, value⟩)
      (Json.rereadDouble_of_isShort value short) (by decide +kernel)
  obtain ⟨back, same, means, -, plain⟩ := ofJsonText_resent accepted
  have survives := plain (.inr ⟨_, _, _, value, short⟩)
  refine ⟨_, accepted, ?_, means survives⟩
  rw [back, same.mpr survives]

/-- Minus zero comes back as zero, which is printed without a sign. -/
theorem minusZero_loses_sign :
    ∃ e e' v v', ofJsonText "\x7b\"type\":\"value\",\"value\":-0.0\x7d" = .ok e ∧
      ofJsonText e.toJsonText = .ok e' ∧
      World.eval {} 1 e 0 = some (.ok v, {}) ∧ v.display = "-0" ∧
      World.eval {} 1 e' 0 = some (.ok v', {}) ∧ v'.display = "0" := by
  have value : exact (-0.0) = .finite true 0 (-1074) := by decide +kernel
  have finite := isFinite_iff.mpr ⟨_, _, _, value⟩
  have bits : (Json.rereadDouble (-0.0)).map Float.toBits = some (-0.0 : Float).toBits := by
    decide +kernel
  obtain ⟨y, reads, same⟩ := Option.map_eq_some_iff.mp bits
  obtain rfl := toBits_injective same
  have whole : toInt? (-0.0) = some 0 := toInt?_of_isZero ⟨true, _, value⟩
  have comes : (Expr.literal (.number (-0.0))).resent = .literal (.number (ofInt 0)) := by
    simp only [resent, Literal.resent, Literal.reread, Json.ofFloat, whole]
    rfl
  have back := ofJsonText_of_height_le (e := .literal (.number (-0.0))) finite (Nat.zero_le _)
  rw [comes] at back
  refine ⟨_, _, _, _, ofJsonText_of_double finite reads (by decide +kernel), back, rfl, ?_, rfl, ?_⟩
  · simp only [Literal.toValue, Value.display, Layout.render, plainChars_minusZero value]
  · simp only [Literal.toValue, Value.display]
    decide +kernel

end Expr

end CallScript
