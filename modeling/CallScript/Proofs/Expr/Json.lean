import CallScript.Expr.Json
import CallScript.Proofs.Expr.Leaves
import CallScript.Proofs.Json.Nesting
import CallScript.Proofs.Json.Reread
import CallScript.Proofs.Number.Integer

/-! # Trees through JSON

What reading the JSON of a tree gives (`readJson_toJson`): up to the largest height the tree, with each
constant as it comes back, and for higher trees a refusal, whether the bracket scan or the decoder
finds it out first. Every finite constant comes back as some constant, and as the same one except for
doubles that the reader of numbers does not read back. -/

namespace CallScript

/-! ## Constants -/

namespace Literal

/-- A string, or a number that is neither NaN nor infinite. -/
def IsFinite : Literal → Prop
  | .number x => x.isFinite = true
  | .string _ => True

/-- If the constant is written as a double, this is read as the same double. -/
def ReadsBack : Literal → Prop
  | .number x => Json.ofFloat x = .double x → Json.read (Json.double x).chars = some (.double x, [])
  | .string _ => True

/-- The constant that the JSON of a constant is read as. -/
def reread : Literal → Option Literal
  | .number x =>
    match Json.ofFloat x with
    | .int n => some (.number (Number.ofInt n))
    | .double y => (Json.rereadDouble y).map .number
    | _ => none
  | .string s => some (.string s)

/-- The constant that comes back from JSON. -/
def resent (l : Literal) : Literal :=
  l.reread.getD l

/-- A finite number is written as an integer that it equals, or as a double, which is not zero then. -/
theorem ofFloat_cases {x : Float} (finite : x.isFinite = true) :
    (∃ n, Json.ofFloat x = .int n ∧ n.natAbs < 2 ^ 53 ∧ Number.toInt? x = some n) ∨
      (Json.ofFloat x = .double x ∧ ¬ Number.IsZero x) := by
  rw [Json.ofFloat]
  split
  next n whole =>
    split
    next small => exact .inl ⟨n, rfl, small, whole⟩
    next large =>
      refine .inr ⟨rfl, ?_⟩
      intro zero
      rw [Number.toInt?_of_isZero zero] at whole
      cases whole
      exact large (by decide)
  next fraction =>
    rw [if_pos finite]
    refine .inr ⟨rfl, ?_⟩
    intro zero
    rw [Number.toInt?_of_isZero zero] at fraction
    cases fraction

theorem read_double {x : Float} (finite : x.isFinite = true) :
    Json.read (Json.double x).chars = some (.double x, []) ↔ Json.rereadDouble x = some x := by
  rw [Json.read_chars (.double x) finite, Json.reread]
  cases Json.rereadDouble x <;> simp

theorem readsBack_of_int {x : Float} {n : Int} (written : Json.ofFloat x = .int n) :
    (Literal.number x).ReadsBack := by
  intro other
  rw [written] at other
  cases other

theorem readsBack_iff {x : Float} (finite : x.isFinite = true) (written : Json.ofFloat x = .double x) :
    (Literal.number x).ReadsBack ↔ Json.rereadDouble x = some x := by
  rw [ReadsBack, forall_prop_of_true written, read_double finite]

/-- A finite number comes back as the nearest double to the integer it is written as, or as the double
that its digits are read as. -/
theorem resent_cases {x : Float} (finite : x.isFinite = true) :
    (∃ n, Json.ofFloat x = .int n ∧ n.natAbs < 2 ^ 53 ∧ Number.toInt? x = some n ∧
        (Literal.number x).resent = .number (Number.ofInt n)) ∨
      (Json.ofFloat x = .double x ∧ ¬ Number.IsZero x ∧
        ∃ y, Json.rereadDouble x = some y ∧ (Literal.number x).resent = .number y) := by
  rcases ofFloat_cases finite with ⟨n, written, small, whole⟩ | ⟨written, nonzero⟩
  · have back : (Literal.number x).resent = .number (Number.ofInt n) := by
      simp only [resent, reread, written, Option.getD_some]
    exact .inl ⟨n, written, small, whole, back⟩
  · obtain ⟨y, read⟩ := Option.isSome_iff_exists.mp (Json.rereadDouble_isSome finite)
    have back : (Literal.number x).resent = .number y := by
      simp only [resent, reread, written, read, Option.map_some, Option.getD_some]
    exact .inr ⟨written, nonzero, y, read, back⟩

/-- A finite constant comes back the same if and only if it reads back. -/
theorem resent_beq_iff {l : Literal} (finite : l.IsFinite) : (l.resent == l) = true ↔ l.ReadsBack := by
  cases l with
  | string s => exact iff_of_true (beq_self_eq_true s) trivial
  | number x =>
    rcases resent_cases finite with ⟨n, written, -, whole, back⟩ | ⟨written, nonzero, y, read, back⟩
    · have same : (Literal.number (Number.ofInt n) == .number x) = true :=
        Number.ofInt_beq_of_toInt? whole
      rw [back]
      exact iff_of_true same (readsBack_of_int written)
    · rw [back, readsBack_iff finite written, read, Option.some.injEq]
      constructor
      · intro same
        have equal : (y == x) = true := same
        rcases Number.beq_iff.mp equal with ⟨-, same⟩ | ⟨-, zero⟩
        · exact same
        · exact absurd zero nonzero
      · rintro rfl
        obtain ⟨negative, m, e, value⟩ := Number.isFinite_iff.mp finite
        exact Number.beq_self_of_number (by rw [value]; exact Number.Exact.noConfusion)

/-- Whether a double is read back can be found out from the bits. -/
theorem readsBack_of_toBits {x : Float} (finite : x.isFinite = true)
    (same : (Json.rereadDouble x).map Float.toBits = some x.toBits) :
    (Literal.number x).ReadsBack := by
  intro _
  obtain ⟨y, found, bits⟩ := Option.map_eq_some_iff.mp same
  rw [read_double finite, found, Number.toBits_injective bits]

theorem proper_toJson {l : Literal} (finite : l.IsFinite) : l.toJson.Proper := by
  cases l with
  | string s => trivial
  | number x =>
    rcases ofFloat_cases finite with ⟨n, written, small, -⟩ | ⟨written, -⟩
    · rw [toJson, written]
      exact ⟨by omega, by omega⟩
    · rw [toJson, written]
      exact finite

theorem depth_toJson {l : Literal} (finite : l.IsFinite) : l.toJson.depth = 0 := by
  cases l with
  | string s => rfl
  | number x =>
    rcases ofFloat_cases finite with ⟨n, written, -, -⟩ | ⟨written, -⟩ <;>
      · rw [toJson, written]
        rfl

end Literal

namespace Expr

/-- Every number of the tree is finite. -/
def IsFinite (e : Expr) : Prop :=
  e.Leaves Literal.IsFinite fun _ => True

/-- Every number of the tree that is written as a double is read as this double. -/
def ReadsBack (e : Expr) : Prop :=
  e.Leaves Literal.ReadsBack fun _ => True

/-! ## The written value -/

mutual

theorem proper_toJson {e : Expr} (finite : e.Leaves Literal.IsFinite fun _ => True) :
    e.toJson.Proper := by
  match e with
  | .literal l =>
    have sorted : ["type", "value"].Pairwise (· < ·) := by decide
    exact ⟨⟨trivial, Literal.proper_toJson finite, trivial⟩, sorted⟩
  | .word name =>
    have sorted : ["name", "type"].Pairwise (· < ·) := by decide
    exact ⟨⟨trivial, trivial, trivial⟩, sorted⟩
  | .call operator args =>
    have sorted : ["args", "operator", "type"].Pairwise (· < ·) := by decide
    exact ⟨⟨proper_toJsonAll finite.2, proper_toJson finite.1, trivial, trivial⟩, sorted⟩

theorem proper_toJsonAll {es : List Expr} (finite : LeavesAll Literal.IsFinite (fun _ => True) es) :
    Json.ProperAll (toJsonAll es) := by
  match es with
  | [] => trivial
  | e :: es => exact ⟨proper_toJson finite.1, proper_toJsonAll finite.2⟩

end

mutual

/-- Each level of calls adds an object and an array. -/
theorem depth_toJson_le {e : Expr} (finite : e.Leaves Literal.IsFinite fun _ => True) :
    e.toJson.depth ≤ 2 * e.height + 1 := by
  match e with
  | .literal l =>
    simp [toJson, Json.depth, Json.depthMembers, Literal.depth_toJson finite]
  | .word name => simp [toJson, Json.depth, Json.depthMembers]
  | .call operator args =>
    have inside := depthAll_toJsonAll_le finite.2
    have before := depth_toJson_le finite.1
    simp only [toJson, Json.depth, Json.depthMembers, height]
    omega

theorem depthAll_toJsonAll_le {es : List Expr}
    (finite : LeavesAll Literal.IsFinite (fun _ => True) es) :
    Json.depthAll (toJsonAll es) ≤ 2 * heightAll es + 1 := by
  match es with
  | [] => exact Nat.zero_le _
  | e :: es =>
    have first := depth_toJson_le finite.1
    have others := depthAll_toJsonAll_le finite.2
    simp only [toJsonAll, Json.depthAll, heightAll]
    omega

end

/-! ## Reading it -/

mutual

/-- The tree that comes back from JSON: the same, with each constant as it comes back. -/
def resent : Expr → Expr
  | .literal l => .literal l.resent
  | .word name => .word name
  | .call operator args => .call (resent operator) (resentAll args)

/-- `resent` of every tree in a list. -/
def resentAll : List Expr → List Expr
  | [] => []
  | e :: es => resent e :: resentAll es

end

/-- The decoder makes this tree of the value if it may use more levels than `height`. -/
def DecodesTo (height : Nat) (json : Json) (e : Expr) : Prop :=
  ∀ levels, ofJson levels json = if height < levels then .ok e else .error .tooDeep

/-- `DecodesTo` of the values in a list. -/
def DecodeTo (height : Nat) (items : List Json) (es : List Expr) : Prop :=
  ∀ levels, 0 < levels →
    items.mapM (ofJson levels) = if height < levels then .ok es else .error .tooDeep

theorem decodesTo_literal {l : Literal} (finite : l.IsFinite) :
    ∃ json, (Expr.literal l).toJson.reread = some json ∧ DecodesTo 0 json (.literal l.resent) := by
  cases l with
  | string s =>
    refine ⟨_, rfl, ?_⟩
    intro levels
    cases levels <;> rfl
  | number x =>
    rcases Literal.resent_cases finite with ⟨n, written, -, -, back⟩ | ⟨written, -, y, read, back⟩
    · rw [toJson, Literal.toJson, written, back]
      refine ⟨_, rfl, ?_⟩
      intro levels
      cases levels <;> rfl
    · rw [toJson, Literal.toJson, written, back]
      simp only [Json.reread, Json.rereadMembers, read]
      refine ⟨_, rfl, ?_⟩
      intro levels
      cases levels <;> rfl

/-- Two parts are decoded if there are levels enough for both of them. -/
theorem bind_eq_of_levels {α β γ : Type} {levels m n : Nat} {x : Except JsonFault α}
    {y : Except JsonFault β} {a : α} {b : β} (f : α → β → γ)
    (first : x = if m < levels then .ok a else .error .tooDeep)
    (second : m < levels → y = if n < levels then .ok b else .error .tooDeep) :
    (do
      let a ← x
      let b ← y
      return f a b) = if max m n < levels then .ok (f a b) else .error .tooDeep := by
  rw [first]
  by_cases enough : m < levels
  · rw [if_pos enough, second enough]
    by_cases both : n < levels
    · rw [if_pos both, if_pos (Nat.max_lt.mpr ⟨enough, both⟩)]
      rfl
    · rw [if_neg both, if_neg fun all => both (Nat.max_lt.mp all).2]
      rfl
  · rw [if_neg enough, if_neg fun all => enough (Nat.max_lt.mp all).1]
    rfl

theorem decodesTo_call {operator : Json} {items : List Json} {f : Expr} {es : List Expr}
    {m n : Nat} (function : DecodesTo m operator f) (list : DecodeTo n items es) :
    DecodesTo (1 + max m n)
      (.object [("args", .array items), ("operator", operator), ("type", .string "apply")])
      (.call f es) := by
  intro levels
  cases levels with
  | zero => rfl
  | succ levels =>
    have both := bind_eq_of_levels Expr.call (function levels) fun some =>
      list levels (Nat.zero_lt_of_lt some)
    rw [Nat.add_comm 1]
    simp only [Nat.succ_lt_succ_iff]
    exact both

theorem decodeTo_cons {item : Json} {items : List Json} {e : Expr} {es : List Expr} {m n : Nat}
    (first : DecodesTo m item e) (others : DecodeTo n items es) :
    DecodeTo (max m n) (item :: items) (e :: es) := by
  intro levels positive
  rw [List.mapM_cons]
  exact bind_eq_of_levels List.cons (first levels) fun _ => others levels positive

mutual

theorem decodesTo_toJson {e : Expr} (finite : e.Leaves Literal.IsFinite fun _ => True) :
    ∃ json, e.toJson.reread = some json ∧ DecodesTo e.height json e.resent := by
  match e with
  | .literal l => exact decodesTo_literal finite
  | .word name =>
    refine ⟨_, rfl, ?_⟩
    intro levels
    cases levels <;> rfl
  | .call operator args =>
    obtain ⟨items, readAll, list⟩ := decodeTo_toJsonAll finite.2
    obtain ⟨json, read, function⟩ := decodesTo_toJson finite.1
    simp only [toJson, Json.reread, Json.rereadMembers, readAll, read]
    exact ⟨_, rfl, decodesTo_call function list⟩

theorem decodeTo_toJsonAll {es : List Expr} (finite : LeavesAll Literal.IsFinite (fun _ => True) es) :
    ∃ items, Json.rereadAll (toJsonAll es) = some items ∧
      DecodeTo (heightAll es) items (resentAll es) := by
  match es with
  | [] =>
    refine ⟨_, rfl, ?_⟩
    intro levels positive
    rw [heightAll, if_pos positive]
    rfl
  | e :: es =>
    obtain ⟨item, read, first⟩ := decodesTo_toJson finite.1
    obtain ⟨items, readAll, others⟩ := decodeTo_toJsonAll finite.2
    simp only [toJsonAll, Json.rereadAll, read, readAll]
    exact ⟨_, rfl, decodeTo_cons first others⟩

end

/-- Reading the text of a value. -/
theorem readJson_chars {json : Json} (proper : json.Proper) :
    readJson json.chars =
      if maxNesting < json.depth then .error .tooDeep
      else
        match json.reread with
        | none => .error .invalid
        | some value => ofJson (maxHeight + 1) value := by
  have some : (Json.skipSpace json.chars).isEmpty = false := by
    obtain ⟨c, cs, chars, noSpace, -⟩ := Json.exists_chars_cons proper
    rw [chars, Json.skipSpace_cons noSpace]
    rfl
  rw [readJson, Json.nestingExceeds_chars proper, Json.read_chars json proper]
  simp only [decide_eq_true_eq, some, Bool.false_eq_true, if_false]
  cases json.reread <;> rfl

/-- Reading the JSON of a tree. -/
theorem readJson_toJson {e : Expr} (finite : e.IsFinite) :
    readJson e.toJson.chars =
      if e.height ≤ maxHeight then .ok e.resent else .error .tooDeep := by
  have depth := depth_toJson_le finite
  obtain ⟨json, read, decodes⟩ := decodesTo_toJson finite
  rw [readJson_chars (proper_toJson finite), read]
  by_cases deep : maxNesting < e.toJson.depth
  · -- the decoder would refuse the tree as well
    have high : ¬ e.height ≤ maxHeight := by
      rw [maxNesting] at deep
      omega
    rw [if_pos deep, if_neg high]
  · rw [if_neg deep]
    exact (decodes (maxHeight + 1)).trans (if_congr Nat.lt_succ_iff rfl rfl)

/-! ## The same tree -/

mutual

/-- The same tree comes back if and only if its constants read back. -/
theorem same_resent_iff {e : Expr} (finite : e.Leaves Literal.IsFinite fun _ => True) :
    same e.resent e = true ↔ e.Leaves Literal.ReadsBack fun _ => True := by
  match e with
  | .literal l =>
    rw [resent, same, Leaves]
    exact Literal.resent_beq_iff finite
  | .word name =>
    have names : (name == name) = true := beq_self_eq_true name
    exact iff_of_true names trivial
  | .call operator args =>
    rw [resent, same, Bool.and_eq_true, Leaves]
    exact and_congr (same_resent_iff finite.1) (sameAll_resentAll_iff finite.2)

theorem sameAll_resentAll_iff {es : List Expr}
    (finite : LeavesAll Literal.IsFinite (fun _ => True) es) :
    sameAll (resentAll es) es = true ↔ LeavesAll Literal.ReadsBack (fun _ => True) es := by
  match es with
  | [] => exact iff_of_true rfl trivial
  | e :: es =>
    rw [resentAll, sameAll, Bool.and_eq_true, LeavesAll]
    exact and_congr (same_resent_iff finite.1) (sameAll_resentAll_iff finite.2)

end

/-! ## The round trip -/

theorem ofJsonText_toJsonText_eq {e : Expr} (finite : e.IsFinite) :
    ofJsonText e.toJsonText =
      if e.height ≤ maxHeight then .ok e.resent else .error JsonFault.tooDeep.toSyntaxError := by
  rw [ofJsonText, toJsonText, Json.compact, String.toList_ofList, readJson_toJson finite]
  split <;> rfl

theorem ofJsonText_of_height_le {e : Expr} (finite : e.IsFinite) (low : e.height ≤ maxHeight) :
    ofJsonText e.toJsonText = .ok e.resent := by
  rw [ofJsonText_toJsonText_eq finite, if_pos low]

/-- A tree that is too high is refused for its nesting. -/
theorem ofJsonText_of_high {e : Expr} (finite : e.IsFinite) (high : maxHeight < e.height) :
    ∃ error, ofJsonText e.toJsonText = .error error ∧ error.kind = .tooDeeplyNested := by
  rw [ofJsonText_toJsonText_eq finite, if_neg (Nat.not_le_of_lt high)]
  exact ⟨_, rfl, rfl⟩

/-- The same tree comes back if and only if it is not too high and its doubles are read back. -/
theorem exists_ofJsonText_iff {e : Expr} (finite : e.IsFinite) :
    (∃ e', ofJsonText e.toJsonText = .ok e' ∧ (e' == e) = true) ↔
      e.height ≤ maxHeight ∧ e.ReadsBack := by
  have back : (e.resent == e) = true ↔ e.ReadsBack := same_resent_iff finite
  rw [← back]
  constructor
  · rintro ⟨e', found, same⟩
    rcases Nat.lt_or_ge maxHeight e.height with high | low
    · obtain ⟨error, refused, -⟩ := ofJsonText_of_high finite high
      rw [refused] at found
      cases found
    · rw [ofJsonText_of_height_le finite low] at found
      cases found
      exact ⟨low, same⟩
  · rintro ⟨low, same⟩
    exact ⟨_, ofJsonText_of_height_le finite low, same⟩

/-- A tree whose numbers are finite, and read back where they are written as doubles, survives JSON up
to the largest height, whatever its words and strings hold. A higher tree is refused for its nesting,
whether its numbers read back or not. -/
theorem ofJsonText_toJsonText {e : Expr} (finite : e.IsFinite) :
    (e.height ≤ maxHeight → e.ReadsBack →
      ∃ e', ofJsonText e.toJsonText = .ok e' ∧ (e' == e) = true) ∧
    (maxHeight < e.height →
      ∃ error, ofJsonText e.toJsonText = .error error ∧ error.kind = .tooDeeplyNested) := by
  constructor
  · intro low reads
    exact (exists_ofJsonText_iff finite).mpr ⟨low, reads⟩
  · exact ofJsonText_of_high finite

/-- Brackets, a quote and a backslash in words and strings, and a number that is written as a double. -/
theorem brackets_survive :
    ∃ e', ofJsonText (toJsonText
        (.call (.word "[\"") [.literal (.string "]\\"), .literal (.number 0.5)])) = .ok e' ∧
      (e' == .call (.word "[\"") [.literal (.string "]\\"), .literal (.number 0.5)]) = true := by
  have half : (0.5 : Float).isFinite = true := by decide +kernel
  refine (ofJsonText_toJsonText ?_).1 (by decide) ?_
  · exact ⟨trivial, trivial, half, trivial⟩
  · exact ⟨trivial, trivial, Literal.readsBack_of_toBits half (by decide +kernel), trivial⟩

end Expr

end CallScript
