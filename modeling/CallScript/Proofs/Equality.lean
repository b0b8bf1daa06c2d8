import CallScript.Proofs.Builtin
import CallScript.Proofs.Eval.Identity
import CallScript.Proofs.Number.Double

/-! # Equality of values

Equality is symmetric and transitive, and a value is equal to itself unless it has a NaN in it, at
whatever depth (`equality_is_partial_equivalence`). The proofs go by `Equal`, which says of each variant
what equality comes to. -/

namespace CallScript

/-- The ways to make a value. Two of them make functions. -/
inductive Variant where
  | number
  | string
  | boolean
  | array
  | builtin
  | closure
deriving DecidableEq

namespace Value

def variant : Value → Variant
  | .number _ => .number
  | .string _ => .string
  | .boolean _ => .boolean
  | .array _ => .array
  | .builtin _ _ => .builtin
  | .closure _ => .closure

/-- There is a NaN in the value, itself or inside arrays. -/
inductive HasNaN : Value → Prop where
  | number {x : Float} (nan : x.isNaN = true) : HasNaN (.number x)
  | item {items : List Value} {v : Value} (member : v ∈ items) (inside : HasNaN v) :
      HasNaN (.array items)

/-- Two values are equal. -/
inductive Equal : Value → Value → Prop where
  | number {x y : Float} (equal : (x == y) = true) : Equal (.number x) (.number y)
  | string (s : String) : Equal (.string s) (.string s)
  | boolean (b : Bool) : Equal (.boolean b) (.boolean b)
  | array {vs ws : List Value} (items : List.Forall₂ Equal vs ws) : Equal (.array vs) (.array ws)
  | builtin (name : String) (i j : OperationId) : Equal (.builtin name i) (.builtin name j)
  | closure {c d : Closure} (serials : c.serial = d.serial) : Equal (.closure c) (.closure d)

variable {u v w : Value} {us vs ws : List Value}

/-! ## What is compared -/

mutual

theorem equal_of_same {v w : Value} (same : v.same w = true) : Equal v w := by
  match v, w with
  | .number x, .number y => exact .number same
  | .string s, .string t =>
    obtain rfl : s = t := beq_iff_eq.mp same
    exact .string s
  | .boolean a, .boolean b =>
    obtain rfl : a = b := beq_iff_eq.mp same
    exact .boolean a
  | .array vs, .array ws => exact .array (equal_of_sameAll same)
  | .builtin a i, .builtin b j =>
    obtain rfl : a = b := beq_iff_eq.mp same
    exact .builtin a i j
  | .closure c, .closure d => exact .closure (beq_iff_eq.mp same)

theorem equal_of_sameAll {vs ws : List Value} (same : sameAll vs ws = true) :
    List.Forall₂ Equal vs ws := by
  match vs, ws with
  | [], [] => exact .nil
  | v :: vs, w :: ws =>
    obtain ⟨first, others⟩ := Bool.and_eq_true_iff.mp same
    exact .cons (equal_of_same first) (equal_of_sameAll others)

end

mutual

theorem same_of_equal {v w : Value} (h : Equal v w) : v.same w = true := by
  cases h with
  | number equal => exact equal
  | string s => exact beq_self_eq_true s
  | boolean b => exact beq_self_eq_true b
  | array items => exact sameAll_of_equal items
  | builtin name i j => exact beq_self_eq_true name
  | closure serials => exact beq_iff_eq.mpr serials

theorem sameAll_of_equal {vs ws : List Value} (h : List.Forall₂ Equal vs ws) :
    sameAll vs ws = true := by
  cases h with
  | nil => rfl
  | cons first others =>
    exact Bool.and_eq_true_iff.mpr ⟨same_of_equal first, sameAll_of_equal others⟩

end

theorem beq_iff_equal : (v == w) = true ↔ Equal v w :=
  ⟨equal_of_same, same_of_equal⟩

theorem beq_array_iff :
    (array vs == array ws) = true ↔ List.Forall₂ (fun v w => (v == w) = true) vs ws := by
  simp only [beq_iff_equal]
  constructor
  · intro h
    cases h with
    | array items => exact items
  · exact Equal.array

theorem beq_closure_iff {c d : Closure} :
    (closure c == closure d) = true ↔ c.serial = d.serial := by
  rw [beq_iff_equal]
  constructor
  · intro h
    cases h with
    | closure serials => exact serials
  · exact Equal.closure

/-! ## The laws of equality -/

mutual

theorem Equal.symm {v w : Value} (h : Equal v w) : Equal w v := by
  cases h with
  | number equal => exact .number (Number.beq_symm equal)
  | string s => exact .string s
  | boolean b => exact .boolean b
  | array items => exact .array (Equal.symm_all items)
  | builtin name i j => exact .builtin name j i
  | closure serials => exact .closure serials.symm

theorem Equal.symm_all {vs ws : List Value} (h : List.Forall₂ Equal vs ws) :
    List.Forall₂ Equal ws vs := by
  cases h with
  | nil => exact .nil
  | cons first others => exact .cons first.symm (Equal.symm_all others)

end

mutual

theorem Equal.trans {u v w : Value} (first : Equal u v) (second : Equal v w) : Equal u w := by
  cases first with
  | number equal =>
    cases second with
    | number equal' => exact .number (Number.beq_trans equal equal')
  | string s => exact second
  | boolean b => exact second
  | array items =>
    cases second with
    | array items' => exact .array (Equal.trans_all items items')
  | builtin name i j =>
    cases second with
    | builtin _ _ k => exact .builtin name i k
  | closure serials =>
    cases second with
    | closure serials' => exact .closure (serials.trans serials')

theorem Equal.trans_all {us vs ws : List Value} (first : List.Forall₂ Equal us vs)
    (second : List.Forall₂ Equal vs ws) : List.Forall₂ Equal us ws := by
  cases first with
  | nil => exact second
  | cons head tail =>
    cases second with
    | cons head' tail' => exact .cons (head.trans head') (Equal.trans_all tail tail')

end

mutual

theorem equal_self {v : Value} (free : ¬ v.HasNaN) : Equal v v := by
  match v with
  | .number x => exact .number (Number.beq_self_iff.mpr fun nan => free (.number nan))
  | .string s => exact .string s
  | .boolean b => exact .boolean b
  | .array items => exact .array (equal_self_all fun v member inside => free (.item member inside))
  | .builtin name i => exact .builtin name i i
  | .closure c => exact .closure rfl

theorem equal_self_all {vs : List Value} (free : ∀ v ∈ vs, ¬ v.HasNaN) :
    List.Forall₂ Equal vs vs := by
  match vs with
  | [] => exact .nil
  | v :: vs =>
    obtain ⟨first, others⟩ := List.forall_mem_cons.mp free
    exact .cons (equal_self first) (equal_self_all others)

end

/-- A NaN makes the arrays around it differ from themselves. -/
theorem HasNaN.not_equal_self (nan : v.HasNaN) : ¬ Equal v v := by
  induction nan with
  | number nan =>
    intro h
    cases h with
    | number equal => exact Number.beq_self_iff.mp equal nan
  | item member _ ih =>
    intro h
    cases h with
    | array items => exact ih (List.forall₂_same.mp items _ member)

theorem equal_self_iff : Equal v v ↔ ¬ v.HasNaN :=
  ⟨fun h nan => nan.not_equal_self h, equal_self⟩

theorem Equal.variant_eq (h : Equal v w) : v.variant = w.variant := by
  cases h <;> rfl

theorem beq_comm (v w : Value) : (v == w) = (w == v) := by
  rw [Bool.eq_iff_iff, beq_iff_equal, beq_iff_equal]
  exact ⟨Equal.symm, Equal.symm⟩

end Value

theorem ValueType.name_injective {s t : ValueType} (h : s.name = t.name) : s = t := by
  cases s <;> cases t <;> first | rfl | exact absurd h (by decide)

/-! ## Closures and the builtin -/

namespace World

variable {world : World} {values : List Value} {c d : Closure} {f : Value}

/-- Among the closures that a host has, only the same closure is equal. -/
theorem History.beq_closure_iff (history : History world values) (hc : world.Has values c)
    (hd : world.Has values d) : (Value.closure c == .closure d) = true ↔ c = d := by
  rw [Value.beq_closure_iff]
  constructor
  · exact history.eq_of_serial hc hd
  · intro same
    rw [same]

theorem History.new_closure_ne (history : History world values) (has : world.Has values c)
    (params : List String) (body : Expr) (scope : ScopeId) :
    ((world.store.newClosure params body scope).1 == .closure c) = false := by
  rw [Bool.eq_false_iff]
  intro equal
  have serials : world.store.closures = c.serial := Value.beq_closure_iff.mp equal
  exact absurd (history.serial_lt has) (Nat.not_lt_of_le serials.le)

theorem OffersPrelude.equal (offers : world.OffersPrelude "==" f) :
    world.Offers f (.binary .any .any Prelude.equal) :=
  offers.offers (by simp [Prelude.operations])

/-- The builtin for equality compares values whose types have one name. -/
theorem OffersPrelude.answers_equal (offers : world.OffersPrelude "==" f) {a b : Value}
    (types : a.type.name = b.type.name) : world.Answers f [a, b] (.ok (.boolean (a == b))) := by
  have answers := offers.equal.answers_test a b
  rwa [Prelude.equal, if_pos (ValueType.name_injective types)] at answers

theorem OffersPrelude.refuses_equal (offers : world.OffersPrelude "==" f) {a b : Value}
    (types : a.type.name ≠ b.type.name) :
    world.Answers f [a, b] (.error (.typeError (.cannotCombine "==" a.type b.type))) := by
  have answers := offers.equal.answers_test a b
  rwa [Prelude.equal, if_neg fun same => types (congrArg ValueType.name same)] at answers

end World

/-- Equality is symmetric and transitive, and a value is equal to itself if and only if there is no NaN
in it. Arrays are equal if they have the same length and equal items at each place. Closures are equal if
they have the same serial; of the closures that a host has in the course of its history that is so only
of the same closure, and one that is made next is equal to none of them. Values of different variants
are never equal. The builtin yields all this if the types of its arguments have one name, and fails
otherwise; in both cases the order of the arguments makes no difference. -/
theorem equality_is_partial_equivalence :
    (∀ v w : Value, (v == w) = true → (w == v) = true) ∧
    (∀ u v w : Value, (u == v) = true → (v == w) = true → (u == w) = true) ∧
    (∀ v : Value, (v == v) = true ↔ ¬ v.HasNaN) ∧
    (∀ vs ws : List Value, (Value.array vs == .array ws) = true ↔
      vs.length = ws.length ∧
        ∀ i (_ : i < vs.length) (_ : i < ws.length), (vs[i] == ws[i]) = true) ∧
    (∀ c d : Closure, (Value.closure c == .closure d) = true ↔ c.serial = d.serial) ∧
    (∀ world values, World.History world values → ∀ c, world.Has values c →
      (∀ d, world.Has values d → ((Value.closure c == .closure d) = true ↔ c = d)) ∧
      ∀ params body scope,
        ((world.store.newClosure params body scope).1 == .closure c) = false) ∧
    (∀ v w : Value, v.variant ≠ w.variant → (v == w) = false) ∧
    ∀ (world : World) (f : Value), world.OffersPrelude "==" f → ∀ a b : Value,
      (a.type.name = b.type.name →
        world.Answers f [a, b] (.ok (.boolean (a == b))) ∧
          world.Answers f [b, a] (.ok (.boolean (a == b)))) ∧
      (a.type.name ≠ b.type.name →
        world.Answers f [a, b] (.error (.typeError (.cannotCombine "==" a.type b.type))) ∧
          world.Answers f [b, a] (.error (.typeError (.cannotCombine "==" b.type a.type)))) := by
  refine ⟨?symm, ?trans, ?self, ?arrays, fun _ _ => Value.beq_closure_iff, ?closures, ?variants,
    ?builtin⟩
  case symm =>
    intro v w equal
    rw [Value.beq_comm]
    exact equal
  case trans =>
    intro u v w first second
    rw [Value.beq_iff_equal] at first second ⊢
    exact first.trans second
  case self =>
    intro v
    rw [Value.beq_iff_equal]
    exact Value.equal_self_iff
  case arrays =>
    intro vs ws
    rw [Value.beq_array_iff]
    exact List.forall₂_iff_get
  case closures =>
    intro world values history c hc
    exact ⟨fun d hd => history.beq_closure_iff hc hd, history.new_closure_ne hc⟩
  case variants =>
    intro v w different
    rw [Bool.eq_false_iff]
    intro equal
    exact different (Value.beq_iff_equal.mp equal).variant_eq
  case builtin =>
    intro world f offers a b
    constructor
    · intro types
      refine ⟨offers.answers_equal types, ?_⟩
      rw [Value.beq_comm]
      exact offers.answers_equal types.symm
    · intro types
      exact ⟨offers.refuses_equal types, offers.refuses_equal types.symm⟩

/-- Zeros of either sign are equal, in arrays as well, and NaN is not equal to itself. A function is
equal to itself, but not to one that is made of the same parts later. -/
theorem zeros_are_equal_and_functions_are_not :
    let zero := Value.array [.number 0, .string "a"]
    let minus := Value.array [.number (-0), .string "a"]
    (minus == zero) = true ∧ (minus == minus) = true ∧
    (Value.array [zero, .number (0 / 0)] == .array [zero, .number (0 / 0)]) = false ∧
    (zero == .string "a") = false ∧
    (∃ world values c, World.History world values ∧ .closure c ∈ values ∧
      (Value.closure c == .closure c) = true ∧
      ((world.store.newClosure c.params c.body c.scope).1 == .closure c) = false) ∧
    ∃ (world : World) (f : Value), world.OffersPrelude "==" f ∧
      world.Answers f [zero, minus] (.ok (.boolean true)) ∧
      world.Answers f [minus, .boolean true]
        (.error (.typeError (.cannotCombine "==" .array .boolean))) := by
  intro zero minus
  obtain ⟨symm, trans, self, -, -, closures, variants, builtin⟩ := equality_is_partial_equivalence
  have equal : (zero == minus) = true := by decide
  have equal' : (minus == zero) = true := symm zero minus equal
  refine ⟨equal', trans minus zero minus equal' equal, ?_, variants _ _ (by decide), ?_, ?_⟩
  · have nan : (Value.array [zero, .number (0 / 0)]).HasNaN :=
      .item (List.mem_cons_of_mem _ List.mem_cons_self) (.number (by decide))
    rw [Bool.eq_false_iff]
    exact fun reflexive => (self _).mp reflexive nan
  · obtain ⟨c, after, made⟩ : ∃ c after, World.eval {} 1 (.call (.word "fun") [.word "x"]) 0 =
      some (.ok (.closure c), after) := ⟨_, _, rfl⟩
    have history : World.History after [.closure c] := .eval .new made
    have has : after.Has [.closure c] c := .inl ⟨_, List.mem_cons_self, .closure⟩
    obtain ⟨only, new⟩ := closures after _ history c has
    exact ⟨after, _, c, history, List.mem_cons_self, (only c has).mpr rfl, new _ _ _⟩
  · obtain ⟨f, -, offers⟩ := World.newGlobal_offers {} "==" (by decide)
    refine ⟨_, f, offers, ?_, ((builtin _ f offers minus (.boolean true)).2 (by decide)).1⟩
    have answers := ((builtin _ f offers zero minus).1 rfl).1
    rwa [equal] at answers

end CallScript
