import CallScript.Proofs.Eval.Parts
import CallScript.Proofs.Source.Recognition
import CallScript.Proofs.World
import Mathlib.Data.List.Induction

/-! # Trees one by one

Trees in sequence end exactly as they do when they are evaluated one after the other, up to the first
that fails (`evaluatesSequence_iff_oneByOne`). The parts of a sequence share one bound, and trees that
are evaluated one by one have one each, so evaluation is taken here as ending within some bound. -/

namespace CallScript.World

variable {world next after : World} {scope : ScopeId} {e : Expr} {es : List Expr} {v : Value}
  {result : Except Error Value}

/-- The evaluation of a tree ends. -/
def Evaluates (world : World) (e : Expr) (scope : ScopeId) (result : Except Error Value)
    (after : World) : Prop :=
  ∃ fuel, world.eval fuel e scope = some (result, after)

/-- Trees are evaluated one after the other, and each of them has a value. -/
inductive InTurn (scope : ScopeId) : World → List Expr → List Value → World → Prop where
  | nil {world : World} : InTurn scope world [] [] world
  | cons {world next after : World} {e : Expr} {es : List Expr} {v : Value} {vs : List Value}
      (first : world.Evaluates e scope (.ok v) next) (others : InTurn scope next es vs after) :
      InTurn scope world (e :: es) (v :: vs) after

/-- Trees are evaluated one after the other up to the first that fails, and the others are not. -/
def StopsAt (world : World) (scope : ScopeId) (es : List Expr) (error : Error) (after : World) :
    Prop :=
  ∃ done e rest vs next, es = done ++ e :: rest ∧ InTurn scope world done vs next ∧
    next.Evaluates e scope (.error error) after

/-- Trees are evaluated one after the other: all of them, with the value of the last one as the
result, or those up to the first that fails, with its error. -/
def OneByOne (world : World) (scope : ScopeId) (es : List Expr) (result : Except Error Value)
    (after : World) : Prop :=
  (∃ vs v, InTurn scope world es (vs ++ [v]) after ∧ result = .ok v) ∨
    ∃ error, world.StopsAt scope es error after ∧ result = .error error

theorem inTurn_cons_iff {vs : List Value} :
    InTurn scope world (e :: es) vs after ↔
      ∃ w next ws, world.Evaluates e scope (.ok w) next ∧ InTurn scope next es ws after ∧
        vs = w :: ws := by
  constructor
  · rintro (_ | ⟨first, others⟩)
    exact ⟨_, _, _, first, others, rfl⟩
  · rintro ⟨w, next, ws, first, others, rfl⟩
    exact .cons first others

theorem not_stopsAt_nil {error : Error} : ¬ world.StopsAt scope [] error after := by
  rintro ⟨done, e, rest, vs, next, split, -⟩
  exact List.append_ne_nil_of_right_ne_nil done (List.cons_ne_nil e rest) split.symm

theorem stopsAt_cons_iff {error : Error} :
    world.StopsAt scope (e :: es) error after ↔
      world.Evaluates e scope (.error error) after ∨
        ∃ w next, world.Evaluates e scope (.ok w) next ∧ next.StopsAt scope es error after := by
  constructor
  · rintro ⟨done, failing, rest, vs, next, split, before, fails⟩
    cases before with
    | nil =>
      cases split
      exact .inl fails
    | cons first others =>
      cases split
      exact .inr ⟨_, _, first, _, failing, rest, _, next, rfl, others, fails⟩
  · rintro (fails | ⟨w, next, first, done, failing, rest, vs, last, rfl, others, fails⟩)
    · exact ⟨[], e, es, [], world, rfl, .nil, fails⟩
    · exact ⟨e :: done, failing, rest, w :: vs, last, rfl, .cons first others, fails⟩

/-! ## Sequences -/

theorem runOn_bind_eq_some_iff {α β : Type} {x : Run α} {f : α → Run β} {result : Except Error β} :
    world.runOn (x >>= f) = some (result, after) ↔
      (∃ a next, world.runOn x = some (.ok a, next) ∧ next.runOn (f a) = some (result, after)) ∨
        ∃ e, world.runOn x = some (.error e, after) ∧ result = .error e := by
  rw [runOn_eq_some_iff, Run.bind_eq_some_iff]
  constructor
  · rintro ⟨⟨a, store, first, second⟩ | ⟨e, fails, same⟩, kept⟩
    · exact .inl ⟨a, ⟨world.operations, store⟩, runOn_eq_some_iff.mpr ⟨first, rfl⟩,
        runOn_eq_some_iff.mpr ⟨second, kept⟩⟩
    · exact .inr ⟨e, runOn_eq_some_iff.mpr ⟨fails, kept⟩, same⟩
  · rintro (⟨a, next, first, second⟩ | ⟨e, fails, same⟩)
    · obtain ⟨first, kept⟩ := runOn_eq_some_iff.mp first
      obtain ⟨second, kept'⟩ := runOn_eq_some_iff.mp second
      exact ⟨.inl ⟨a, next.store, first, second⟩, kept'.trans kept⟩
    · obtain ⟨fails, kept⟩ := runOn_eq_some_iff.mp fails
      exact ⟨.inr ⟨e, fails, same⟩, kept⟩

/-- The evaluation of trees in sequence ends; `v` is the value before the first of them. -/
def EvaluatesSequence (world : World) (v : Value) (es : List Expr) (scope : ScopeId)
    (result : Except Error Value) (after : World) : Prop :=
  ∃ fuel, world.runOn (evalSequence (CallScript.eval world.operations fuel) scope v es) =
    some (result, after)

theorem operations_of_eval {fuel : Nat} (ends : world.eval fuel e scope = some (result, after)) :
    after.operations = world.operations :=
  (runOn_eq_some_iff.mp ends).2

theorem runOn_mono {α : Type} {x y : Run α} {result : Except Error α} (below : x.Below y)
    (ends : world.runOn x = some (result, after)) : world.runOn y = some (result, after) := by
  obtain ⟨ends, kept⟩ := runOn_eq_some_iff.mp ends
  exact runOn_eq_some_iff.mpr ⟨below _ _ ends, kept⟩

theorem eval_of_le {fuel fuel' : Nat} (larger : fuel ≤ fuel')
    (ends : world.eval fuel e scope = some (result, after)) :
    world.eval fuel' e scope = some (result, after) :=
  runOn_mono (eval_mono world.operations larger e scope) ends

theorem evaluatesSequence_nil_iff :
    world.EvaluatesSequence v [] scope result after ↔ result = .ok v ∧ after = world := by
  constructor
  · rintro ⟨fuel, ⟨⟩⟩
    exact ⟨rfl, rfl⟩
  · rintro ⟨rfl, rfl⟩
    exact ⟨0, rfl⟩

/-- A sequence ends if its first tree fails, or if this has a value and the others end. -/
theorem evaluatesSequence_cons_iff :
    world.EvaluatesSequence v (e :: es) scope result after ↔
      (∃ w next, world.Evaluates e scope (.ok w) next ∧
        next.EvaluatesSequence w es scope result after) ∨
      ∃ error, world.Evaluates e scope (.error error) after ∧ result = .error error := by
  constructor
  · rintro ⟨fuel, ends⟩
    rcases runOn_bind_eq_some_iff.mp ends with ⟨w, next, first, others⟩ | ⟨error, fails, same⟩
    · rw [← operations_of_eval first] at others
      exact .inl ⟨w, next, ⟨fuel, first⟩, fuel, others⟩
    · exact .inr ⟨error, ⟨fuel, fails⟩, same⟩
  · rintro (⟨w, next, ⟨fuel, first⟩, fuel', others⟩ | ⟨error, ⟨fuel, fails⟩, same⟩)
    · -- the larger one of the two bounds serves all trees
      rw [operations_of_eval first] at others
      refine ⟨max fuel fuel', runOn_bind_eq_some_iff.mpr (.inl ⟨w, next, ?_, ?_⟩)⟩
      · exact eval_of_le (Nat.le_max_left fuel fuel') first
      · have below := (Run.kept_below world.operations).evalSequence
          (eval_mono world.operations (Nat.le_max_right fuel fuel')) scope w es
        exact runOn_mono below others
    · exact ⟨fuel, runOn_bind_eq_some_iff.mpr (.inr ⟨error, fails, same⟩)⟩

/-- A sequence has the value of its last tree, or the error of the first one that fails. -/
theorem evaluatesSequence_iff :
    world.EvaluatesSequence v es scope result after ↔
      (∃ vs, InTurn scope world es vs after ∧ result = .ok (vs.getLastD v)) ∨
        ∃ error, world.StopsAt scope es error after ∧ result = .error error := by
  induction es generalizing world v with
  | nil =>
    rw [evaluatesSequence_nil_iff]
    constructor
    · rintro ⟨rfl, rfl⟩
      exact .inl ⟨[], .nil, rfl⟩
    · rintro (⟨vs, ⟨⟩, same⟩ | ⟨error, stops, -⟩)
      · exact ⟨same, rfl⟩
      · exact absurd stops not_stopsAt_nil
  | cons e es ih =>
    rw [evaluatesSequence_cons_iff]
    constructor
    · rintro (⟨w, next, first, others⟩ | ⟨error, fails, same⟩)
      · rcases ih.mp others with ⟨ws, others, same⟩ | ⟨error, stops, same⟩
        · exact .inl ⟨w :: ws, .cons first others, by rw [same, List.getLastD_cons]⟩
        · exact .inr ⟨error, stopsAt_cons_iff.mpr (.inr ⟨w, next, first, stops⟩), same⟩
      · exact .inr ⟨error, stopsAt_cons_iff.mpr (.inl fails), same⟩
    · rintro (⟨vs, all, same⟩ | ⟨error, stops, same⟩)
      · obtain ⟨w, next, ws, first, others, rfl⟩ := inTurn_cons_iff.mp all
        rw [List.getLastD_cons] at same
        exact .inl ⟨w, next, first, ih.mpr (.inl ⟨ws, others, same⟩)⟩
      · rcases stopsAt_cons_iff.mp stops with fails | ⟨w, next, first, stops⟩
        · exact .inr ⟨error, fails, same⟩
        · exact .inl ⟨w, next, first, ih.mpr (.inr ⟨error, stops, same⟩)⟩

/-- Where there are trees, what would be the value without them does not matter. -/
theorem evaluatesSequence_iff_oneByOne (trees : es ≠ []) :
    world.EvaluatesSequence v es scope result after ↔ world.OneByOne scope es result after := by
  rw [evaluatesSequence_iff, OneByOne]
  refine or_congr_left ⟨?_, ?_⟩
  · rintro ⟨vs, all, rfl⟩
    induction vs using List.reverseRecOn with
    | nil =>
      cases all
      exact absurd rfl trees
    | append_singleton vs w _ => exact ⟨vs, w, all, by rw [List.getLastD_concat]⟩
  · rintro ⟨vs, w, all, rfl⟩
    exact ⟨vs ++ [w], all, by rw [List.getLastD_concat]⟩

/-- The tree of a sequence is evaluated by its rule. -/
theorem evaluates_sequence_iff :
    world.Evaluates (.call (.word "do") es) scope result after ↔
      world.EvaluatesSequence (.boolean false) es scope result after := by
  constructor
  · rintro ⟨_ | fuel, ends⟩
    · cases ends
    · exact ⟨fuel, ends⟩
  · rintro ⟨fuel, ends⟩
    exact ⟨fuel + 1, ends⟩

end CallScript.World

