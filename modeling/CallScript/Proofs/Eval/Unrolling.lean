import CallScript.Proofs.Eval.Sequence

/-! # Laws of sequences and loops

A sequence inside a sequence is the same as its trees in its place (`sameOutcome_group`), and a loop
is the same as one round of it in front of the loop (`sameOutcome_while`). The two sides of such a law
need different bounds, so they are compared by how they end, whatever the bound, and also by whether
they end at all. -/

namespace CallScript.World

variable {world next after : World} {scope : ScopeId} {e e' condition body yes no : Expr}
  {xs ys zs es : List Expr} {v w : Value} {result : Except Error Value}

/-! ## Outcomes -/

/-- Two trees have the same outcome in a scope: neither of them ends, or both end with the same value
or the same error, in one world, in which the same is bound and the same has been printed. -/
def SameOutcome (world : World) (scope : ScopeId) (e e' : Expr) : Prop :=
  ((∀ result after, ¬ world.Evaluates e scope result after) ∧
    ∀ result after, ¬ world.Evaluates e' scope result after) ∨
  ∃ result after, world.Evaluates e scope result after ∧ world.Evaluates e' scope result after

/-- A tree ends in one way only. -/
theorem Evaluates.unique {result' : Except Error Value} {after' : World}
    (h : world.Evaluates e scope result after) (h' : world.Evaluates e scope result' after') :
    result = result' ∧ after = after' := by
  obtain ⟨fuel, ends⟩ := h
  obtain ⟨fuel', ends'⟩ := h'
  have long := runOn_mono (eval_mono _ (Nat.le_max_left fuel fuel') e scope) ends
  have long' := runOn_mono (eval_mono _ (Nat.le_max_right fuel fuel') e scope) ends'
  rw [long] at long'
  exact Prod.mk.inj (Option.some.inj long')

theorem sameOutcome_iff :
    world.SameOutcome scope e e' ↔
      ∀ result after, world.Evaluates e scope result after ↔ world.Evaluates e' scope result after := by
  constructor
  · rintro (⟨never, never'⟩ | ⟨result, after, ends, ends'⟩) result' after'
    · exact iff_of_false (never result' after') (never' result' after')
    · constructor
      · intro other
        obtain ⟨rfl, rfl⟩ := ends.unique other
        exact ends'
      · intro other
        obtain ⟨rfl, rfl⟩ := ends'.unique other
        exact ends
  · intro same
    by_cases ends : ∃ result after, world.Evaluates e scope result after
    · obtain ⟨result, after, ends⟩ := ends
      exact .inr ⟨result, after, ends, (same result after).mp ends⟩
    · have never : ∀ result after, ¬ world.Evaluates e scope result after :=
        fun result after here => ends ⟨result, after, here⟩
      exact .inl ⟨never, fun result after there => never result after ((same result after).mpr there)⟩

/-! ## Sequences in sequences -/

/-- Of two parts of a sequence the second one starts where the first one ends, if that has a value. -/
theorem evaluatesSequence_append_iff :
    world.EvaluatesSequence v (xs ++ ys) scope result after ↔
      (∃ w next, world.EvaluatesSequence v xs scope (.ok w) next ∧
        next.EvaluatesSequence w ys scope result after) ∨
      ∃ error, world.EvaluatesSequence v xs scope (.error error) after ∧ result = .error error := by
  induction xs generalizing world v with
  | nil =>
    simp only [List.nil_append, evaluatesSequence_nil_iff]
    constructor
    · intro ends
      exact .inl ⟨v, world, ⟨rfl, rfl⟩, ends⟩
    · rintro (⟨w, next, ⟨⟨⟩, rfl⟩, ends⟩ | ⟨error, ⟨⟨⟩, -⟩, -⟩)
      exact ends
  | cons e xs ih =>
    rw [List.cons_append, evaluatesSequence_cons_iff]
    simp only [ih, evaluatesSequence_cons_iff]
    constructor
    · rintro (⟨w, next, first, ⟨u, mid, part, others⟩ | ⟨error, fails, same⟩⟩ | ⟨error, fails, same⟩)
      · exact .inl ⟨u, mid, .inl ⟨w, next, first, part⟩, others⟩
      · exact .inr ⟨error, .inl ⟨w, next, first, fails⟩, same⟩
      · exact .inr ⟨error, .inr ⟨error, fails, rfl⟩, same⟩
    · rintro (⟨u, mid, ⟨w, next, first, part⟩ | ⟨error, -, ⟨⟩⟩, others⟩ |
        ⟨error, ⟨w, next, first, fails⟩ | ⟨error', fails, ⟨⟩⟩, same⟩)
      · exact .inl ⟨w, next, first, .inl ⟨u, mid, part, others⟩⟩
      · exact .inl ⟨w, next, first, .inr ⟨error, fails, same⟩⟩
      · exact .inr ⟨error, fails, same⟩

/-- Where there are trees, it does not matter which value there was before them. -/
theorem evaluatesSequence_start (trees : es ≠ []) (v w : Value) :
    world.EvaluatesSequence v es scope result after ↔
      world.EvaluatesSequence w es scope result after :=
  (evaluatesSequence_iff_oneByOne trees).trans (evaluatesSequence_iff_oneByOne trees).symm

/-- A sequence of one tree is this tree. -/
theorem evaluatesSequence_singleton_iff :
    world.EvaluatesSequence v [e] scope result after ↔ world.Evaluates e scope result after := by
  simp only [evaluatesSequence_cons_iff, evaluatesSequence_nil_iff]
  constructor
  · rintro (⟨w, next, ends, rfl, rfl⟩ | ⟨error, ends, rfl⟩)
    · exact ends
    · exact ends
  · intro ends
    cases result with
    | ok w => exact .inl ⟨w, after, ends, rfl, rfl⟩
    | error error => exact .inr ⟨error, ends, rfl⟩

/-- A sequence in front of other trees. Without any trees it would yield a value of its own, so there
has to be a tree in it or behind it. -/
theorem evaluatesSequence_group (trees : ys ≠ [] ∨ zs ≠ []) :
    world.EvaluatesSequence v (.call (.word "do") ys :: zs) scope result after ↔
      world.EvaluatesSequence v (ys ++ zs) scope result after := by
  rw [evaluatesSequence_cons_iff]
  simp only [evaluates_sequence_iff]
  by_cases empty : ys = []
  · subst empty
    have behind : zs ≠ [] := trees.resolve_left fun some => some rfl
    simp only [evaluatesSequence_nil_iff, List.nil_append]
    constructor
    · rintro (⟨w, next, ⟨⟨⟩, rfl⟩, others⟩ | ⟨error, ⟨⟨⟩, -⟩, -⟩)
      exact (evaluatesSequence_start behind _ _).mp others
    · intro others
      exact .inl ⟨_, world, ⟨rfl, rfl⟩, (evaluatesSequence_start behind _ _).mp others⟩
  · rw [evaluatesSequence_append_iff]
    simp only [evaluatesSequence_start empty (.boolean false) v]

/-! ## Choices and loops -/

/-- Runs that depend on a bound, a larger one of which changes nothing. -/
def Bounded {α : Type} (x : Nat → Run α) : Prop :=
  ∀ {n m}, n ≤ m → (x n).Below (x m)

/-- Two runs in sequence may have bounds of their own. -/
theorem exists_bind_iff {α β : Type} {x : Nat → Run α} {f : Nat → α → Run β}
    {result : Except Error β} (first : Bounded x) (second : ∀ a, Bounded fun n => f n a) :
    (∃ n, world.runOn (x n >>= f n) = some (result, after)) ↔
      (∃ a next, (∃ n, world.runOn (x n) = some (.ok a, next)) ∧
        ∃ n, next.runOn (f n a) = some (result, after)) ∨
      ∃ e, (∃ n, world.runOn (x n) = some (.error e, after)) ∧ result = .error e := by
  constructor
  · rintro ⟨n, ends⟩
    rcases runOn_bind_eq_some_iff.mp ends with ⟨a, next, yields, ends⟩ | ⟨e, fails, same⟩
    · exact .inl ⟨a, next, ⟨n, yields⟩, n, ends⟩
    · exact .inr ⟨e, ⟨n, fails⟩, same⟩
  · rintro (⟨a, next, ⟨n, yields⟩, m, ends⟩ | ⟨e, ⟨n, fails⟩, same⟩)
    · refine ⟨max n m, runOn_bind_eq_some_iff.mpr (.inl ⟨a, next, ?_, ?_⟩)⟩
      · exact runOn_mono (first (Nat.le_max_left n m)) yields
      · exact runOn_mono (second a (Nat.le_max_right n m)) ends
    · exact ⟨n, runOn_bind_eq_some_iff.mpr (.inr ⟨e, fails, same⟩)⟩

theorem bounded_eval (operations : Operations) (e : Expr) (scope : ScopeId) :
    Bounded fun n => CallScript.eval operations n e scope :=
  fun more => eval_mono operations more e scope

/-- After a tree has ended the evaluation goes on with the operations that it had. -/
theorem Evaluates.iff_eval {w : Except Error Value}
    (ends : ∃ n, world.runOn (CallScript.eval world.operations n e scope) = some (w, next)) :
    next.Evaluates e' scope result after ↔
      ∃ n, next.runOn (CallScript.eval world.operations n e' scope) = some (result, after) := by
  obtain ⟨n, ends⟩ := ends
  rw [Evaluates, ← operations_of_eval ends]
  rfl

theorem evaluates_iff_of_succ {x : Nat → Run Value}
    (unfolds : ∀ n, CallScript.eval world.operations (n + 1) e scope = x n) :
    world.Evaluates e scope result after ↔ ∃ n, world.runOn (x n) = some (result, after) := by
  constructor
  · rintro ⟨_ | n, ends⟩
    · cases ends
    · rw [World.eval, unfolds] at ends
      exact ⟨n, ends⟩
  · rintro ⟨n, ends⟩
    refine ⟨n + 1, ?_⟩
    rw [World.eval, unfolds]
    exact ends

/-- A choice is its condition, and then one of the other two trees. -/
theorem evaluates_if_iff :
    world.Evaluates (.call (.word "if") [condition, yes, no]) scope result after ↔
      (∃ v next, world.Evaluates condition scope (.ok v) next ∧
        next.Evaluates (if v.isFalse then no else yes) scope result after) ∨
      ∃ error, world.Evaluates condition scope (.error error) after ∧ result = .error error := by
  have chosen : ∀ n (v : Value), (if v.isFalse then CallScript.eval world.operations n no scope
      else CallScript.eval world.operations n yes scope) =
        CallScript.eval world.operations n (if v.isFalse then no else yes) scope := by
    intro n v
    split <;> rfl
  rw [evaluates_iff_of_succ fun n => rfl]
  refine (exists_bind_iff (bounded_eval _ condition scope) ?_).trans ?_
  · intro v
    simp only [chosen]
    exact bounded_eval _ _ scope
  · refine or_congr_left (exists_congr fun v => exists_congr fun next =>
      and_congr_right fun test => ?_)
    simp only [chosen]
    exact (Evaluates.iff_eval test).symm

/-- One round of a loop: its condition, and unless that is `false` the body and the loop again. -/
theorem evaluates_while_iff :
    world.Evaluates (.call (.word "while") [condition, body]) scope result after ↔
      (∃ v next, world.Evaluates condition scope (.ok v) next ∧
        next.EvaluatesSequence (.boolean false)
          (if v.isFalse then [] else [body, .call (.word "while") [condition, body]]) scope
          result after) ∨
      ∃ error, world.Evaluates condition scope (.error error) after ∧ result = .error error := by
  let rounds (n k : Nat) := loop (CallScript.eval world.operations n condition scope)
    (CallScript.eval world.operations n body scope) k
  have bounded : ∀ {n m k l}, n ≤ m → k ≤ l → (rounds n k).Below (rounds m l) := fun more =>
    (Run.kept_below world.operations).loop (eval_mono _ more condition scope)
      (eval_mono _ more body scope)
  have again : ∀ {mid : World}, mid.operations = world.operations →
      (mid.Evaluates (.call (.word "while") [condition, body]) scope result after ↔
        ∃ n, mid.runOn (rounds n n) = some (result, after)) := by
    intro mid same
    apply evaluates_iff_of_succ
    rw [same]
    exact fun n => rfl
  -- a round more than the bound allows is a round more of a larger bound
  have shifted : (∃ n, world.runOn (rounds n n) = some (result, after)) ↔
      ∃ n, world.runOn (rounds n (n + 1)) = some (result, after) := by
    constructor
    · rintro ⟨n, ends⟩
      exact ⟨n, runOn_mono (bounded (Nat.le_refl n) (Nat.le_succ n)) ends⟩
    · rintro ⟨n, ends⟩
      exact ⟨n + 1, runOn_mono (bounded (Nat.le_succ n) (Nat.le_refl _)) ends⟩
  rw [again rfl, shifted]
  simp only [rounds, loop_succ]
  refine (exists_bind_iff (bounded_eval _ condition scope) ?_).trans ?_
  · intro v n m more
    dsimp only
    split
    next => exact Run.below_self _
    next => exact Run.below_bind (eval_mono _ more body scope) fun _ => bounded more more
  · refine or_congr_left (exists_congr fun v => exists_congr fun next =>
      and_congr_right fun test => ?_)
    split
    next => exact Iff.rfl
    next =>
      rw [evaluatesSequence_cons_iff]
      simp only [evaluatesSequence_singleton_iff, Evaluates.iff_eval test]
      refine (exists_bind_iff (bounded_eval _ body scope) fun _ => ?_).trans ?_
      · exact fun more => bounded more more
      · refine or_congr_left (exists_congr fun w => exists_congr fun mid =>
          and_congr_right fun turn => ?_)
        obtain ⟨n, test⟩ := test
        obtain ⟨m, turn⟩ := turn
        have kept := (runOn_eq_some_iff.mp turn).2.trans (runOn_eq_some_iff.mp test).2
        exact (again kept).symm

/-! ## The laws -/

/-- A loop and one round of it in front of the loop. -/
theorem sameOutcome_while (world : World) (scope : ScopeId) (condition body : Expr) :
    world.SameOutcome scope (.call (.word "while") [condition, body])
      (.call (.word "if") [condition,
        .call (.word "do") [body, .call (.word "while") [condition, body]],
        .call (.word "do") []]) := by
  rw [sameOutcome_iff]
  intro result after
  rw [evaluates_while_iff, evaluates_if_iff]
  refine or_congr_left (exists_congr fun v => exists_congr fun next => and_congr_right fun _ => ?_)
  rw [← evaluates_sequence_iff]
  split <;> exact Iff.rfl

/-- Trees in a sequence of their own, between other trees of a sequence. -/
theorem sameOutcome_group (world : World) (scope : ScopeId) (xs ys zs : List Expr)
    (trees : ys ≠ [] ∨ zs ≠ []) :
    world.SameOutcome scope (.call (.word "do") (xs ++ .call (.word "do") ys :: zs))
      (.call (.word "do") (xs ++ ys ++ zs)) := by
  rw [sameOutcome_iff]
  intro result after
  rw [evaluates_sequence_iff, evaluates_sequence_iff, List.append_assoc,
    evaluatesSequence_append_iff, evaluatesSequence_append_iff]
  simp only [evaluatesSequence_group trees]

/-- Sequences may be flattened and loops unrolled: in every scope of every world, and whether or not
they end, the outcome stays the same. -/
theorem sequence_and_loop_laws (world : World) (scope : ScopeId) :
    (∀ xs ys zs, ys ≠ [] ∨ zs ≠ [] →
      world.SameOutcome scope (.call (.word "do") (xs ++ .call (.word "do") ys :: zs))
        (.call (.word "do") (xs ++ ys ++ zs))) ∧
    ∀ condition body,
      world.SameOutcome scope (.call (.word "while") [condition, body])
        (.call (.word "if") [condition,
          .call (.word "do") [body, .call (.word "while") [condition, body]],
          .call (.word "do") []]) :=
  ⟨sameOutcome_group world scope, sameOutcome_while world scope⟩

/-- An empty sequence in front of a name that is not bound: the outcome is the error with and without
it. -/
theorem empty_group_vanishes :
    (newGlobal {}).2.SameOutcome 0
        (.call (.word "do") [.word "true", .call (.word "do") [], .word "x"])
        (.call (.word "do") [.word "true", .word "x"]) ∧
      ∃ after, (newGlobal {}).2.Evaluates
        (.call (.word "do") [.word "true", .call (.word "do") [], .word "x"]) 0
        (.error (.undefinedBinding "x")) after := by
  obtain ⟨group, -⟩ := sequence_and_loop_laws (newGlobal {}).2 0
  refine ⟨group [.word "true"] [] [.word "x"] (.inr (List.cons_ne_nil _ _)), ?_⟩
  exact ⟨_, 3, rfl⟩

end CallScript.World
