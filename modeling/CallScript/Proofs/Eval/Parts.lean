import CallScript.Proofs.Eval.Obeys

/-! # What evaluation is made of

Evaluation is put together from a few runs that work on the store or fail, from runs in sequence and
from runs that have reached their bound. A relation between runs that holds of all these, and of
runs in sequence if it holds of their parts, holds between the evaluations of a tree within two
bounds of which the second one is not smaller (`Run.Kept.eval`). -/

namespace CallScript

/-! ## How runs end -/

section

variable {α β : Type} {x : Run α} {f : α → Run β} {store after : Store} {result : Except Error β}

/-- Two runs in sequence end with the second one, or with an error of the first. -/
theorem Run.bind_eq_some_iff :
    (x >>= f) store = some (result, after) ↔
      (∃ a next, x store = some (.ok a, next) ∧ f a next = some (result, after)) ∨
        ∃ e, x store = some (.error e, after) ∧ result = .error e := by
  change Run.bind x f store = some (result, after) ↔ _
  rw [Run.bind]
  cases first : x store with
  | none => simp
  | some ended =>
    obtain ⟨result, next⟩ := ended
    cases result with
    | ok a =>
      constructor
      · intro ends
        exact .inl ⟨a, next, rfl, ends⟩
      · rintro (⟨_, _, ⟨⟩, ends⟩ | ⟨_, ⟨⟩, -⟩)
        exact ends
    | error e =>
      constructor
      · intro ends
        cases ends
        exact .inr ⟨e, rfl, rfl⟩
      · rintro (⟨_, _, ⟨⟩, -⟩ | ⟨_, ⟨⟩, rfl⟩)
        rfl

end

theorem loop_succ (condition body : Run Value) (rounds : Nat) :
    loop condition body (rounds + 1) = condition >>= fun v =>
      if v.isFalse then pure (.boolean false)
      else body >>= fun _ => loop condition body rounds := by
  funext store
  change _ = Run.bind condition _ store
  rw [loop, Run.bind]
  dsimp only
  rcases condition store with _ | ⟨_ | v, next⟩
  · rfl
  · rfl
  · dsimp only
    split
    · rfl
    · change _ = Run.bind body _ next
      rw [Run.bind]
      rcases body next with _ | ⟨_ | v, last⟩ <;> rfl

/-! ## Parts -/

/-- The errors of evaluation itself. -/
inductive EvaluationError : Error → Prop where
  | undefinedBinding (name : String) : EvaluationError (.undefinedBinding name)
  | notCallable (v : Value) : EvaluationError (.notCallable v.display v.type)
  | wrongArity (expected got : Nat) : EvaluationError (.wrongArity expected got)
  | misuse (form : SpecialForm) : EvaluationError (.malformed form.usage)
  | badParameter : EvaluationError (.malformed "Parameter names must be words")

theorem evaluationError_of_paramNames {es : List Expr} {e : Error}
    (fails : paramNames es = .error e) : EvaluationError e := by
  fun_induction paramNames es with
  | case1 => cases fails
  | case2 name rest ih =>
    cases names : paramNames rest with
    | ok params =>
      rw [names] at fails
      cases fails
    | error error =>
      rw [names] at fails
      cases fails
      exact ih names
  | case3 =>
    cases fails
    exact .badParameter

/-- A relation between runs that holds of all that evaluation is made of. -/
structure Run.Kept (operations : Operations) (R : (α : Type) → Run α → Run α → Prop) : Prop where
  bind {α β : Type} {x y : Run α} {f g : α → Run β} :
    R α x y → (∀ a, R β (f a) (g a)) → R β (x >>= f) (y >>= g)
  outOfFuel {α : Type} (x : Run α) : R α .outOfFuel x
  pure {α : Type} (a : α) : R α (pure a) (pure a)
  fail {α : Type} {e : Error} (own : EvaluationError e) : R α (.fail e) (.fail e)
  update {α : Type} (g : Store → α × Store) : R α (.update g) (.update g)
  lookup (scope : ScopeId) (name : String) : R Value (.lookup scope name) (.lookup scope name)
  set (scope : ScopeId) (name : String) (v : Value) :
    R Unit (.set scope name v) (.set scope name v)
  reply (id : OperationId) (args : List Value) :
    R Value (.reply (operations.get id args)) (.reply (operations.get id args))

namespace Run.Kept

variable {operations : Operations} {R : (α : Type) → Run α → Run α → Prop} {ev ev' : Evaluator}
  {rounds rounds' : Nat}

/-- Two evaluators that are related on every tree. -/
def Between (R : (α : Type) → Run α → Run α → Prop) (ev ev' : Evaluator) : Prop :=
  ∀ e scope, R Value (ev e scope) (ev' e scope)

theorem evalAll (kept : Run.Kept operations R) (parts : Between R ev ev') (scope : ScopeId)
    (es : List Expr) : R _ (CallScript.evalAll ev scope es) (CallScript.evalAll ev' scope es) := by
  induction es with
  | nil => exact kept.pure []
  | cons e es ih =>
    apply kept.bind (parts e scope)
    intro v
    apply kept.bind ih
    intro vs
    exact kept.pure (v :: vs)

theorem call (kept : Run.Kept operations R) (parts : Between R ev ev') (f : Value)
    (args : List Value) :
    R _ (CallScript.call operations ev f args) (CallScript.call operations ev' f args) := by
  cases f with
  | builtin name id => exact kept.reply id args
  | closure c =>
    rw [CallScript.call, CallScript.call]
    split
    next =>
      refine kept.bind (kept.update _) ?_
      intro frame
      refine kept.bind (kept.update _) ?_
      intro _
      exact parts c.body frame
    next => exact kept.fail (.wrongArity _ _)
  | number | string | boolean | array => exact kept.fail (.notCallable _)

theorem loop (kept : Run.Kept operations R) {condition condition' body body' : Run Value}
    (test : R _ condition condition') (round : R _ body body') (more : rounds ≤ rounds') :
    R _ (CallScript.loop condition body rounds) (CallScript.loop condition' body' rounds') := by
  induction rounds generalizing rounds' with
  | zero => exact kept.outOfFuel _
  | succ rounds ih =>
    obtain ⟨last, rfl⟩ := Nat.exists_eq_add_of_lt more
    rw [loop_succ, loop_succ]
    apply kept.bind test
    intro v
    split
    next => exact kept.pure _
    next =>
      apply kept.bind round
      intro _
      exact ih (Nat.le_add_right rounds last)

theorem evalSequence (kept : Run.Kept operations R) (parts : Between R ev ev') (scope : ScopeId)
    (v : Value) (es : List Expr) :
    R _ (CallScript.evalSequence ev scope v es) (CallScript.evalSequence ev' scope v es) := by
  induction es generalizing v with
  | nil => exact kept.pure v
  | cons e es ih =>
    apply kept.bind (parts e scope)
    intro w
    exact ih w

theorem paramNames (kept : Run.Kept operations R) (es : List Expr) :
    R _ (Run.ofExcept (CallScript.paramNames es)) (Run.ofExcept (CallScript.paramNames es)) := by
  cases names : CallScript.paramNames es with
  | ok params => exact kept.pure params
  | error e => exact kept.fail (evaluationError_of_paramNames names)

theorem rule (kept : Run.Kept operations R) (parts : Between R ev ev') (more : rounds ≤ rounds')
    (form : SpecialForm) (args : List Expr) (scope : ScopeId) :
    R _ (form.rule ev rounds args scope) (form.rule ev' rounds' args scope) := by
  fun_cases SpecialForm.rule ev rounds form args scope with
  | case1 condition yes no =>
    apply kept.bind (parts condition scope)
    intro v
    split
    next => exact parts no scope
    next => exact parts yes scope
  | case3 condition body => exact kept.loop (parts condition scope) (parts body scope) more
  | case5 args => exact kept.evalSequence parts scope _ args
  | case6 name e =>
    apply kept.bind (parts e scope)
    intro v
    refine kept.bind (kept.update _) ?_
    intro _
    exact kept.pure v
  | case8 name e =>
    apply kept.bind (parts e scope)
    intro v
    apply kept.bind (kept.set scope name v)
    intro _
    exact kept.pure v
  | case10 first rest =>
    apply kept.bind (kept.paramNames _)
    intro params
    exact kept.update _
  | case11 => exact kept.fail (.misuse .function)
  -- the shape of the arguments is wrong whatever evaluates them
  | case2 =>
    rw [SpecialForm.rule]
    · exact kept.fail (.misuse .ifElse)
    · assumption
  | case4 =>
    rw [SpecialForm.rule]
    · exact kept.fail (.misuse .whileLoop)
    · assumption
  | case7 =>
    rw [SpecialForm.rule]
    · exact kept.fail (.misuse .define)
    · assumption
  | case9 =>
    rw [SpecialForm.rule]
    · exact kept.fail (.misuse .set)
    · assumption

theorem evalNode (kept : Run.Kept operations R) (parts : Between R ev ev')
    (more : rounds ≤ rounds') :
    Between R (CallScript.evalNode operations ev rounds)
      (CallScript.evalNode operations ev' rounds') := by
  intro e scope
  cases e with
  | literal l => exact kept.pure l.toValue
  | word name => exact kept.lookup scope name
  | call operator args =>
    rw [CallScript.evalNode, CallScript.evalNode]
    split
    next form _ =>
      rw [SpecialForm.apply, SpecialForm.apply]
      split
      next => exact kept.rule parts more form args scope
      next => exact kept.fail (.misuse form)
    next =>
      apply kept.bind (parts operator scope)
      intro f
      apply kept.bind (kept.evalAll parts scope args)
      intro vs
      exact kept.call parts f vs

/-- A relation that holds of all that evaluation is made of holds of evaluation. -/
theorem eval (kept : Run.Kept operations R) {fuel fuel' : Nat} (more : fuel ≤ fuel') :
    Between R (CallScript.eval operations fuel) (CallScript.eval operations fuel') := by
  induction fuel generalizing fuel' with
  | zero => exact fun e scope => kept.outOfFuel _
  | succ fuel ih =>
    obtain ⟨last, rfl⟩ := Nat.exists_eq_add_of_lt more
    exact kept.evalNode (ih (Nat.le_add_right fuel last)) (Nat.le_add_right fuel last)

end Run.Kept

/-! ## More fuel -/

/-- Where the first run ends, the second one ends in the same way. -/
def Run.Below {α : Type} (x y : Run α) : Prop :=
  ∀ store ended, x store = some ended → y store = some ended

theorem Run.below_self {α : Type} (x : Run α) : x.Below x :=
  fun _ _ ends => ends

theorem Run.below_bind {α β : Type} {x y : Run α} {f g : α → Run β} (first : x.Below y)
    (next : ∀ a, (f a).Below (g a)) : (x >>= f).Below (y >>= g) := by
  rintro store ⟨result, after⟩ ends
  rcases bind_eq_some_iff.mp ends with ⟨a, mid, yields, ends⟩ | ⟨e, fails, same⟩
  · exact bind_eq_some_iff.mpr (.inl ⟨a, mid, first _ _ yields, next a _ _ ends⟩)
  · exact bind_eq_some_iff.mpr (.inr ⟨e, first _ _ fails, same⟩)

theorem Run.kept_below (operations : Operations) : Run.Kept operations fun _ => Run.Below where
  bind := below_bind
  outOfFuel _ store ended ends := by cases ends
  pure _ := below_self _
  fail _ := below_self _
  update _ := below_self _
  lookup _ _ := below_self _
  set _ _ _ := below_self _
  reply _ _ := below_self _

/-- More fuel does not change how an evaluation ends. -/
theorem eval_mono (operations : Operations) {fuel fuel' : Nat} (more : fuel ≤ fuel') (e : Expr)
    (scope : ScopeId) : (eval operations fuel e scope).Below (eval operations fuel' e scope) :=
  (Run.kept_below operations).eval more e scope

end CallScript
