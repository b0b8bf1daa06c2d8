import CallScript.Proofs.Eval.Parts
import CallScript.Proofs.World
import CallScript.Proofs.Source.Continuation

/-! # Where errors come from

Evaluation fails at a name without a binding, at a call of something that is no function or with the
wrong number of arguments, at a special form of the wrong shape, and where an operation fails; it
hands on every error as it is (`eval_raises`). So the kind of a syntax error tells whether it stems
from reading the program or from running it. -/

namespace CallScript

/-! ## Evaluation -/

/-- The errors of an evaluation: its own, and those that operations reply with. -/
inductive Raised (operations : Operations) : Error → Prop where
  | own {e : Error} (evaluation : EvaluationError e) : Raised operations e
  | reply {id : OperationId} {args : List Value} {e : Error}
      (fails : (operations.get id args).result = .error e) : Raised operations e

/-- Every error that a run ends with is of a certain sort. -/
def Run.Raises {α : Type} (P : Error → Prop) (x : Run α) : Prop :=
  ∀ store e after, x store = some (.error e, after) → P e

theorem Run.kept_raises (operations : Operations) :
    Run.Kept operations fun _ x _ => x.Raises (Raised operations) where
  bind first next := by
    intro store e after ends
    rcases bind_eq_some_iff.mp ends with ⟨a, mid, -, ends⟩ | ⟨_, ends, ⟨⟩⟩
    · exact next a mid e after ends
    · exact first store e after ends
  outOfFuel _ := by
    intro store e after ends
    cases ends
  pure _ := by
    intro store e after ends
    cases ends
  fail own := by
    intro store e after ends
    cases ends
    exact .own own
  update _ := by
    intro store e after ends
    cases ends
  lookup scope name := by
    intro store e after ends
    rw [Run.lookup] at ends
    split at ends
    next => cases ends
    next =>
      cases ends
      exact .own (.undefinedBinding name)
  set scope name v := by
    intro store e after ends
    rw [Run.set] at ends
    split at ends
    next => cases ends
    next =>
      cases ends
      exact .own (.undefinedBinding name)
  reply id args := by
    intro store e after ends
    exact .reply (congrArg Prod.fst (Option.some.inj ends))

/-- Evaluation fails in these ways only. -/
theorem eval_raises (operations : Operations) (fuel : Nat) (e : Expr) (scope : ScopeId) :
    (eval operations fuel e scope).Raises (Raised operations) :=
  (Run.kept_raises operations).eval (Nat.le_refl fuel) e scope

/-! ## Operations -/

/-- A reply that is no syntax error. -/
def Reply.NoSyntax (r : Reply) : Prop :=
  ∀ error, r.result ≠ .error (.ofSyntax error)

/-- An operation that never replies with a syntax error. -/
def Operation.NoSyntax (operation : Operation) : Prop :=
  ∀ args, (operation args).NoSyntax

namespace Reply

theorem noSyntax_of_ok {r : Reply} {v : Value} (yields : r.result = .ok v) : r.NoSyntax := by
  intro error fails
  rw [yields] at fails
  cases fails

theorem noSyntax_typeError (fault : TypeFault) : (fail (.typeError fault)).NoSyntax := by
  intro error fails
  cases fails

theorem noSyntax_runError (fault : RunFault) : (fail (.runError fault)).NoSyntax := by
  intro error fails
  cases fails

theorem noSyntax_wrongArity (expected got : Nat) : (fail (.wrongArity expected got)).NoSyntax := by
  intro error fails
  cases fails

theorem noSyntax_convert {p : Param} {v : Value} {e : Error} (fails : p.convert v = .error e) :
    (fail e).NoSyntax := by
  cases p <;> cases v <;> cases fails <;> exact noSyntax_typeError _

end Reply

namespace Operation

variable {α : Type} [ToReply α]

open Reply

theorem noSyntax_unary {p : Param} {f : p.Arg → α} (replies : ∀ a, (toReply (f a)).NoSyntax) :
    (unary p f).NoSyntax := by
  intro args
  fun_cases unary p f args with
  | case1 v a converted => exact replies a
  | case2 v e fails => exact noSyntax_convert fails
  | case3 => exact noSyntax_wrongArity _ _

theorem noSyntax_binary {p q : Param} {f : p.Arg → q.Arg → α}
    (replies : ∀ a b, (toReply (f a b)).NoSyntax) : (binary p q f).NoSyntax := by
  intro args
  fun_cases binary p q f args with
  | case1 v w e fails => exact noSyntax_convert fails
  | case2 v w a converted e fails => exact noSyntax_convert fails
  | case3 v w a first b second => exact replies a b
  | case4 => exact noSyntax_wrongArity _ _

theorem noSyntax_variadic {arity : Arity} {f : List Value → α}
    (replies : ∀ args, (toReply (f args)).NoSyntax) : (variadic arity f).NoSyntax := by
  intro args
  rw [variadic, Arity.validate]
  split
  next => exact replies args
  next e fails =>
    split at fails
    next => cases fails
    next =>
      cases fails
      exact noSyntax_wrongArity _ _

end Operation

namespace Prelude

open Reply

theorem noSyntax_element (items : List Value) (index : Float) :
    (toReply (element items index) : Reply).NoSyntax := by
  fun_cases element items index with
  | case1 => exact noSyntax_runError _
  | case2 => exact noSyntax_of_ok rfl
  | case3 => exact noSyntax_runError _

/-- The operations of the prelude never reply with a syntax error. -/
theorem noSyntax_prelude (entry : String × Operation) (member : entry ∈ Prelude.operations) :
    entry.2.NoSyntax := by
  simp only [Prelude.operations, List.mem_cons, List.not_mem_nil, or_false] at member
  rcases member with rfl | rfl | rfl | rfl | rfl | rfl | rfl | rfl | rfl | rfl | rfl
  · apply Operation.noSyntax_binary
    intro a b
    fun_cases add a b with
    | case1 | case2 => exact noSyntax_of_ok rfl
    | case3 => exact noSyntax_typeError _
  · exact Operation.noSyntax_binary fun a b => noSyntax_of_ok rfl
  · exact Operation.noSyntax_binary fun a b => noSyntax_of_ok rfl
  · exact Operation.noSyntax_binary fun a b => noSyntax_of_ok rfl
  · apply Operation.noSyntax_binary
    intro a b
    fun_cases less a b with
    | case1 | case2 => exact noSyntax_of_ok rfl
    | case3 => exact noSyntax_typeError _
  · apply Operation.noSyntax_binary
    intro a b
    fun_cases greater a b with
    | case1 | case2 => exact noSyntax_of_ok rfl
    | case3 => exact noSyntax_typeError _
  · apply Operation.noSyntax_binary
    intro a b
    rw [equal]
    split
    next => exact noSyntax_of_ok rfl
    next => exact noSyntax_typeError _
  · exact Operation.noSyntax_unary fun v => noSyntax_of_ok rfl
  · exact Operation.noSyntax_variadic fun args => noSyntax_of_ok rfl
  · exact Operation.noSyntax_unary fun items => noSyntax_of_ok rfl
  · exact Operation.noSyntax_binary noSyntax_element

end Prelude

/-! ## Reading and running -/

/-- A syntax error of a special form, which points at no place in a text. -/
structure SyntaxError.OfForm (error : SyntaxError) : Prop where
  kind : error.kind = .malformedForm
  context : error.context = none
  found : error.found = none

theorem ofForm_of_raised {operations : Operations} {error : SyntaxError}
    (replies : ∀ id, (operations.get id).NoSyntax) (raised : Raised operations (.ofSyntax error)) :
    error.OfForm := by
  cases raised with
  | own evaluation => cases evaluation <;> exact ⟨rfl, rfl, rfl⟩
  | reply fails => exact absurd fails (replies _ _ error)

theorem Source.kind_ne_malformedForm {options : Options} {text : String} {error : SyntaxError}
    (failed : parseWith options text = .error error) : error.kind ≠ .malformedForm := by
  obtain ⟨failure, -, kind, -⟩ := error_of_parseWith failed
  rw [kind]
  cases failure.fault <;> decide

theorem Source.isSome_context {options : Options} {text : String} {error : SyntaxError}
    (failed : parseWith options text = .error error) : error.context.isSome = true := by
  obtain ⟨failure, read, -⟩ := error_of_parseWith failed
  rw [parseWith_of_runProgram read] at failed
  cases failed
  rfl

namespace World

/-- The kind of a syntax error tells whether anything has run, in a world with the operations of the
prelude and others that never reply with a syntax error. Running brings up malformed special forms
and no other syntax error, reading never does, and its errors show the text around the place. So a
program ends with a syntax error of another kind if and only if it cannot be read; that is the error
then, and the world stays as it is. -/
theorem syntax_error_tells_origin (world : World)
    (operations : ∀ operation ∈ world.operations,
      (∃ name, (name, operation) ∈ Prelude.operations) ∨ operation.NoSyntax) :
    (∀ fuel e scope error after,
      world.eval fuel e scope = some (.error (.ofSyntax error), after) → error.OfForm) ∧
    (∀ options text error, Source.parseWith options text = .error error →
      error.kind ≠ .malformedForm ∧ error.context.isSome = true) ∧
    (∀ fuel text global error after,
      world.run fuel text global = some (.error (.ofSyntax error), after) ∧
          error.kind ≠ .malformedForm ↔
        Source.parse text = .error error ∧ after = world) := by
  have replies : ∀ id, (world.operations.get id).NoSyntax := by
    apply Operations.forall_get
    · intro operation member
      rcases operations operation member with ⟨name, prelude⟩ | own
      · exact Prelude.noSyntax_prelude (name, operation) prelude
      · exact own
    · exact fun fault args => Reply.noSyntax_runError fault
  have runs : ∀ fuel e scope store error after,
      CallScript.eval world.operations fuel e scope store = some (.error (.ofSyntax error), after) →
        error.OfForm := by
    intro fuel e scope store error after ends
    exact ofForm_of_raised replies (eval_raises world.operations fuel e scope store _ after ends)
  refine ⟨?_, ?_, ?_⟩
  · intro fuel e scope error after ends
    exact runs fuel e scope _ error _ (runOn_eq_some_iff.mp ends).1
  · intro options text error failed
    exact ⟨Source.kind_ne_malformedForm failed, Source.isSome_context failed⟩
  · intro fuel text global error after
    rw [World.run]
    cases read : Source.parse text with
    | error failure =>
      have kind : failure.kind ≠ .malformedForm := Source.kind_ne_malformedForm read
      constructor
      · rintro ⟨⟨⟩, -⟩
        exact ⟨rfl, rfl⟩
      · rintro ⟨⟨⟩, rfl⟩
        exact ⟨rfl, kind⟩
    | ok e =>
      constructor
      · rintro ⟨ends, kind⟩
        exact absurd (runs fuel e _ _ error _ (runOn_eq_some_iff.mp ends).1).kind kind
      · rintro ⟨⟨⟩, -⟩

/-- A program that breaks off prints nothing, although it starts with a call of `print`; `if`
without arguments is reported when it is run. -/
theorem broken_program_runs_nothing :
    (∃ error, Source.parse "do(print(true)" = .error error ∧ error.kind = .incomplete ∧
      (newGlobal {}).2.run 9 "do(print(true)" 0 =
        some (.error (.ofSyntax error), (newGlobal {}).2)) ∧
    ∃ error, (newGlobal {}).2.eval 2 (.call (.word "if") []) 0 =
        some (.error (.ofSyntax error), (newGlobal {}).2) ∧ error.OfForm := by
  have read : Source.runProgram {} "do(print(true)".toList = .error ⟨.endOfArguments, []⟩ := by
    cbv
  have failed : Source.parse "do(print(true)" = _ := Source.parseWith_of_runProgram read
  have ends : (newGlobal {}).2.eval 2 (.call (.word "if") []) 0 =
      some (.error (.malformed "Wrong number of args to if"), (newGlobal {}).2) := rfl
  obtain ⟨evals, -, runs⟩ := syntax_error_tells_origin (newGlobal {}).2
    (forall_newGlobal fun entry member => .inl ⟨entry.1, member⟩)
  constructor
  · exact ⟨_, failed, rfl, ((runs 9 _ 0 _ _).mpr ⟨failed, rfl⟩).1⟩
  · exact ⟨_, ends, evals 2 _ 0 _ _ ends⟩

end World

end CallScript
