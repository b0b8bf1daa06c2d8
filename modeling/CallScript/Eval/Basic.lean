import CallScript.Eval.Run
import CallScript.SpecialForm

/-!
# Evaluation

One node is evaluated by `evalNode`, which is given the evaluator for the nodes below it and the
number of rounds that loops may take; `eval` ties the knot, each level of nesting taking one unit of
fuel. Everything else in this file is a part of `evalNode` that is of use by itself: calling a
function value, and the rules of the special forms.
-/

namespace CallScript

abbrev Evaluator := Expr → ScopeId → Run Value

/-- The operations that the host has registered, by number. -/
abbrev Operations := Array Operation

/-- The operation of a number; a number that was never given out stands for one that fails. -/
def Operations.get (operations : Operations) (id : OperationId) : Operation :=
  operations.getD id fun _ => .fail (.runError (.other "operation is not registered"))

/-! ## Calls -/

def evalAll (ev : Evaluator) (scope : ScopeId) : List Expr → Run (List Value)
  | [] => pure []
  | e :: es => do
    let v ← ev e scope
    let vs ← evalAll ev scope es
    pure (v :: vs)

/-- Calls a function value. The body of a closure is evaluated in a new scope inside the one that
the closure captured; of two parameters with one name the later one counts. -/
def call (operations : Operations) (ev : Evaluator) (f : Value) (args : List Value) : Run Value :=
  match f with
  | .builtin _ operation => .reply (operations.get operation args)
  | .closure c =>
    if c.params.length = args.length then do
      let frame ← Run.newScope (some c.scope)
      Run.defineAll frame (c.params.zip args)
      ev c.body frame
    else .fail (.wrongArity c.params.length args.length)
  | other => .fail (.notCallable other.display other.type)

/-! ## Special forms -/

/-- Evaluates `body` as long as `condition` does not yield `false`. -/
def loop (condition body : Run Value) : (rounds : Nat) → Run Value
  | 0 => .outOfFuel
  | rounds + 1 => fun store =>
    match condition store with
    | none => none
    | some (.error e, next) => some (.error e, next)
    | some (.ok v, next) =>
      if v.isFalse then some (.ok (.boolean false), next)
      else
        match body next with
        | none => none
        | some (.error e, last) => some (.error e, last)
        | some (.ok _, last) => loop condition body rounds last

/-- Evaluates trees in order; the value is that of the last one, or `value` if there is none. -/
def evalSequence (ev : Evaluator) (scope : ScopeId) (value : Value) : List Expr → Run Value
  | [] => pure value
  | e :: es => do
    let v ← ev e scope
    evalSequence ev scope v es

/-- The names of parameters, which have to be words. -/
def paramNames : List Expr → Except Error (List String)
  | [] => .ok []
  | .word name :: rest => (paramNames rest).map (name :: ·)
  | _ :: _ => .error (.malformed "Parameter names must be words")

namespace SpecialForm

/-- The rule of a special form. It looks after the number and shape of its arguments itself, with
messages of its own. -/
def rule (ev : Evaluator) (rounds : Nat) (form : SpecialForm) (args : List Expr)
    (scope : ScopeId) : Run Value :=
  match form, args with
  | .ifElse, [condition, yes, no] => do
    let v ← ev condition scope
    if v.isFalse then ev no scope else ev yes scope
  | .ifElse, _ => .fail (.malformed "Wrong number of args to if")
  | .whileLoop, [condition, body] => loop (ev condition scope) (ev body scope) rounds
  | .whileLoop, _ => .fail (.malformed "Wrong number of args to while")
  | .sequence, args => evalSequence ev scope (.boolean false) args
  | .define, [.word name, e] => do
    let v ← ev e scope
    Run.define scope name v
    pure v
  | .define, _ => .fail (.malformed "Incorrect use of define")
  | .set, [.word name, e] => do
    let v ← ev e scope
    Run.set scope name v
    pure v
  | .set, _ => .fail (.malformed "Set requires two arguments: a word and value")
  | .function, first :: rest => do
    let params ← Run.ofExcept (paramNames ((first :: rest).dropLast))
    Run.newClosure params ((first :: rest).getLast (List.cons_ne_nil _ _)) scope
  | .function, [] => .fail (.malformed "Functions need a body")

/-- Applies a special form: its rule, once the number of arguments is accepted. -/
def apply (ev : Evaluator) (rounds : Nat) (form : SpecialForm) (args : List Expr)
    (scope : ScopeId) : Run Value :=
  if form.arity.accepts args.length then form.rule ev rounds args scope
  else .fail (.malformed form.usage)

end SpecialForm

/-! ## Trees -/

def evalNode (operations : Operations) (ev : Evaluator) (rounds : Nat) : Evaluator
  | .literal l, _ => pure l.toValue
  | .word name, scope => .lookup scope name
  | .call operator args, scope =>
    match operator.asWord?.bind SpecialForm.find? with
    | some form => form.apply ev rounds args scope
    | none => do
      let f ← ev operator scope
      let vs ← evalAll ev scope args
      call operations ev f vs

/-- Evaluates a tree, within a bound on the nesting of evaluations and the rounds of loops. -/
def eval (operations : Operations) : (fuel : Nat) → Evaluator
  | 0, _, _ => .outOfFuel
  | fuel + 1, e, scope => evalNode operations (eval operations fuel) fuel e scope

end CallScript
