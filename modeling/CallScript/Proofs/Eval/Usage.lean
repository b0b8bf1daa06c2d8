import CallScript.Proofs.Eval.Obeys
import CallScript.World

/-! # Special forms that are used wrongly

The number of arguments of a special form is looked at twice: by the table of the forms, before any
rule is applied, and by the rule itself. A rule refuses by itself each number of arguments that the
table refuses, with the table's message and before anything is evaluated (`rule_of_refused`), so the
table's check makes no difference (`form_applies_as_its_rule`). -/

namespace CallScript.SpecialForm

variable {ev : Evaluator} {rounds : Nat} {form : SpecialForm} {args : List Expr} {scope : ScopeId}

theorem find?_name (form : SpecialForm) : find? form.name = some form := by
  cases form <;> rfl

/-- Arguments of a number that the table refuses are refused by the rule, in the same words. -/
theorem rule_of_refused (refused : form.arity.accepts args.length = false) :
    form.rule ev rounds args scope = .fail (.malformed form.usage) := by
  fun_cases SpecialForm.rule ev rounds form args scope with
  | case2 | case4 | case7 | case9 | case11 => rfl
  -- arguments that a rule goes on with are of a number that the table accepts
  | case1 | case3 | case5 | case6 | case8 => cases refused
  | case10 first rest =>
    have accepted : 1 ≤ (first :: rest).length := Nat.le_add_left 1 rest.length
    rw [arity, Arity.accepts, decide_eq_false_iff_not] at refused
    exact absurd accepted refused

theorem apply_eq_rule (ev : Evaluator) (rounds : Nat) (form : SpecialForm) (args : List Expr)
    (scope : ScopeId) : form.apply ev rounds args scope = form.rule ev rounds args scope := by
  rw [SpecialForm.apply]
  split
  next => rfl
  next refused => exact (rule_of_refused (Bool.eq_false_iff.mpr refused)).symm

/-- A special form ends as its rule does, for any arguments in any scope and store: with the same
value or error, the same output and the same scopes. Likewise a program that calls a form by its name
ends as the host does that applies the rule. -/
theorem form_applies_as_its_rule (form : SpecialForm) (args : List Expr) (scope : ScopeId) :
    (∀ ev rounds store,
      form.apply ev rounds args scope store = form.rule ev rounds args scope store) ∧
    ∀ (world : World) fuel,
      world.eval (fuel + 1) (.call (.word form.name) args) scope =
        world.applyRule fuel form args scope := by
  constructor
  · intro ev rounds store
    rw [apply_eq_rule]
  · intro world fuel
    rw [World.eval, World.applyRule, eval, evalNode, Expr.asWord?, Option.bind_some, find?_name]
    dsimp only
    rw [apply_eq_rule]

end CallScript.SpecialForm
