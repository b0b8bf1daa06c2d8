import CallScript.Eval.Basic
import CallScript.Source.Parse

/-!
# Worlds

What a host works with: the operations it has registered and the store, with the ways to change
them. Nothing here looks inside evaluation; every function passes the store through one run.
-/

namespace CallScript

structure World where
  operations : Operations := #[]
  store : Store := {}

namespace World

/-! ## Scopes and names -/

def newRoot (world : World) : ScopeId × World :=
  let (scope, store) := world.store.newScope none
  (scope, { world with store := store })

def newChild (world : World) (parent : ScopeId) : ScopeId × World :=
  let (scope, store) := world.store.newScope (some parent)
  (scope, { world with store := store })

def define (world : World) (scope : ScopeId) (name : String) (value : Value) : World :=
  { world with store := world.store.define scope name value }

/-- Rebinds a name in the nearest scope that binds it. -/
def set (world : World) (scope : ScopeId) (name : String) (value : Value) : Except Error World :=
  match world.store.set? scope name value with
  | some store => .ok { world with store := store }
  | none => .error (.undefinedBinding name)

/-- Registers an operation, and binds its name to it as a builtin. -/
def register (world : World) (scope : ScopeId) (name : String) (operation : Operation) : World where
  operations := world.operations.push operation
  store := world.store.define scope name (.builtin name world.operations.size)

def registerAll (world : World) (scope : ScopeId) (operations : List (String × Operation)) :
    World :=
  operations.foldl (fun world entry => world.register scope entry.1 entry.2) world

/-! ## Runs -/

def runOn {α : Type} (world : World) (run : Run α) : Option (Except Error α × World) :=
  (run world.store).map fun (result, store) => (result, { world with store := store })

def eval (world : World) (fuel : Nat) (e : Expr) (scope : ScopeId) :
    Option (Except Error Value × World) :=
  world.runOn (CallScript.eval world.operations fuel e scope)

def call (world : World) (fuel : Nat) (f : Value) (args : List Value) :
    Option (Except Error Value × World) :=
  world.runOn (CallScript.call world.operations (CallScript.eval world.operations fuel) f args)

/-- Evaluates the rule of a special form, without the check that its registry entry makes. -/
def applyRule (world : World) (fuel : Nat) (form : SpecialForm) (args : List Expr)
    (scope : ScopeId) : Option (Except Error Value × World) :=
  world.runOn (form.rule (CallScript.eval world.operations fuel) fuel args scope)

/-- Reads a program and evaluates it in a new scope inside `global`. -/
def run (world : World) (fuel : Nat) (program : String) (global : ScopeId) :
    Option (Except Error Value × World) :=
  match Source.parse program with
  | .error e => some (.error (.ofSyntax e), world)
  | .ok e =>
    let (scope, world) := world.newChild global
    world.eval fuel e scope

end World

end CallScript
