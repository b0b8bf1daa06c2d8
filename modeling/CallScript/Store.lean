import CallScript.Bindings
import CallScript.Value

/-!
# The store

All scopes of a session, numbered in the order of their creation, together with the number of
closures made so far and the values printed so far. A scope may have a parent; a name is looked up
along the chain of parents, defined in one scope, and set in the nearest scope that binds it.
-/

namespace CallScript

/-- A scope: names with their values, and the scope around it. -/
structure Scope where
  parent : Option ScopeId
  bindings : Bindings Value
deriving Inhabited

/-- The scopes, and what else evaluation leaves behind. -/
structure Store where
  scopes : Array Scope := #[]
  -- How many closures have been made.
  closures : Nat := 0
  -- The values that have been printed, in order.
  printed : Array Value := #[]
deriving Inhabited

namespace Store

/-! ## Scopes -/

def newScope (store : Store) (parent : Option ScopeId) : ScopeId × Store :=
  (store.scopes.size, { store with scopes := store.scopes.push ⟨parent, .empty⟩ })

def parent? (store : Store) (scope : ScopeId) : Option ScopeId :=
  store.scopes[scope]?.bind (·.parent)

/-- The scopes on the way from a scope to its root, in at most `steps` steps. -/
def chainWithin (store : Store) : (steps : Nat) → ScopeId → List ScopeId
  | 0, _ => []
  | steps + 1, scope =>
    scope :: match store.parent? scope with
      | some parent => chainWithin store steps parent
      | none => []

/-- The scopes on the way from a scope to its root. A chain visits no scope twice, so it has at
most as many members as there are scopes. -/
def chain (store : Store) (scope : ScopeId) : List ScopeId :=
  store.chainWithin store.scopes.size scope

/-! ## Names -/

def bindings (store : Store) (scope : ScopeId) : Bindings Value :=
  match store.scopes[scope]? with
  | some s => s.bindings
  | none => .empty

def owns (store : Store) (scope : ScopeId) (name : String) : Bool :=
  (store.bindings scope).contains name

/-- The value of a name in a scope: that of the nearest scope on the chain that binds it. -/
def get? (store : Store) (scope : ScopeId) (name : String) : Option Value :=
  (store.chain scope).findSome? fun s => (store.bindings s).get? name

def define (store : Store) (scope : ScopeId) (name : String) (value : Value) : Store :=
  { store with
    scopes := store.scopes.modify scope fun s =>
      { s with bindings := s.bindings.insert name value } }

/-- Rebinds a name in the nearest scope that binds it, if there is one. -/
def set? (store : Store) (scope : ScopeId) (name : String) (value : Value) : Option Store :=
  ((store.chain scope).find? fun s => store.owns s name).map fun owner =>
    store.define owner name value

/-- All names that can be looked up from a scope, with their values. -/
def visible (store : Store) (scope : ScopeId) : Bindings Value :=
  (store.chain scope).foldr (fun s outer => outer.union (store.bindings s)) .empty

/-- A scope's own names and whether it has a parent, as text. -/
def describeScope (store : Store) (scope : ScopeId) : String :=
  "Environment \x7b bindings: "
    ++ Text.bracketed ((store.bindings scope).names.map Text.quoted)
    ++ ", has_parent: " ++ toString (store.parent? scope).isSome ++ " \x7d"

/-! ## Closures and output -/

def newClosure (store : Store) (params : List String) (body : Expr) (scope : ScopeId) :
    Value × Store :=
  (.closure ⟨store.closures, params, body, scope⟩, { store with closures := store.closures + 1 })

def print (store : Store) (values : List Value) : Store :=
  { store with printed := store.printed ++ values }

end Store

end CallScript
