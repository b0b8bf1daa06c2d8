import CallScript.Operation
import CallScript.Store

/-!
# Runs

A run changes the store and ends with a value or an error; the store keeps what was changed before
an error. Evaluation need not end, so a run works within a bound, and one that reaches it has no
outcome at all, which is neither a value nor an error.
-/

namespace CallScript

/-- How a run ends: its result, and the store that it leaves behind. -/
abbrev Outcome (α : Type) := Except Error α × Store

/-- A run: what it does to a store, if it ends within its bound. -/
def Run (α : Type) : Type := Store → Option (Outcome α)

namespace Run

variable {α β : Type}

@[inline] protected def pure (a : α) : Run α :=
  fun store => some (.ok a, store)

/-- Goes on after a value; an error or a reached bound ends the run. -/
@[inline] protected def bind (x : Run α) (f : α → Run β) : Run β :=
  fun store =>
    match x store with
    | some (.ok a, next) => f a next
    | some (.error e, next) => some (.error e, next)
    | none => none

instance : Monad Run where
  pure := Run.pure
  bind := Run.bind

@[inline] def fail (error : Error) : Run α :=
  fun store => some (.error error, store)

/-- Has reached its bound. -/
@[inline] def outOfFuel : Run α :=
  fun _ => none

@[inline] def ofExcept (result : Except Error α) : Run α :=
  fun store => some (result, store)

/-- Takes a value from the store and changes the store. -/
@[inline] def update (f : Store → α × Store) : Run α :=
  fun store => let (a, next) := f store; some (.ok a, next)

/-! ## The store's operations as runs -/

def newScope (parent : Option ScopeId) : Run ScopeId :=
  update fun store => store.newScope parent

def lookup (scope : ScopeId) (name : String) : Run Value :=
  fun store =>
    match store.get? scope name with
    | some value => some (.ok value, store)
    | none => some (.error (.undefinedBinding name), store)

def define (scope : ScopeId) (name : String) (value : Value) : Run Unit :=
  update fun store => ((), store.define scope name value)

def defineAll (scope : ScopeId) (bindings : List (String × Value)) : Run Unit :=
  update fun store =>
    ((), bindings.foldl (fun store entry => store.define scope entry.1 entry.2) store)

/-- Rebinds a name in the nearest scope that binds it. -/
def set (scope : ScopeId) (name : String) (value : Value) : Run Unit :=
  fun store =>
    match store.set? scope name value with
    | some next => some (.ok (), next)
    | none => some (.error (.undefinedBinding name), store)

def newClosure (params : List String) (body : Expr) (scope : ScopeId) : Run Value :=
  update fun store => store.newClosure params body scope

/-- Prints what an operation prints, and ends with its result. -/
def reply (r : Reply) : Run Value :=
  fun store => some (r.result, store.print r.printed)

end Run

end CallScript
