import CallScript.Error

/-!
# Operations

An operation is a function that the host offers to programs. It works on values, cannot touch a
scope, and replies with a value or an error and with what it prints. The adapters `unary`, `binary`
and `variadic` turn a typed function into an operation: the number of arguments is checked first,
then the arguments are converted from left to right, and only then is the function called.
-/

namespace CallScript

/-- What an operation does: the values it prints, and its result. -/
structure Reply where
  printed : List Value := []
  result : Except Error Value

/-- A reply that is an error. -/
def Reply.fail (error : Error) : Reply where
  result := .error error

abbrev Operation := List Value → Reply

/-! ## Results -/

class ToReply (α : Type) where
  toReply : α → Reply

export ToReply (toReply)

instance : ToReply Reply := ⟨id⟩
instance : ToReply Value := ⟨fun v => { result := .ok v }⟩
instance : ToReply Float := ⟨fun x => { result := .ok (.number x) }⟩
instance : ToReply String := ⟨fun s => { result := .ok (.string s) }⟩
instance : ToReply Bool := ⟨fun b => { result := .ok (.boolean b) }⟩
instance : ToReply Nat := ⟨fun n => { result := .ok (.number (Number.ofNat n)) }⟩

instance {α : Type} [ToReply α] : ToReply (Except Error α) where
  toReply
    | .ok a => toReply a
    | .error e => .fail e

/-! ## Parameters -/

inductive Param where
  | number
  | boolean
  | string
  -- Any value.
  | any
  -- The items of an array.
  | items
deriving DecidableEq, Repr

namespace Param

/-- What a function receives for a parameter. -/
abbrev Arg : Param → Type
  | .number => Float
  | .boolean => Bool
  | .string => String
  | .any => Value
  | .items => List Value

/-- The argument for a parameter, or the fault that it has another type. -/
def convert : (p : Param) → Value → Except Error p.Arg
  | .number, .number x => .ok x
  | .number, v => .error (.typeError (.expected .number v.type))
  | .boolean, .boolean b => .ok b
  | .boolean, v => .error (.typeError (.expected .boolean v.type))
  | .string, .string s => .ok s
  | .string, v => .error (.typeError (.expected .string v.type))
  | .any, v => .ok v
  | .items, .array vs => .ok vs
  | .items, v => .error (.typeError (.expected .array v.type))

end Param

/-- The numbers in an array; the first item that is none is at fault. -/
def numbersOf : List Value → Except Error (List Float)
  | [] => .ok []
  | .number x :: rest => (numbersOf rest).map (x :: ·)
  | v :: _ => .error (.typeError (.expectedNumbers v.type))

/-! ## Counts of arguments -/

inductive Arity where
  | exact (count : Nat)
  | atLeast (count : Nat)
  | any
deriving DecidableEq, Repr

namespace Arity

def accepts : Arity → Nat → Bool
  | .exact n, count => count == n
  | .atLeast n, count => n ≤ count
  | .any, _ => true

def least : Arity → Nat
  | .exact n => n
  | .atLeast n => n
  | .any => 0

def validate (arity : Arity) (count : Nat) : Except Error Unit :=
  if arity.accepts count then .ok () else .error (.wrongArity arity.least count)

def describe : Arity → String
  | .exact n => toString n
  | .atLeast n => "at least " ++ toString n
  | .any => "any number of"

/-- The accepted counts under the name of their kind. -/
def tagged : Arity → String
  | .exact n => "Exact(" ++ toString n ++ ")"
  | .atLeast n => "AtLeast(" ++ toString n ++ ")"
  | .any => "Any"

end Arity

/-! ## Adapters -/

namespace Operation

def unary {α : Type} [ToReply α] (p : Param) (f : p.Arg → α) : Operation
  | [a] =>
    match p.convert a with
    | .ok a => toReply (f a)
    | .error e => .fail e
  | args => .fail (.wrongArity 1 args.length)

def binary {α : Type} [ToReply α] (p q : Param) (f : p.Arg → q.Arg → α) : Operation
  | [a, b] =>
    match p.convert a with
    | .error e => .fail e
    | .ok a =>
      match q.convert b with
      | .error e => .fail e
      | .ok b => toReply (f a b)
  | args => .fail (.wrongArity 2 args.length)

/-- A function of all its arguments, whose number is bounded. -/
def variadic {α : Type} [ToReply α] (arity : Arity) (f : List Value → α) : Operation :=
  fun args =>
    match arity.validate args.length with
    | .ok () => toReply (f args)
    | .error e => .fail e

/-- A function that looks after its arguments itself. -/
def plain {α : Type} [ToReply α] (f : List Value → α) : Operation :=
  fun args => toReply (f args)

end Operation

end CallScript
