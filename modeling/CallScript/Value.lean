import CallScript.Expr.Source

/-!
# Values

What evaluation yields. A closure captures a scope by its number in the store, and two closures
are the same only if they were made by the same evaluation of `fun`; a builtin refers to its
operation by number as well, and is told apart from others by its name.
-/

namespace CallScript

abbrev ScopeId := Nat

/-- The number of an operation that the host has registered. -/
abbrev OperationId := Nat

structure Closure where
  -- How many closures were made before this one.
  serial : Nat
  params : List String
  body : Expr
  -- The scope in which `fun` was evaluated.
  scope : ScopeId

/-- A value. -/
inductive Value where
  | number (value : Float)
  | string (value : String)
  | boolean (value : Bool)
  | array (items : List Value)
  | builtin (name : String) (operation : OperationId)
  | closure (value : Closure)

instance : Inhabited Value := ⟨.boolean false⟩

inductive ValueType where
  | number
  | string
  | boolean
  | array
  | function
deriving DecidableEq, Repr

def ValueType.name : ValueType → String
  | .number => "number"
  | .string => "string"
  | .boolean => "boolean"
  | .array => "array"
  | .function => "function"

def Literal.toValue : Literal → Value
  | .number value => .number value
  | .string value => .string value

namespace Value

def type : Value → ValueType
  | .number _ => .number
  | .string _ => .string
  | .boolean _ => .boolean
  | .array _ => .array
  | .builtin _ _ => .function
  | .closure _ => .function

/-- Only the truth value `false` counts as false. -/
def isFalse : Value → Bool
  | .boolean value => !value
  | _ => false

/-! ## Equality -/

mutual

/-- Two values are equal: numbers as doubles compare, arrays by their items, builtins by name, and
closures only if they are the same closure. -/
def same : Value → Value → Bool
  | .number a, .number b => a == b
  | .string a, .string b => a == b
  | .boolean a, .boolean b => a == b
  | .array as, .array bs => sameAll as bs
  | .builtin a _, .builtin b _ => a == b
  | .closure a, .closure b => a.serial == b.serial
  | _, _ => false

/-- Two lists of values have the same length and equal values at each place. -/
def sameAll : List Value → List Value → Bool
  | [], [] => true
  | a :: as, b :: bs => same a b && sameAll as bs
  | _, _ => false

end

instance : BEq Value := ⟨same⟩

/-! ## Text -/

mutual

/-- A value as text. A string stands as it is, and between quotes inside an array. -/
def display : Value → String
  | .number value => Number.Layout.plain.render value
  | .string value => value
  | .boolean value => toString value
  | .array items => Text.bracketed (displayItems items)
  | .builtin name _ => "#<builtin:" ++ name ++ ">"
  | .closure _ => "#<function>"

def displayItems : List Value → List String
  | [] => []
  | .string value :: rest => ("\"" ++ value ++ "\"") :: displayItems rest
  | item :: rest => display item :: displayItems rest

end

mutual

def tagged : Value → String
  | .number value => "Number(" ++ Number.Layout.plain.render value ++ ")"
  | .string value => "String(" ++ Text.quoted value ++ ")"
  | .boolean value => "Bool(" ++ toString value ++ ")"
  | .array items => "Array(" ++ Text.bracketed (taggedItems items) ++ ")"
  | .builtin name _ => "Builtin(" ++ name ++ ")"
  | .closure value =>
    "Function(params=" ++ Text.bracketed (value.params.map Text.quoted) ++ ", body="
      ++ value.body.source ++ ")"

def taggedItems : List Value → List String
  | [] => []
  | item :: rest => tagged item :: taggedItems rest

end

end Value

end CallScript
