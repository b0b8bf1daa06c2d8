import CallScript.World

/-!
# The prelude

The bindings that every program starts with. Operators do not convert their operands: numbers go
with numbers and strings with strings.
-/

namespace CallScript

namespace Prelude

/-- The fault of an operator that does not apply to its operands. -/
def cannotCombine (operator : String) (a b : Value) : Error :=
  .typeError (.cannotCombine operator a.type b.type)

/-- The sum of two numbers, or two strings joined. -/
def add : Value → Value → Except Error Value
  | .number a, .number b => .ok (.number (a + b))
  | .string a, .string b => .ok (.string (a ++ b))
  | a, b => .error (cannotCombine "+" a b)

/-- Whether one number or string comes before another. -/
def less : Value → Value → Except Error Bool
  | .number a, .number b => .ok (decide (a < b))
  | .string a, .string b => .ok (decide (a < b))
  | a, b => .error (cannotCombine "<" a b)

/-- Whether one number or string comes after another. -/
def greater : Value → Value → Except Error Bool
  | .number a, .number b => .ok (decide (b < a))
  | .string a, .string b => .ok (decide (b < a))
  | a, b => .error (cannotCombine ">" a b)

def equal (a b : Value) : Except Error Bool :=
  if a.type = b.type then .ok (a == b) else .error (cannotCombine "==" a b)

/-- Prints a value and yields it. -/
def print (v : Value) : Reply where
  printed := [v]
  result := .ok v

/-- The item at an index, which has to be equal to a natural number. -/
def element (items : List Value) (index : Float) : Except Error Value :=
  match Number.toNat? index with
  | none => .error (.runError (.badIndex index))
  | some n =>
    match items[n]? with
    | some v => .ok v
    | none => .error (.runError (.indexOutOfRange index items.length))

/-- The item at an index, found by machine arithmetic: an index with a fraction or below zero is refused,
and any other one is cast to a machine word. The cast truncates, and what lies above the largest word
becomes that. As long as the length of the array is a machine word as well, this is `element`. -/
def elementByWord (items : List Value) (index : Float) : Except Error Value :=
  if Number.fraction index != 0 || index < 0 then .error (.runError (.badIndex index))
  else
    match items[index.toUSize.toNat]? with
    | some v => .ok v
    | none => .error (.runError (.indexOutOfRange index items.length))

/-- The operations of the prelude under their names. -/
def operations : List (String × Operation) :=
  [("+", .binary .any .any add),
    ("-", .binary .number .number fun a b : Float => a - b),
    ("*", .binary .number .number fun a b : Float => a * b),
    ("/", .binary .number .number fun a b : Float => a / b),
    ("<", .binary .any .any less),
    (">", .binary .any .any greater),
    ("==", .binary .any .any equal),
    ("print", .unary .any print),
    ("array", .variadic .any Value.array),
    ("length", .unary .items List.length),
    ("element", .binary .items .number element)]

end Prelude

namespace World

def installPrelude (world : World) (scope : ScopeId) : World :=
  ((world.define scope "true" (.boolean true)).define scope "false" (.boolean false)).registerAll
    scope Prelude.operations

/-- Makes a scope without a parent that holds the prelude. -/
def newGlobal (world : World) : ScopeId × World :=
  let (scope, world) := world.newRoot
  (scope, world.installPrelude scope)

end World

end CallScript
