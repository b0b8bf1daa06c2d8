import CallScript.Expr.Basic
import CallScript.Json.Nesting
import CallScript.Json.Read
import CallScript.SyntaxError

/-!
# Trees as JSON

Each node of a tree is an object that says under `type` what it is: a constant has a `value`, a
word a `name`, a call an `operator` and an array of `args`. Reading accepts further members, and
trees up to a height of `maxHeight`. Every level of calls adds its object and its array, so a text
that opens more than `maxNesting` brackets at once is refused before any of it is read.
-/

namespace CallScript

/-! ## Writing -/

def Literal.toJson : Literal → Json
  | .number value => .ofFloat value
  | .string value => .string value

namespace Expr

mutual

def toJson : Expr → Json
  | .literal value => .object [("type", .string "value"), ("value", value.toJson)]
  | .word name => .object [("name", .string name), ("type", .string "word")]
  | .call operator args =>
    .object [("args", .array (toJsonAll args)), ("operator", toJson operator),
      ("type", .string "apply")]

def toJsonAll : List Expr → List Json
  | [] => []
  | e :: es => toJson e :: toJsonAll es

end

def toJsonText (e : Expr) : String :=
  e.toJson.compact

/-! ## Reading -/

def maxHeight : Nat := 256

/-- The deepest nesting of brackets in the JSON of a tree that is not too high. -/
def maxNesting : Nat := 2 * maxHeight + 1

inductive JsonFault where
  | tooDeep
  -- The text holds nothing.
  | emptyText
  -- The text does not start with a JSON value.
  | invalid
  -- Something follows the first value.
  | trailing
  | notNode (json : Json)
  | noType
  | unknownType (name : String)
  | noValue
  | noName
  | noOperator
  | noArgs

namespace JsonFault

def message : JsonFault → String
  | .tooDeep =>
    "JSON syntax tree too deeply nested (max depth: " ++ toString maxHeight ++ ")"
  | .emptyText => "Invalid JSON: empty input"
  -- A library for JSON would say here what is wrong and where. The reader keeps no reason, so one
  -- constant text stands for all that such a library has to say.
  | .invalid => "Invalid JSON: no value can be read"
  | .trailing => "Invalid JSON: trailing content after the tree"
  | .notNode json => "Expected a node object, got " ++ json.compact
  | .noType => "Node objects need a string \"type\""
  | .unknownType name => "Unknown node type: " ++ name
  | .noValue => "Value nodes need a string or number \"value\""
  | .noName => "Word nodes need a string \"name\""
  | .noOperator => "Apply nodes need an \"operator\""
  | .noArgs => "Apply nodes need an \"args\" array"

/-- The fault as a syntax error, which points at no place. -/
def toSyntaxError (fault : JsonFault) : SyntaxError where
  kind := match fault with
    | .tooDeep => .tooDeeplyNested
    | _ => .unexpectedSyntax
  message := fault.message

end JsonFault

/-- The constant of a node whose `type` is `value`. -/
def literalOfJson (members : List (String × Json)) : Except JsonFault Expr :=
  match Bindings.lookup? "value" members with
  | some (.string s) => .ok (.literal (.string s))
  | some (.int n) => .ok (.literal (.number (Number.ofInt n)))
  | some (.double x) => .ok (.literal (.number x))
  | _ => .error .noValue

/-- The word of a node whose `type` is `word`. -/
def wordOfJson (members : List (String × Json)) : Except JsonFault Expr :=
  match Bindings.lookup? "name" members with
  | some (.string name) => .ok (.word name)
  | _ => .error .noName

/-- The tree of a JSON value, if it has fewer than `levels` levels of calls. -/
def ofJson (levels : Nat) (json : Json) : Except JsonFault Expr :=
  match levels, json with
  | 0, _ => .error .tooDeep
  | levels + 1, .object members =>
    match Bindings.lookup? "type" members with
    | some (.string "value") => literalOfJson members
    | some (.string "word") => wordOfJson members
    | some (.string "apply") =>
      match Bindings.lookup? "operator" members, Bindings.lookup? "args" members with
      | none, _ => .error .noOperator
      | some operator, some (.array args) => do
        let operator ← ofJson levels operator
        let args ← args.mapM (ofJson levels)
        return .call operator args
      | some _, _ => .error .noArgs
    | some (.string other) => .error (.unknownType other)
    | _ => .error .noType
  | _, json => .error (.notNode json)

def readJson (text : List Char) : Except JsonFault Expr :=
  if Json.nestingExceeds text maxNesting then .error .tooDeep
  else if (Json.skipSpace text).isEmpty then .error .emptyText
  else
    match Json.read text with
    | none => .error .invalid
    | some (json, rest) =>
      if (Json.skipSpace rest).isEmpty then ofJson (maxHeight + 1) json else .error .trailing

def ofJsonText (text : String) : Except SyntaxError Expr :=
  (readJson text.toList).mapError (·.toSyntaxError)

end Expr

end CallScript
