import CallScript.SyntaxError
import CallScript.Value

/-!
# Errors

All that can go wrong with a program, by cause. The wording is in `Error.message` alone.
-/

namespace CallScript

inductive TypeFault where
  -- An argument has another type than its parameter.
  | expected (wanted got : ValueType)
  -- An array that should hold numbers holds something else.
  | expectedNumbers (found : ValueType)
  -- An operator does not apply to two values of these types.
  | cannotCombine (operator : String) (left right : ValueType)
  -- A host's own complaint.
  | other (message : String)
deriving DecidableEq

def TypeFault.message : TypeFault → String
  | .expected wanted got => "expected " ++ wanted.name ++ ", got " ++ got.name
  | .expectedNumbers found => "expected array of numbers, found " ++ found.name
  | .cannotCombine operator left right =>
    operator ++ " cannot combine " ++ left.name ++ " and " ++ right.name
  | .other message => message

/-- Why an operation fails on values of the right types. -/
inductive RunFault where
  -- An index is not a natural number.
  | badIndex (index : Float)
  | indexOutOfRange (index : Float) (length : Nat)
  -- A host's own complaint.
  | other (message : String)
deriving DecidableEq

def RunFault.message : RunFault → String
  | .badIndex index =>
    "element index must be a non-negative integer, got " ++ Number.Layout.plain.render index
  | .indexOutOfRange index length =>
    "element index " ++ Number.Layout.plain.render index ++ " out of range for array of length "
      ++ toString length
  | .other message => message

inductive Error where
  | ofSyntax (error : SyntaxError)
  | undefinedBinding (name : String)
  -- A value that is no function is called; `shown` is its text.
  | notCallable (shown : String) (type : ValueType)
  | wrongArity (expected got : Nat)
  | typeError (fault : TypeFault)
  | runError (fault : RunFault)
deriving DecidableEq

namespace Error

def message : Error → String
  | .ofSyntax error => "SyntaxError: " ++ error.describe
  | .undefinedBinding name => "Undefined binding: " ++ name
  | .notCallable shown type => "Applying a non-function: " ++ shown ++ " (" ++ type.name ++ ")"
  | .wrongArity expected got =>
    "WrongArity: expected " ++ toString expected ++ " arguments, got " ++ toString got
  | .typeError fault => "Type error: " ++ fault.message
  | .runError fault => "EvaluationError: " ++ fault.message

/-- A special form is used with the wrong number or shape of arguments. -/
def malformed (message : String) : Error :=
  .ofSyntax (.malformed message)

end Error

end CallScript
