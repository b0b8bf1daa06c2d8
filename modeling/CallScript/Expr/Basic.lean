/-!
# Program trees

A program is one expression: a constant, a word, or a call. The operator of a call may be any
expression, and whether a call is a special form is decided when it is evaluated. Trees are
compared as programs, so that numbers follow the rules of doubles: `-0` is the same constant as
`0`, and NaN is not the same constant as itself.
-/

namespace CallScript

inductive Literal where
  | number (value : Float)
  | string (value : String)
deriving Inhabited

/-- A program tree. -/
inductive Expr where
  | literal (value : Literal)
  | word (name : String)
  | call (operator : Expr) (args : List Expr)
deriving Inhabited

/-- Two constants are the same: numbers as doubles compare, strings as texts. -/
def Literal.same : Literal → Literal → Bool
  | .number a, .number b => a == b
  | .string a, .string b => a == b
  | _, _ => false

instance : BEq Literal := ⟨Literal.same⟩

namespace Expr

mutual

/-- Two trees are the same program. -/
def same : Expr → Expr → Bool
  | .literal a, .literal b => a == b
  | .word a, .word b => a == b
  | .call f as, .call g bs => same f g && sameAll as bs
  | _, _ => false

/-- Two lists of trees have the same length and the same programs at each place. -/
def sameAll : List Expr → List Expr → Bool
  | [], [] => true
  | a :: as, b :: bs => same a b && sameAll as bs
  | _, _ => false

end

instance : BEq Expr := ⟨same⟩

mutual

/-- The largest number of calls on a path from the root to a leaf, through operators as well as
arguments. -/
def height : Expr → Nat
  | .literal _ => 0
  | .word _ => 0
  | .call operator args => 1 + max (height operator) (heightAll args)

def heightAll : List Expr → Nat
  | [] => 0
  | e :: es => max (height e) (heightAll es)

end

def asWord? : Expr → Option String
  | .word name => some name
  | _ => none

/-- Wraps an operator in one call for each argument list, the first one innermost. -/
def callAll (operator : Expr) (lists : List (List Expr)) : Expr :=
  lists.foldl .call operator

end Expr

end CallScript
