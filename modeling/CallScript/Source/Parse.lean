import CallScript.Source.Token
import CallScript.SyntaxError

/-!
# Reading program text

The reader is a machine with a stack. Between two tokens either an expression has to start, or one
has just been read; the stack holds the argument lists that are open around that place. Each token
moves the machine on, ends an expression, or is a fault, so the text is read once from left to
right, and what has been read of an enclosing call lies in the stack and not in the recursion.

An expression's nesting counts argument lists: those that are open around it, and those that
follow it in a chain, so that in `f(a)(b)` the tree of `a` lies one level deep and that of `b` two.
-/

namespace CallScript.Source

structure Options where
  -- Whether `#` starts a comment.
  comments : Bool := true
  -- The largest nesting of argument lists.
  maxDepth : Nat := 256
deriving DecidableEq, Repr

/-! ## Faults -/

inductive Fault where
  -- No expression starts here.
  | unexpected
  -- The text ends where an expression has to start.
  | endOfText
  -- The text ends after an argument.
  | endOfArguments
  -- No comma and no closing parenthesis follows an argument.
  | noSeparator
  -- An argument list opens below the limit.
  | tooDeep
  -- Something follows the program.
  | trailing
deriving DecidableEq, Repr

namespace Fault

def kind : Fault → SyntaxError.Kind
  | .unexpected => .unexpectedSyntax
  | .endOfText => .incomplete
  | .endOfArguments => .incomplete
  | .noSeparator => .expectedSeparator
  | .tooDeep => .tooDeeplyNested
  | .trailing => .trailingContent

/-- The message of a fault; `rest` is the text that starts at it. -/
def message (maxDepth : Nat) (rest : List Char) : Fault → String
  | .unexpected => "Unexpected syntax: " ++ .ofList (rest.take 10)
  | .endOfText => "Unexpected end of input"
  | .endOfArguments => "Unexpected end of input in argument list"
  | .noSeparator => "Expected ',' or ')'"
  | .tooDeep => "Expression too deeply nested (max depth: " ++ toString maxDepth ++ ")"
  | .trailing => "Unexpected text after program"

end Fault

/-! ## The machine -/

/-- An open argument list: the operator before it, its nesting, and the arguments read so far, the
last one first. -/
structure Frame where
  operator : Expr
  depth : Nat
  args : List Expr

/-- The call that an argument list makes when it closes. -/
def Frame.close (frame : Frame) : Expr :=
  .call frame.operator frame.args.reverse

def Frame.push (frame : Frame) (arg : Expr) : Frame :=
  { frame with args := arg :: frame.args }

/-- The place between two tokens. -/
inductive State where
  -- An expression has to start here, or else the innermost argument list closes.
  | before (stack : List Frame)
  -- An expression has been read; `depth` is the nesting of the last argument list of its chain.
  | after (e : Expr) (depth : Nat) (stack : List Frame)

/-- The nesting of an expression that starts inside the innermost open argument list. -/
def startDepth : List Frame → Nat
  | [] => 0
  | frame :: _ => frame.depth

inductive Step where
  | move (state : State)
  -- The expression is complete, and the token is not part of it.
  | stop (e : Expr)
  | fail (fault : Fault)

def step (maxDepth : Nat) : State → Token → Step
  | .before stack, .atom a => .move (.after a.toExpr (startDepth stack) stack)
  | .before (frame :: stack), .closing => .move (.after frame.close frame.depth stack)
  | .before _, _ => .fail .unexpected
  | .after e depth stack, .opening =>
    if maxDepth ≤ depth then .fail .tooDeep else .move (.before (⟨e, depth + 1, []⟩ :: stack))
  | .after e _ (frame :: stack), .comma => .move (.before (frame.push e :: stack))
  | .after e _ (frame :: stack), .closing =>
    .move (.after (frame.push e).close frame.depth stack)
  | .after _ _ (_ :: _), _ => .fail .noSeparator
  | .after e _ [], _ => .stop e

def finish : State → Except Fault Expr
  | .before _ => .error .endOfText
  | .after e _ [] => .ok e
  | .after _ _ (_ :: _) => .error .endOfArguments

structure Failure where
  fault : Fault
  rest : List Char

/-- Reads one expression: its tree and the text from the first token that is not part of it. -/
def run (options : Options) (state : State) (text : List Char) :
    Except Failure (Expr × List Char) :=
  match _h : nextToken options.comments text with
  | none =>
    match finish state with
    | .ok e => .ok (e, [])
    | .error fault => .error ⟨fault, []⟩
  | some (token, start, after) =>
    match step options.maxDepth state token with
    | .move next => run options next after
    | .stop e => .ok (e, start)
    | .fail fault => .error ⟨fault, start⟩
termination_by text.length
decreasing_by exact length_nextToken_lt _h

/-- Reads a program: one expression, with nothing but space around it. -/
def runProgram (options : Options) (text : List Char) : Except Failure Expr :=
  match run options (.before []) text with
  | .ok (e, []) => .ok e
  | .ok (_, rest) => .error ⟨.trailing, rest⟩
  | .error failure => .error failure

/-! ## Reading strings -/

/-- The failure as a syntax error that points into the text. -/
def Failure.toSyntaxError (failure : Failure) (options : Options) (text : List Char) :
    SyntaxError :=
  .located failure.fault.kind (failure.fault.message options.maxDepth failure.rest) text
    failure.rest

/-- The tree of a program text that is read in the given way. -/
def parseWith (options : Options) (text : String) : Except SyntaxError Expr :=
  (runProgram options text.toList).mapError (·.toSyntaxError options text.toList)

def parse (text : String) : Except SyntaxError Expr :=
  parseWith {} text

/-- Runs the machine from a state, and names the rest of the text as a string. -/
def parseFrom (state : State) (text : String) : Except SyntaxError (Expr × String) :=
  match run {} state text.toList with
  | .ok (e, rest) => .ok (e, .ofList rest)
  | .error failure => .error (failure.toSyntaxError {} text.toList)

/-- The expression at the start of a text, and the rest of the text after the space behind it. -/
def parseExpression (text : String) : Except SyntaxError (Expr × String) :=
  parseFrom (.before []) text

/-- Reads the argument lists at the start of a text as calls of `operator`. -/
def parseCalls (operator : Expr) (text : String) : Except SyntaxError (Expr × String) :=
  parseFrom (.after operator 0 []) text

end CallScript.Source
