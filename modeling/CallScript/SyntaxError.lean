import CallScript.Text.Quoted

/-!
# Syntax errors

A syntax error says what is wrong with a program's text or with the shape of a special form. One
that points into a text also carries the offending character and the text around it.
-/

namespace CallScript

inductive SyntaxError.Kind where
  -- No expression can start here.
  | unexpectedSyntax
  -- Something other than a comma or a closing parenthesis follows an argument.
  | expectedSeparator
  -- The text ends inside an expression.
  | incomplete
  -- Something follows a complete program.
  | trailingContent
  -- More argument lists nest than the limit allows.
  | tooDeeplyNested
  -- A special form has the wrong number or shape of arguments.
  | malformedForm
deriving DecidableEq, Repr

/-- A syntax error. `context` is the text around the place, `found` the character at it. -/
structure SyntaxError where
  kind : SyntaxError.Kind
  message : String
  context : Option String := none
  found : Option String := none
deriving DecidableEq, Repr

namespace SyntaxError

/-! ## The text around a place -/

/-- How many characters of context stand before the place. -/
def contextBefore : Nat := 20

/-- How many characters of context there are in all. -/
def contextSize : Nat := 60

/-- What stands for the text that the context leaves out. -/
def ellipsis : List Char := ['[', '.', '.', '.', ']']

/-- Keeps the context on one line: line feeds are spelled out, carriage returns dropped. -/
def onOneLine (c : Char) : List Char :=
  if c = '\n' then ['\\', 'n'] else if c = '\r' then [] else [c]

def contextAt (text : List Char) (position : Nat) : List Char :=
  let start := position - contextBefore
  let shown := ((text.drop start).take contextSize).flatMap onOneLine
  (if 0 < start then ellipsis else []) ++ shown
    ++ (if start + contextSize < text.length then ellipsis else [])

/-- The position in a text at which its tail `rest` starts, by the sizes of the two. -/
def positionOf (text rest : List Char) : Nat :=
  Text.charsWithin (Text.byteSize text - Text.byteSize rest) text

/-- The error at the start of `rest`, the tail of `text` that has not been read. -/
def located (kind : Kind) (message : String) (text rest : List Char) : SyntaxError where
  kind := kind
  message := message
  context := some (.ofList (contextAt text (positionOf text rest)))
  found := rest.head?.map (String.singleton ·)

/-! ## Wording -/

/-- The error as text: the message, then the character found and the context, each on its line. -/
def describe (e : SyntaxError) : String :=
  e.message
    ++ (match e.found with
        | some found => "\nFound: " ++ Text.quoted found
        | none => "")
    ++ (match e.context with
        | some context => "\nContext: " ++ context
        | none => "")

/-- A special form that is used with the wrong number or shape of arguments. -/
def malformed (message : String) : SyntaxError where
  kind := .malformedForm
  message := message

end SyntaxError

end CallScript
