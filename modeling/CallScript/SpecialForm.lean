import CallScript.Operation

/-!
# Special forms

The calls that receive their arguments unevaluated. They are told by the word that is called,
before any binding is looked at, so that a program can neither shadow nor pass them.
-/

namespace CallScript

inductive SpecialForm where
  | ifElse
  | whileLoop
  | sequence
  | define
  | set
  | function
deriving DecidableEq, Repr

namespace SpecialForm

def all : List SpecialForm :=
  [.ifElse, .whileLoop, .sequence, .define, .set, .function]

def name : SpecialForm → String
  | .ifElse => "if"
  | .whileLoop => "while"
  | .sequence => "do"
  | .define => "define"
  | .set => "set"
  | .function => "fun"

def arity : SpecialForm → Arity
  | .ifElse => .exact 3
  | .whileLoop => .exact 2
  | .sequence => .any
  | .define => .exact 2
  | .set => .exact 2
  | .function => .atLeast 1

/-- The message for a number of arguments that the form does not accept. -/
def usage : SpecialForm → String
  | .ifElse => "Wrong number of args to if"
  | .whileLoop => "Wrong number of args to while"
  | .sequence => ""
  | .define => "Incorrect use of define"
  | .set => "Set requires two arguments: a word and value"
  | .function => "Functions need a body"

def find? (word : String) : Option SpecialForm :=
  all.find? fun form => form.name == word

def tagged (form : SpecialForm) : String :=
  "SpecialForm \x7b name: " ++ Text.quoted form.name ++ ", arity: " ++ form.arity.tagged
    ++ ", .. \x7d"

end SpecialForm

end CallScript
