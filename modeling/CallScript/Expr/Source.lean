import CallScript.Expr.Basic
import CallScript.Number.Layout
import CallScript.Text.Quoted

/-!
# Trees as text

`source` writes a tree as program text, with one space after each comma and none elsewhere.
`tagged` shows its structure, every part under the name of its kind.
-/

namespace CallScript

/-- A constant as program text. There are no escapes: a string stands between quotes as it is. -/
def Literal.sourceChars : Literal → List Char
  | .number value => Number.Layout.plain.chars value
  | .string value => '"' :: value.toList ++ ['"']

def Literal.source (l : Literal) : String :=
  .ofList l.sourceChars

def Literal.tagged : Literal → String
  | .number value => "Number(" ++ Number.Layout.tagged.render value ++ ")"
  | .string value => "String(" ++ Text.quoted value ++ ")"

namespace Expr

mutual

def sourceChars : Expr → List Char
  | .literal value => value.sourceChars
  | .word name => name.toList
  | .call operator args => sourceChars operator ++ '(' :: sourceCharsAll args ++ [')']

/-- Arguments as program text, with a comma and a space between neighbours. -/
def sourceCharsAll : List Expr → List Char
  | [] => []
  | e :: es => sourceChars e ++ (if es.isEmpty then [] else [',', ' ']) ++ sourceCharsAll es

end

def source (e : Expr) : String :=
  .ofList (sourceChars e)

mutual

/-- A tree with every part under the name of its kind. -/
def tagged : Expr → String
  | .literal value => "Literal(" ++ value.tagged ++ ")"
  | .word name => "Word(" ++ Text.quoted name ++ ")"
  | .call operator args =>
    "Apply \x7b operator: " ++ tagged operator ++ ", args: " ++ Text.bracketed (taggedAll args)
      ++ " \x7d"

def taggedAll : List Expr → List String
  | [] => []
  | e :: es => tagged e :: taggedAll es

end

end Expr

end CallScript
