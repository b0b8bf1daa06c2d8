import CallScript.Bindings
import CallScript.Number.Layout

/-!
# JSON values

Numbers that are written as integers and fit into 64 bits stay integers; all others are doubles.
The members of an object are kept in the order of their names, each name once, which is also the
order in which they are written. The text of a value is compact and escapes only what has to be.
-/

namespace CallScript

inductive Json where
  | null
  | bool (value : Bool)
  | int (value : Int)
  | double (value : Float)
  | string (value : String)
  | array (items : List Json)
  | object (members : List (String × Json))
deriving Inhabited

namespace Json

/-! ## Text -/

def stringChar (c : Char) : List Char :=
  if c = '"' then ['\\', '"']
  else if c = '\\' then ['\\', '\\']
  else if c = '\x08' then ['\\', 'b']
  else if c = '\x0c' then ['\\', 'f']
  else if c = '\n' then ['\\', 'n']
  else if c = '\r' then ['\\', 'r']
  else if c = '\t' then ['\\', 't']
  else if c.toNat < 0x20 then
    ['\\', 'u', '0', '0', Nat.digitChar (c.toNat / 16), Nat.digitChar (c.toNat % 16)]
  else [c]

def stringChars (s : String) : List Char :=
  '"' :: s.toList.flatMap stringChar ++ ['"']

def intChars (value : Int) : List Char :=
  if value < 0 then '-' :: Nat.toDigits 10 value.natAbs else Nat.toDigits 10 value.natAbs

mutual

def chars : Json → List Char
  | .null => ['n', 'u', 'l', 'l']
  | .bool true => ['t', 'r', 'u', 'e']
  | .bool false => ['f', 'a', 'l', 's', 'e']
  | .int value => intChars value
  | .double value => Number.Layout.interchange.chars value
  | .string value => stringChars value
  | .array items => '[' :: itemChars items ++ [']']
  | .object members => '\x7b' :: memberChars members ++ ['\x7d']

/-- The texts of array items, with commas between them. -/
def itemChars : List Json → List Char
  | [] => []
  | item :: rest => chars item ++ (if rest.isEmpty then [] else [',']) ++ itemChars rest

/-- The texts of object members, with commas between them. -/
def memberChars : List (String × Json) → List Char
  | [] => []
  | (name, value) :: rest =>
    stringChars name ++ ':' :: chars value ++ (if rest.isEmpty then [] else [','])
      ++ memberChars rest

end

def compact (json : Json) : String :=
  .ofList json.chars

/-- The JSON value of a number: an integer below `2 ^ 53` in magnitude is written as one, so minus
zero becomes `0`; what is not finite becomes `null`. -/
def ofFloat (x : Float) : Json :=
  match Number.toInt? x with
  | some n => if n.natAbs < 2 ^ 53 then .int n else .double x
  | none => if x.isFinite then .double x else .null

end Json

end CallScript
