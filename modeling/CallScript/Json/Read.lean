import CallScript.Json.Token

/-!
# Reading JSON

The reader is a machine with a stack, whose frames are the objects and arrays that are open. It
reads one value from the front of a text. A value that is not closed by a delimiter of its own, a
scalar at top level, has to be followed by white space, a delimiter or the end.
-/

namespace CallScript.Json

inductive Frame where
  -- An array with the items read so far, the last one first.
  | array (items : List Json)
  -- An object between two members.
  | object (members : List (String × Json))
  -- An object in which the member of that name is being read.
  | member (members : List (String × Json)) (name : String)

/-- The place between two tokens. -/
inductive State where
  -- A value has to start.
  | value (stack : List Frame)
  -- An array has opened: a value has to start, or the array closes.
  | firstItem (stack : List Frame)
  -- An object has opened: a name has to stand here, or the object closes.
  | firstName (stack : List Frame)
  -- A name has to stand here.
  | name (members : List (String × Json)) (stack : List Frame)
  -- A name has been read, and a colon has to follow.
  | colon (members : List (String × Json)) (name : String) (stack : List Frame)
  -- A value has been read.
  | after (json : Json) (stack : List Frame)

def startValue (stack : List Frame) : Token → Option State
  | .openBrace => some (.firstName stack)
  | .openBracket => some (.firstItem stack)
  | .string s => some (.after (.string s) stack)
  | .scalar json => some (.after json stack)
  | _ => none

/-- Moves the machine over one token; nothing if the token may not stand there. -/
def step : State → Token → Option State
  | .value stack, token => startValue stack token
  | .firstItem stack, .closeBracket => some (.after (.array []) stack)
  | .firstItem stack, token => startValue (.array [] :: stack) token
  | .firstName stack, .closeBrace => some (.after (.object []) stack)
  | .firstName stack, .string s => some (.colon [] s stack)
  | .firstName _, _ => none
  | .name members stack, .string s => some (.colon members s stack)
  | .name _ _, _ => none
  | .colon members name stack, .colon => some (.value (.member members name :: stack))
  | .colon _ _ _, _ => none
  | .after json (.array items :: stack), .comma =>
    some (.value (.array (json :: items) :: stack))
  | .after json (.array items :: stack), .closeBracket =>
    some (.after (.array (json :: items).reverse) stack)
  | .after json (.member members name :: stack), .comma =>
    some (.name (Bindings.put name json members) stack)
  | .after json (.member members name :: stack), .closeBrace =>
    some (.after (.object (Bindings.put name json members)) stack)
  | .after _ _, _ => none

/-- The text from its first character that is not white space. -/
def skipSpace (text : List Char) : List Char :=
  text.dropWhile isSpace

/-- Runs the machine until no object or array is open: the value that it has read, and the text
after it. -/
def run (state : State) (text : List Char) : Option (Json × List Char) :=
  match state with
  | .after json [] => some (json, text)
  | state =>
    match _h : takeToken (skipSpace text) with
    | none => none
    | some (token, after) =>
      match step state token with
      | none => none
      | some next => run next after
termination_by text.length
decreasing_by
  exact Nat.lt_of_lt_of_le (length_takeToken_lt _h) (List.dropWhile_suffix _).length_le

/-! ## The end of a value -/

/-- Whether a value ends with a delimiter of its own. -/
def isDelimited : Json → Bool
  | .string _ => true
  | .array _ => true
  | .object _ => true
  | _ => false

/-- The characters, white space apart, that may follow a scalar. -/
def scalarEnds : List Char := ['"', '[', ']', '\x7b', '\x7d', ',', ':']

/-- Whether the text after a scalar lets the scalar end there. -/
def endsScalar : List Char → Bool
  | [] => true
  | c :: _ => isSpace c || scalarEnds.contains c

/-- The value at the front of a text, and the text after it. -/
def read (text : List Char) : Option (Json × List Char) :=
  match run (.value []) text with
  | some (json, rest) => if isDelimited json || endsScalar rest then some (json, rest) else none
  | none => none

end CallScript.Json
