/-!
# The bracket scan

A text can be refused for its nesting before any of it is read as JSON: the scan counts brackets
and braces, and passes over strings. A closing bracket without an opening one leaves the count at
zero.
-/

namespace CallScript.Json

inductive ScanState where
  | outside
  | inString
  -- Behind a backslash in a string.
  | escaped
deriving DecidableEq, Repr

/-- Whether brackets nest deeper than `limit`, starting from `depth` open ones. -/
def nestingExceedsFrom (limit : Nat) : ScanState → (depth : Nat) → List Char → Bool
  | _, _, [] => false
  | .escaped, depth, _ :: cs => nestingExceedsFrom limit .inString depth cs
  | .inString, depth, c :: cs =>
    nestingExceedsFrom limit
      (if c = '\\' then .escaped else if c = '"' then .outside else .inString) depth cs
  | .outside, depth, c :: cs =>
    if c = '"' then nestingExceedsFrom limit .inString depth cs
    else if c = '\x7b' ∨ c = '[' then
      if limit < depth + 1 then true else nestingExceedsFrom limit .outside (depth + 1) cs
    else if c = '\x7d' ∨ c = ']' then nestingExceedsFrom limit .outside (depth - 1) cs
    else nestingExceedsFrom limit .outside depth cs

/-- Whether brackets outside of strings nest deeper than `limit`. -/
def nestingExceeds (text : List Char) (limit : Nat) : Bool :=
  nestingExceedsFrom limit .outside 0 text

end CallScript.Json
