import CallScript.Text.Basic

/-!
# Space between tokens

White space and, where comments are on, comments: `#` up to the end of the line. A comment ends
before the line feed or carriage return, which is white space itself.
-/

namespace CallScript.Source

/-- The text from its first character that is neither white space nor part of a comment.
`inComment` says that the text starts inside a comment. -/
def skipFrom (comments : Bool) : (inComment : Bool) → List Char → List Char
  | _, [] => []
  | true, c :: cs => skipFrom comments (c != '\n' && c != '\r') cs
  | false, c :: cs =>
    if Text.isBlank c then skipFrom comments false cs
    else if comments && c == '#' then skipFrom comments true cs
    else c :: cs

def skipSpace (comments : Bool) (text : List Char) : List Char :=
  skipFrom comments false text

theorem length_skipFrom_le (comments inComment : Bool) (text : List Char) :
    (skipFrom comments inComment text).length ≤ text.length := by
  induction text generalizing inComment with
  | nil => cases inComment <;> simp [skipFrom]
  | cons c cs ih =>
    cases inComment with
    | true =>
      simp only [skipFrom, List.length_cons]
      exact Nat.le_succ_of_le (ih _)
    | false =>
      simp only [skipFrom, List.length_cons]
      split
      · exact Nat.le_succ_of_le (ih _)
      · split
        · exact Nat.le_succ_of_le (ih _)
        · simp

theorem length_skipSpace_le (comments : Bool) (text : List Char) :
    (skipSpace comments text).length ≤ text.length :=
  length_skipFrom_le comments false text

end CallScript.Source
