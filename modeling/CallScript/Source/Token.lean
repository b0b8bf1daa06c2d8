import CallScript.Expr.Basic
import CallScript.Number.Decimal
import CallScript.Source.Space
import CallScript.Text.Run

/-!
# Tokens

A program text is a series of tokens with space around them: parentheses, commas, strings between
double quotes (there are no escapes), runs of digits, and words. A word is any other maximal run
of characters that do not end words; a run of digits that an identifier character follows is part
of a word. Where no token starts, at a quote that is never closed or at a `#` while comments are
off, stands the token `bad`, with nothing after it.

A token comes together with the text from its first character on, so that whatever reads the
tokens can say where it stopped.
-/

namespace CallScript.Source

def wordDelimiters : List Char := ['(', ')', ',', '#', '"']

def isWordChar (c : Char) : Bool :=
  !Text.isBlank c && !wordDelimiters.contains c

/-- Characters that may not follow a number directly. -/
def isIdentifierChar (c : Char) : Bool :=
  c.isAlphanum || c == '_'

inductive Atom where
  | string (text : List Char)
  | number (digits : List Char)
  | word (name : List Char)
deriving DecidableEq, Repr

def Atom.toExpr : Atom → Expr
  | .string text => .literal (.string (.ofList text))
  | .number digits => .literal (.number (Number.ofDigits digits))
  | .word name => .word (.ofList name)

inductive Token where
  | opening
  | closing
  | comma
  | atom (a : Atom)
  -- Stands where no token can start.
  | bad
deriving DecidableEq, Repr

/-! ## One token -/

/-- A run of digits, unless an identifier character follows it, or else a word. -/
def plainAtom (text : List Char) : Option (Atom × List Char) :=
  let digits := text.takeWhile Char.isDigit
  let afterDigits := text.dropWhile Char.isDigit
  if !digits.isEmpty && !(afterDigits.head?.any isIdentifierChar) then
    some (.number digits, afterDigits)
  else
    let name := text.takeWhile isWordChar
    if name.isEmpty then none else some (.word name, text.dropWhile isWordChar)

/-- The token at the start of a text, and the text after it. -/
def takeToken : List Char → Token × List Char
  | [] => (.bad, [])
  | '(' :: rest => (.opening, rest)
  | ')' :: rest => (.closing, rest)
  | ',' :: rest => (.comma, rest)
  | '"' :: rest =>
    match rest.dropWhile (· != '"') with
    | _ :: after => (.atom (.string (rest.takeWhile (· != '"'))), after)
    | [] => (.bad, [])
  | text =>
    match plainAtom text with
    | some (a, after) => (.atom a, after)
    | none => (.bad, [])

/-! ## Every token takes a character -/

theorem length_plainAtom_lt {text after : List Char} {a : Atom}
    (h : plainAtom text = some (a, after)) : after.length < text.length := by
  simp only [plainAtom] at h
  split at h
  · next hd =>
    simp only [Option.some.injEq, Prod.mk.injEq] at h
    obtain ⟨_, rfl⟩ := h
    simp only [Bool.and_eq_true, Bool.not_eq_true'] at hd
    exact Text.length_dropWhile_lt _ hd.1
  · split at h
    · simp at h
    · next hw =>
      simp only [Option.some.injEq, Prod.mk.injEq] at h
      obtain ⟨_, rfl⟩ := h
      exact Text.length_dropWhile_lt _ (by simpa using hw)

theorem length_takeToken_lt {text : List Char} (h : text ≠ []) :
    (takeToken text).2.length < text.length := by
  fun_cases takeToken text with
  | case1 => simp at h
  | case2 => simp
  | case3 => simp
  | case4 => simp
  | case5 rest c after hd =>
    have shorter : (rest.dropWhile (· != '"')).length ≤ rest.length :=
      (List.dropWhile_suffix _).length_le
    simp only [hd, List.length_cons] at shorter ⊢
    omega
  | case6 => simp
  | case7 text _ _ _ _ _ a after hp => exact length_plainAtom_lt hp
  | case8 => exact List.length_pos_iff.mpr h

/-- The next token of a text with the text from its first character on, and the text after it;
nothing if only space is left. -/
def nextToken (comments : Bool) (text : List Char) : Option (Token × List Char × List Char) :=
  match skipSpace comments text with
  | [] => none
  | c :: cs => some ((takeToken (c :: cs)).1, c :: cs, (takeToken (c :: cs)).2)

theorem length_nextToken_lt {comments : Bool} {text start after : List Char} {token : Token}
    (h : nextToken comments text = some (token, start, after)) : after.length < text.length := by
  have hle := length_skipSpace_le comments text
  simp only [nextToken] at h
  split at h
  · simp at h
  · next c cs hs =>
    simp only [Option.some.injEq, Prod.mk.injEq] at h
    obtain ⟨_, _, rfl⟩ := h
    rw [hs] at hle
    exact Nat.lt_of_lt_of_le (length_takeToken_lt (List.cons_ne_nil c cs)) hle

end CallScript.Source
