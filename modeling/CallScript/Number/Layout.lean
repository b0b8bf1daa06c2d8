import CallScript.Number.Exact
import CallScript.Number.Shortest

/-!
# Layouts of numbers

A number is written with the digits of its shortest decimal. A `Layout` holds all that differs
between the three texts in which numbers appear: program text and messages (`plain`), tagged
structure text (`tagged`) and JSON (`interchange`).
-/

namespace CallScript.Number

structure Layout where
  -- Which of two equally near decimals is written.
  tie : Tie
  -- The leading places that are written positionally; the others take an exponent.
  positional : Int → Bool
  -- What follows the digits of a whole number in positional notation.
  wholeMark : List Char
  -- What stands before the digits of an exponent that is not negative.
  exponentSign : List Char

/-- Program text and messages: digits only, never an exponent. -/
def Layout.plain : Layout where
  tie := .up
  positional := fun _ => true
  wholeMark := []
  exponentSign := []

/-- Structure text: always told apart from an integer, and positional from `1e-4` up to `1e16`. -/
def Layout.tagged : Layout where
  tie := .up
  positional := fun place => decide (-4 ≤ place ∧ place < 16)
  wholeMark := ['.', '0']
  exponentSign := []

/-- JSON: positional for leading places from `-5` to `15`, otherwise with a signed exponent. -/
def Layout.interchange : Layout where
  tie := .even
  positional := fun place => decide (-5 ≤ place ∧ place < 16)
  wholeMark := ['.', '0']
  exponentSign := ['+']

namespace Layout

/-- The digits of a decimal with the point put where it belongs. -/
def positionalChars (layout : Layout) (d : Decimal) : List Char :=
  let digits := Nat.toDigits 10 d.digits
  if 0 ≤ d.exponent then
    digits ++ List.replicate d.exponent.toNat '0' ++ layout.wholeMark
  else
    let places := (-d.exponent).toNat
    if places < digits.length then
      digits.take (digits.length - places) ++ '.' :: digits.drop (digits.length - places)
    else
      '0' :: '.' :: List.replicate (places - digits.length) '0' ++ digits

/-- One digit, the others behind a point, and the leading place as an exponent. -/
def exponentChars (layout : Layout) (d : Decimal) : List Char :=
  let fraction := (Nat.toDigits 10 d.digits).drop 1
  let place := d.leadingPlace
  let sign := if place < 0 then ['-'] else layout.exponentSign
  (Nat.toDigits 10 d.digits).take 1 ++ (if fraction.isEmpty then [] else '.' :: fraction)
    ++ 'e' :: sign ++ Nat.toDigits 10 place.natAbs

/-- The text of a number that is neither NaN nor infinite. -/
def finiteChars (layout : Layout) (mantissa : Nat) (exponent : Int) : List Char :=
  if mantissa = 0 then '0' :: layout.wholeMark
  else
    let d := shortest layout.tie mantissa exponent
    if layout.positional d.leadingPlace then layout.positionalChars d else layout.exponentChars d

def chars (layout : Layout) (x : Float) : List Char :=
  let signed (negative : Bool) (text : List Char) := if negative then '-' :: text else text
  match exact x with
  | .nan => ['N', 'a', 'N']
  | .infinite negative => signed negative ['i', 'n', 'f']
  | .finite negative mantissa exponent => signed negative (layout.finiteChars mantissa exponent)

def render (layout : Layout) (x : Float) : String :=
  .ofList (layout.chars x)

end Layout

end CallScript.Number
