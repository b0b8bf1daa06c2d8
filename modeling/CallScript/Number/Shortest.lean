import CallScript.Number.Decimal

/-!
# The shortest decimal of a double

Of all decimals that read back as a given positive double, `shortest` finds one with the fewest
digits, and of those the one nearest to the double. On the grid of decimals that end at a given
place only the two neighbours of the exact value can win, so it walks the places downward from
the leading digit and takes the first grid on which a neighbour reads back. Seventeen digits
always suffice; the exact decimal closes the search all the same, so that the result reads back
by construction.
-/

namespace CallScript.Number

/-- Which of two equally near decimals is written. -/
inductive Tie where
  | up
  | even
deriving DecidableEq, Repr

/-- The place of the first decimal digit of `num / den`, for positive numbers. -/
def decimalPlace (num den : Nat) : Int :=
  if den ≤ num then digitCount (num / den) - 1
  else -(digitCount ((den - 1) / num) : Int)

/-- The exact decimal expansion of `mantissa * 2 ^ exponent`. -/
def exactDecimal (mantissa : Nat) (exponent : Int) : Decimal :=
  if 0 ≤ exponent then ⟨mantissa * 2 ^ exponent.toNat, 0⟩
  else ⟨mantissa * 5 ^ (-exponent).toNat, exponent⟩

/-- The nearer of the two decimals around `num / den` that end at `place`, among those that
`readsBack` accepts. -/
def nearestAt (tie : Tie) (readsBack : Decimal → Bool) (num den : Nat) (place : Int) :
    Option Decimal :=
  let scaledNum := if 0 ≤ place then num else num * 10 ^ (-place).toNat
  let scaledDen := if 0 ≤ place then den * 10 ^ place.toNat else den
  let low : Decimal := ⟨scaledNum / scaledDen, place⟩
  let high : Decimal := ⟨scaledNum / scaledDen + 1, place⟩
  match readsBack low, readsBack high with
  | true, true =>
    match compare (2 * (scaledNum % scaledDen)) scaledDen with
    | .lt => some low
    | .gt => some high
    | .eq => some (if tie = .even ∧ low.digits % 2 = 0 then low else high)
  | true, false => some low
  | false, true => some high
  | false, false => none

/-- The shortest decimal that reads back as the positive double `mantissa * 2 ^ exponent`. -/
def shortest (tie : Tie) (mantissa : Nat) (exponent : Int) : Decimal :=
  let num := if 0 ≤ exponent then mantissa * 2 ^ exponent.toNat else mantissa
  let den := if 0 ≤ exponent then 1 else 2 ^ (-exponent).toNat
  let first := decimalPlace num den
  let readsBack (d : Decimal) : Bool := d.toBits == bitsOf mantissa exponent
  let found := (List.range 17).findSome? fun i : Nat =>
    nearestAt tie readsBack num den (first - i)
  (found.getD (exactDecimal mantissa exponent)).trim

end CallScript.Number
