import CallScript.Number.Decimal

/-!
# Doubles as exact numbers

A double is read off its bits as a sign, a natural mantissa and a binary exponent, so that every
later question about its value (is it a whole number, which digits name it) is a question about
natural numbers.
-/

namespace CallScript.Number

/-- What a double stands for. A finite one is `± mantissa * 2 ^ exponent`; a zero has mantissa `0`
and keeps its sign. -/
inductive Exact where
  | nan
  | infinite (negative : Bool)
  | finite (negative : Bool) (mantissa : Nat) (exponent : Int)
deriving DecidableEq, Repr

/-- Reads the fields of a double's bits: one of sign, eleven of exponent, fifty-two of fraction. -/
def Exact.ofBits (bits : Nat) : Exact :=
  let negative := decide (bits / 2 ^ 63 % 2 = 1)
  let field : Nat := bits / 2 ^ 52 % 2 ^ 11
  let fraction : Nat := bits % 2 ^ 52
  if field = 2 ^ 11 - 1 then
    if fraction = 0 then .infinite negative else .nan
  else if field = 0 then
    .finite negative fraction (-1074)
  else
    .finite negative (2 ^ 52 + fraction) (field - 1075)

/-- The exact value of a double. -/
def exact (x : Float) : Exact :=
  .ofBits x.toBits.toNat

/-- The whole number `± mantissa * 2 ^ exponent`, if that is one. -/
def Exact.toInt? : Exact → Option Int
  | .finite negative mantissa exponent =>
    let magnitude? : Option Nat :=
      if 0 ≤ exponent then some (mantissa * 2 ^ exponent.toNat)
      else if mantissa % 2 ^ (-exponent).toNat = 0 then some (mantissa / 2 ^ (-exponent).toNat)
      else none
    magnitude?.map fun magnitude : Nat => if negative then -(magnitude : Int) else magnitude
  | _ => none

/-- The integer that a double is numerically equal to. Minus zero equals `0`; a fraction, an
infinity and NaN equal none. -/
def toInt? (x : Float) : Option Int :=
  (exact x).toInt?

/-- The natural number that a double is numerically equal to. -/
def toNat? (x : Float) : Option Nat :=
  match toInt? x with
  | some (.ofNat n) => some n
  | _ => none

/-- A double without its fraction; an infinity and NaN stay as they are. -/
def truncate (x : Float) : Float :=
  match exact x with
  | .finite negative m e =>
    if 0 ≤ e then x
    else
      let magnitude := ofNat (m / 2 ^ (-e).toNat)
      if negative then -magnitude else magnitude
  | _ => x

def fraction (x : Float) : Float :=
  x - truncate x

end CallScript.Number
