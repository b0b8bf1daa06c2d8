/-!
# Decimals and the doubles nearest to them

A decimal is a natural number times a power of ten. Reading one rounds its exact value once, to
the nearest double, a tie going to the even mantissa; what lies beyond the largest double by half
a unit or more becomes infinite.

The bits of a positive finite double `mantissa * 2 ^ exponent` are
`(exponent + 1074) * 2 ^ 52 + mantissa`. The formula also holds for a mantissa that rounding has
carried up to `2 ^ 53`, and for subnormal doubles, whose exponent is `-1074`.
-/

namespace CallScript.Number

/-- Powers of natural numbers, the same ones whatever else is imported. -/
@[default_instance 20000] instance (priority := 2000) natPow : Pow Nat Nat := instPowNat

/-- The number of decimal digits of `n`; `0` has one. -/
def digitCount (n : Nat) : Nat :=
  (Nat.toDigits 10 n).length

/-- The quotient rounded to the nearest natural number, a tie going to the even one. -/
def roundHalfEven (num den : Nat) : Nat :=
  let q := num / den
  let r := num % den
  if 2 * r < den then q else if den < 2 * r then q + 1 else q + q % 2

/-- The floor of the binary logarithm of `num / den`, for positive numbers. -/
def binaryPlace (num den : Nat) : Int :=
  let place : Int := (num.log2 : Int) - den.log2
  let reaches :=
    if 0 ≤ place then den * 2 ^ place.toNat ≤ num else den ≤ num * 2 ^ (-place).toNat
  if reaches then place else place - 1

/-- The exponent of the last mantissa bit of a double near `num / den`. -/
def lastExponent (num den : Nat) : Int :=
  max (binaryPlace num den - 52) (-1074)

def infinityBits : Nat :=
  (2 ^ 11 - 1) * 2 ^ 52

/-- The bits of the positive double `mantissa * 2 ^ exponent`. -/
def bitsOf (mantissa : Nat) (exponent : Int) : Nat :=
  (exponent + 1074).toNat * 2 ^ 52 + mantissa

/-- The bits of the double nearest to `num / den`. -/
def nearestBits (num den : Nat) : Nat :=
  if num = 0 then 0
  else
    let exponent := lastExponent num den
    let mantissa :=
      if 0 ≤ exponent then roundHalfEven num (den * 2 ^ exponent.toNat)
      else roundHalfEven (num * 2 ^ (-exponent).toNat) den
    min (bitsOf mantissa exponent) infinityBits

/-- The number `digits * 10 ^ exponent`. -/
structure Decimal where
  digits : Nat
  exponent : Int
deriving DecidableEq, Repr

namespace Decimal

/-- The place of the first digit, `0` for units. -/
def leadingPlace (d : Decimal) : Int :=
  digitCount d.digits + d.exponent - 1

/-- The bits of the nearest double. Outside the range of doubles the leading place alone decides,
so that no power of ten beyond that range is ever formed. -/
def toBits (d : Decimal) : Nat :=
  if d.digits = 0 then 0
  else if 308 < d.leadingPlace then infinityBits
  else if d.leadingPlace < -324 then 0
  else if 0 ≤ d.exponent then nearestBits (d.digits * 10 ^ d.exponent.toNat) 1
  else nearestBits d.digits (10 ^ (-d.exponent).toNat)

def toFloat (d : Decimal) : Float :=
  .ofBits (.ofNat d.toBits)

def trim (d : Decimal) : Decimal :=
  if d.digits ≠ 0 ∧ d.digits % 10 = 0 then
    trim ⟨d.digits / 10, d.exponent + 1⟩
  else d
termination_by d.digits
decreasing_by omega

end Decimal

/-- The double nearest to a natural number. -/
def ofNat (n : Nat) : Float :=
  Decimal.toFloat ⟨n, 0⟩

def ofInt (n : Int) : Float :=
  if n < 0 then -ofNat n.natAbs else ofNat n.natAbs

/-- The natural number that arises when a run of decimal digits is appended to `n`. -/
def natOfDigitsFrom (n : Nat) (digits : List Char) : Nat :=
  digits.foldl (fun n c => 10 * n + (c.toNat - '0'.toNat)) n

/-- The natural number that a run of decimal digits names. -/
def natOfDigits (digits : List Char) : Nat :=
  natOfDigitsFrom 0 digits

/-- The double nearest to the number that a run of decimal digits names. -/
def ofDigits (digits : List Char) : Float :=
  ofNat (natOfDigits digits)

end CallScript.Number
