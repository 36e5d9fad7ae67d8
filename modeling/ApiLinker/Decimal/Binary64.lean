/-!
Double-precision numbers, held exactly.

A number is a sign, a significand below `2 ^ 53` and a power of two.  Apart from zero and the
numbers below the normal range, significands have their top bit set, so that equal numbers of one
sign are equal as data.  Arithmetic is exact followed by one rounding to the nearest number, a tie
going to the even significand; a result too large for the format is `none`.
-/

namespace ApiLinker.Decimal

structure Binary64 where
  negative : Bool
  significand : Nat
  exponent : Int
deriving DecidableEq, Repr

/-- The nearest integer to a fraction; halfway between two integers, the even one. -/
def roundFraction (numerator denominator : Nat) : Nat :=
  let quotient := numerator / denominator
  let twice := 2 * (numerator % denominator)
  if twice < denominator then quotient
  else if denominator < twice then quotient + 1
  else quotient + quotient % 2

/-- The power of two at or below a positive fraction. -/
def binaryOrder (numerator denominator : Nat) : Int :=
  let estimate : Int := (numerator.log2 : Int) - denominator.log2
  if denominator * Nat.pow 2 estimate.toNat ≤ numerator * Nat.pow 2 (-estimate).toNat then estimate
  else estimate - 1

namespace Binary64

def lowestExponent : Int := -1074

def highestExponent : Int := 971

/-- The least significand with the top bit set. -/
def leastNormal : Nat := Nat.pow 2 52

def zero (negative : Bool) : Binary64 :=
  { negative, significand := 0, exponent := lowestExponent }

def isZero (number : Binary64) : Bool :=
  number.significand == 0

/-- The nearest number to a fraction. -/
def ofFraction? (negative : Bool) (numerator denominator : Nat) : Option Binary64 :=
  if numerator = 0 then some (zero negative)
  else
    let exponent := max lowestExponent (binaryOrder numerator denominator - 52)
    let significand :=
      roundFraction (numerator * Nat.pow 2 (-exponent).toNat)
        (denominator * Nat.pow 2 exponent.toNat)
    let (significand, exponent) :=
      if significand = 2 * leastNormal then (leastNormal, exponent + 1) else (significand, exponent)
    if highestExponent < exponent then none else some { negative, significand, exponent }

def fraction (number : Binary64) : Nat × Nat :=
  (number.significand * Nat.pow 2 number.exponent.toNat, Nat.pow 2 (-number.exponent).toNat)

def times (left right : Binary64) : Option Binary64 :=
  ofFraction? (left.negative != right.negative) (left.fraction.1 * right.fraction.1)
    (left.fraction.2 * right.fraction.2)

/-- Division by a number other than zero. -/
def dividedBy (left right : Binary64) : Option Binary64 :=
  ofFraction? (left.negative != right.negative) (left.fraction.1 * right.fraction.2)
    (left.fraction.2 * right.fraction.1)

/-- Equality as numbers: the two zeros are one number. -/
def same (left right : Binary64) : Bool :=
  left == right || (left.isZero && right.isZero)

end Binary64

end ApiLinker.Decimal
