import ApiLinker.Decimal.Binary64

/-!
Shortest decimals: the fewest digits that round back to a given double.

The reals that round to a double form an interval around it, whose ends belong to it when the
significand is even.  On the grid of decimals with a given last place, only the two neighbours of
the double can lie in that interval unless all nearer ones do, so it is enough to try those two,
on one grid after the other from coarse to fine.
-/

namespace ApiLinker.Decimal

/-- A positive decimal: `digits * 10 ^ exponent`. -/
structure Shortest where
  digits : Nat
  exponent : Int
deriving DecidableEq, Repr

namespace Shortest

def digitCount (number : Nat) : Nat :=
  (Nat.toDigits 10 number).length

/-- The number of digits before the point of a positive fraction; for a fraction below one, minus
the number of zeros right after the point. -/
def decimalOrder (numerator denominator : Nat) : Int :=
  if denominator ≤ numerator then digitCount (numerator / denominator)
  else 1 - (digitCount ((denominator + numerator - 1) / numerator - 1) : Int)

/-- The neighbour of a double on the grid of multiples of `10 ^ place`, if one of its two neighbours
rounds back to the double.  Of two such the nearer is taken, and of two equally near the even one.

All lengths are counted in quarters of the double's last binary place. -/
def onGrid? (number : Binary64) (place : Int) : Option Nat :=
  let quarter := number.exponent - 2
  let scale := Nat.pow 2 quarter.toNat * Nat.pow 10 (-place).toNat
  let step := Nat.pow 2 (-quarter).toNat * Nat.pow 10 place.toNat
  let centre := 4 * number.significand
  let gapBelow :=
    if number.significand = Binary64.leastNormal ∧ Binary64.lowestExponent < number.exponent then 1
    else 2
  let inside (candidate : Nat) : Bool :=
    let low := (centre - gapBelow) * scale
    let high := (centre + 2) * scale
    if number.significand % 2 = 0 then
      decide (low ≤ candidate * step ∧ candidate * step ≤ high)
    else decide (low < candidate * step ∧ candidate * step < high)
  let below := centre * scale / step
  let past := centre * scale % step
  match inside below, inside (below + 1) with
  | true, true =>
      if 2 * past < step then some below
      else if step < 2 * past then some (below + 1)
      else some (below + below % 2)
  | true, false => some below
  | false, true => some (below + 1)
  | false, false => none

/-- Drops the zeros at the end, at most `limit` of them. -/
def trim : (limit : Nat) → Shortest → Shortest
  | 0, decimal => decimal
  | limit + 1, decimal =>
      if decimal.digits % 10 = 0 then
        trim limit { digits := decimal.digits / 10, exponent := decimal.exponent + 1 }
      else decimal

/-- The first grid with a hit, from `place` down; seventeen digits always suffice. -/
def search (number : Binary64) (place : Int) : (limit : Nat) → Shortest
  | 0 => { digits := number.significand, exponent := 0 }
  | limit + 1 =>
      match onGrid? number place with
      | some digits => trim 17 { digits, exponent := place }
      | none => search number (place - 1) limit

/-- The shortest decimal of a double other than zero, without its sign. -/
def ofBinary64 (number : Binary64) : Shortest :=
  search number (decimalOrder number.fraction.1 number.fraction.2 - 1) 17

end Shortest

end ApiLinker.Decimal
