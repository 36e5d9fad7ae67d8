import ApiLinker.Json.Fault

/-!
Number literals: where one ends, and which number it writes.

`Phase` follows the grammar of numbers character by character.  A complete literal is kept as its
digits, and `Numeral.number` gives its value: an integer if it is written as one and fits in 64
bits, and otherwise a double.
-/

namespace ApiLinker.Json

open Decimal

def isDigit (c : Char) : Bool :=
  '0' ≤ c && c ≤ '9'

def digitValue (c : Char) : Nat :=
  c.toNat - '0'.toNat

inductive Phase where
  | sign
  | leadingZero
  | whole
  | point
  | fraction
  | exponentMark
  | exponentSign
  | exponent
deriving DecidableEq, Repr

namespace Phase

/-- The phase after one more character, if the literal can go on with it. -/
def next? : Phase → Char → Option Phase
  | .sign, c => if c = '0' then some .leadingZero else if isDigit c then some .whole else none
  | .leadingZero, c => afterWhole c
  | .whole, c => if isDigit c then some .whole else afterWhole c
  | .point, c => if isDigit c then some .fraction else none
  | .fraction, c =>
      if isDigit c then some .fraction
      else if c = 'e' ∨ c = 'E' then some .exponentMark
      else none
  | .exponentMark, c =>
      if c = '+' ∨ c = '-' then some .exponentSign
      else if isDigit c then some .exponent
      else none
  | .exponentSign, c => if isDigit c then some .exponent else none
  | .exponent, c => if isDigit c then some .exponent else none
where
  afterWhole (c : Char) : Option Phase :=
    if c = '.' then some .point
    else if c = 'e' ∨ c = 'E' then some .exponentMark
    else none

def isComplete : Phase → Bool
  | .leadingZero | .whole | .fraction | .exponent => true
  | .sign | .point | .exponentMark | .exponentSign => false

end Phase

structure Numeral where
  negative : Bool
  whole : List Nat
  fraction : Option (List Nat) := none
  /-- Whether the exponent has a minus sign, and its digits. -/
  exponent : Option (Bool × List Nat) := none
deriving DecidableEq, Repr

namespace Numeral

def digits (text : List Char) : List Nat :=
  (text.takeWhile isDigit).map digitValue

def ofLiteral (literal : List Char) : Numeral :=
  let (negative, unsigned) := match literal with
    | '-' :: rest => (true, rest)
    | rest => (false, rest)
  let (fraction, scaled) := match unsigned.dropWhile isDigit with
    | '.' :: rest => (some (digits rest), rest.dropWhile isDigit)
    | rest => (none, rest)
  let exponent := match scaled with
    | _ :: '-' :: rest => some (true, digits rest)
    | _ :: '+' :: rest => some (false, digits rest)
    | _ :: rest => some (false, digits rest)
    | [] => none
  { negative, whole := digits unsigned, fraction, exponent }

def ofDigits (digits : List Nat) : Nat :=
  digits.foldl (fun value digit => value * 10 + digit) 0

def largestWord : Nat := UInt64.size - 1

/-- Appends digits to a significand as long as it stays within 64 bits; the digits that remain are
handed back. -/
def absorb (significand : Nat) : List Nat → Nat × List Nat
  | [] => (significand, [])
  | digit :: rest =>
      if significand * 10 + digit ≤ largestWord then absorb (significand * 10 + digit) rest
      else (significand, digit :: rest)

def powerOfTen (exponent : Nat) : Option Binary64 :=
  Binary64.ofFraction? false (Nat.pow 10 exponent) 1

/-- The largest exponent whose power of ten is a double. -/
def largestPower : Nat := 308

/-- The double for `significand * 10 ^ exponent`, rounded once to enter the significand and once for
each power of ten by which it is scaled; `none` if it is too large. -/
def scale (negative : Bool) (significand : Nat) (exponent : Int) : Option Binary64 := do
  let start ← Binary64.ofFraction? negative significand 1
  let bound : Int := largestPower
  if start.isZero then
    return start
  else if 0 ≤ exponent then
    if exponent ≤ bound then start.times (← powerOfTen exponent.toNat) else none
  else if -bound ≤ exponent then
    start.dividedBy (← powerOfTen (-exponent).toNat)
  else if -(2 * bound) ≤ exponent then
    let scaled ← start.dividedBy (← powerOfTen largestPower)
    scaled.dividedBy (← powerOfTen (-(exponent + bound)).toNat)
  else
    return Binary64.zero negative

/-- The double that a numeral writes.  Digits that no longer fit into 64 bits only count as
places. -/
def double (numeral : Numeral) : Option Binary64 :=
  let (significand, skipped) := absorb 0 numeral.whole
  let (significand, places) := match numeral.fraction with
    | none => (significand, (skipped.length : Int))
    | some digits =>
        let (significand, ignored) := absorb significand digits
        (significand, (skipped.length : Int) - (digits.length - ignored.length : Nat))
  let exponent : Int := match numeral.exponent with
    | none => 0
    | some (true, digits) => -(ofDigits digits : Int)
    | some (false, digits) => ofDigits digits
  scale numeral.negative significand (places + exponent)

/-- Minus zero is no integer. -/
def integer? (numeral : Numeral) : Option Int :=
  let value := ofDigits numeral.whole
  if numeral.fraction.isSome ∨ numeral.exponent.isSome then none
  else if numeral.negative then
    if 0 < value ∧ value ≤ UInt64.size / 2 then some (-(value : Int)) else none
  else if value ≤ largestWord then some value
  else none

def number (numeral : Numeral) : Except Fault Number :=
  match numeral.integer? with
  | some value => .ok (.integer value)
  | none =>
      match numeral.double with
      | some value => .ok (.float value)
      | none => .error .numberOutOfRange

end Numeral

end ApiLinker.Json
