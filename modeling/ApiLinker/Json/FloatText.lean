import ApiLinker.Decimal.Shortest

/-!
The text of a float: its shortest digits, always with a point or an exponent.

Numbers from `10 ^ -5` up to `10 ^ 16` are written with a point, all others with one digit before
the point and an exponent, whose sign is always written.
-/

namespace ApiLinker.Json

open Decimal

/-- The place of the point, counted from the first digit, up to which it is written out. -/
def lastWrittenPoint : Int := 16

/-- The place of the point, counted from the first digit, from which it is written out. -/
def firstWrittenPoint : Int := -4

def zeros (count : Nat) : String :=
  String.ofList (List.replicate count '0')

def signedText (exponent : Int) : String :=
  if exponent < 0 then "-" ++ toString exponent.natAbs else "+" ++ toString exponent.natAbs

def decimalText (decimal : Shortest) : String :=
  let digits := Nat.toDigits 10 decimal.digits
  let point : Int := digits.length + decimal.exponent
  if 0 ≤ decimal.exponent ∧ point ≤ lastWrittenPoint then
    String.ofList digits ++ zeros decimal.exponent.toNat ++ ".0"
  else if 0 < point ∧ point ≤ lastWrittenPoint then
    String.ofList (digits.take point.toNat) ++ "." ++ String.ofList (digits.drop point.toNat)
  else if firstWrittenPoint ≤ point ∧ point ≤ 0 then
    "0." ++ zeros (-point).toNat ++ String.ofList digits
  else
    let mantissa := match digits with
      | [digit] => String.ofList [digit]
      | digits => String.ofList (digits.take 1) ++ "." ++ String.ofList (digits.drop 1)
    mantissa ++ "e" ++ signedText (point - 1)

def floatText (number : Binary64) : String :=
  let sign := if number.negative then "-" else ""
  if number.isZero then sign ++ "0.0"
  else sign ++ decimalText (Shortest.ofBinary64 number)

end ApiLinker.Json
