import DocumentViews.Json.Basic
import DocumentViews.Decimal.Shortest

/-!
The text of numbers. An integer is written in full. A binary fraction is
written by its shortest decimal, which is positional with at least one decimal
when the first digit stands for a power from `10 ^ -5` to `10 ^ 15`, and has
one digit before the point and a signed exponent otherwise.
-/

namespace DocumentViews.Number

open Decimal

/-- Decides which decimals are written without an exponent. -/
def isPositional (point : Int) : Bool :=
  decide (-5 < point) && decide (point ≤ 16)

def positional (decimal : Digits) : String :=
  let digits := decimal.digits
  if decimal.point ≤ 0 then
    "0." ++ String.ofList (List.replicate (-decimal.point).toNat '0' ++ digits)
  else
    let whole := decimal.point.toNat
    let fraction := digits.drop whole
    String.ofList (digits.take whole ++
        List.replicate (whole - digits.length) '0') ++ "." ++
      (if fraction.isEmpty then "0" else String.ofList fraction)

def withExponent (decimal : Digits) : String :=
  let exponent := decimal.point - 1
  let mantissa := match decimal.digits with
    | [] => ""
    | [d] => String.ofList [d]
    | d :: rest => String.ofList (d :: '.' :: rest)
  mantissa ++ "e" ++ (if exponent < 0 then "-" else "+") ++ toString exponent.natAbs

/-- The text of a binary fraction given by its bits, apart from the sign. -/
def magnitudeText (bits : Nat) : String :=
  if bits % Nat.pow 2 63 = 0 then "0.0"
  else
    let decimal := (Binary.ofBits bits).shortest
    if isPositional decimal.point then positional decimal else withExponent decimal

def text : Number → String
  | int value => toString value
  | float value =>
    let bits := value.toBits.toNat
    (if bits < Nat.pow 2 63 then "" else "-") ++ magnitudeText bits

end DocumentViews.Number
