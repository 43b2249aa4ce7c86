/-!
Shortest decimals. A positive number of a binary floating-point format stands
for all reals that round to it. Its shortest decimal has the fewest digits
among the decimals in that interval, and of these it is the nearest to the
number, or the one with the even last digit when two are equally near.
-/

namespace DocumentViews.Decimal

/-- The number `significand * 2 ^ exponent` of a binary format. It is `narrow`
when the next smaller number is half as far away as the next greater one. -/
structure Binary where
  significand : Nat
  exponent : Int
  narrow : Bool

/-- The number with the given bits in the 64-bit format, sign and all other
meanings left aside. -/
def Binary.ofBits (bits : Nat) : Binary :=
  let fraction : Nat := bits % Nat.pow 2 52
  let biased : Nat := bits / Nat.pow 2 52 % Nat.pow 2 11
  if biased = 0 then ⟨fraction, -1074, false⟩
  else ⟨Nat.pow 2 52 + fraction, biased - 1075, fraction == 0 && decide (1 < biased)⟩

/-- The two sides of a comparison of `u * 2 ^ (exponent - 2)` with
`d * 10 ^ power`, cleared of denominators: the factors of `u` and of `d`. -/
def Binary.factors (x : Binary) (power : Int) : Nat × Nat :=
  let shift := x.exponent - 2
  (Nat.pow 2 shift.toNat * Nat.pow 10 (-power).toNat,
    Nat.pow 10 power.toNat * Nat.pow 2 (-shift).toNat)

/-- Whether the number is at least `10 ^ power`. -/
def Binary.reaches (x : Binary) (power : Int) : Bool :=
  let (ofNumber, ofPower) := x.factors power
  decide (ofPower ≤ 4 * x.significand * ofNumber)

/-- Whether the real `d * 10 ^ power` rounds to the number. The ends of the
interval do so when the significand is even. -/
def Binary.admits (x : Binary) (power : Int) (d : Nat) : Bool :=
  let (ofNumber, ofPower) := x.factors power
  let low := (4 * x.significand - (if x.narrow then 1 else 2)) * ofNumber
  let high := (4 * x.significand + 2) * ofNumber
  let middle := d * ofPower
  if x.significand % 2 = 0 then decide (low ≤ middle) && decide (middle ≤ high)
  else decide (low < middle) && decide (middle < high)

/-- The number of digits before the decimal point, which is zero or less for
numbers below one tenth. The logarithm of two gives it up to one or two. -/
def Binary.point (x : Binary) : Int :=
  let guess := (30103 * (x.significand.log2 + x.exponent)).fdiv 100000
  (([guess + 2, guess + 1, guess].find? x.reaches).getD (guess - 1)) + 1

/-- Of the two multiples of `10 ^ power` around the number, the one that
rounds to it, or the better one if both do. -/
def Binary.onGrid (x : Binary) (power : Int) : Option Nat :=
  let (ofNumber, ofPower) := x.factors power
  let exact := 4 * x.significand * ofNumber
  let below := exact / ofPower
  let excess := exact - below * ofPower
  match x.admits power below, x.admits power (below + 1) with
  | true, false => some below
  | false, true => some (below + 1)
  | true, true =>
    if 2 * excess < ofPower then some below
    else if ofPower < 2 * excess then some (below + 1)
    else some (if below % 2 = 0 then below else below + 1)
  | false, false => none

/-- The decimal `0.d₁d₂… * 10 ^ point`. -/
structure Digits where
  digits : List Char
  point : Int

/-- The decimal `d * 10 ^ power` without zeros at the end. -/
def Digits.ofScaled (d : Nat) (power : Int) : Digits :=
  let digits := Nat.toDigits 10 d
  ⟨(digits.reverse.dropWhile (· == '0')).reverse, digits.length + power⟩

/-- The shortest decimal of a number. Seventeen digits always suffice. -/
def Binary.shortest (x : Binary) : Digits :=
  let point := x.point
  let found := (List.range 17).findSome? fun (fewer : Nat) =>
    let power := point - (fewer + 1)
    (x.onGrid power).map fun d => Digits.ofScaled d power
  found.getD ⟨[], 0⟩

end DocumentViews.Decimal
