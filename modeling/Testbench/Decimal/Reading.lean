import Testbench.Decimal.Shortest

/-!
# Reading Numbers

Which texts name a floating-point number. A number is an optional sign and then
either a name (`inf`, `infinity` or `nan`, in any case) or decimal digits with at
most one point, at least one digit in all, and an optional exponent. Nothing may
stand before or after it.

The value is the representable number nearest to the written one, and of two that
are equally near the one with the even mantissa. The quotient is formed and rounded
in whole numbers, once, so numbers just beside the middle of two representable ones
go to the right side, also where mantissas lose digits towards zero. A written
number far out of range is decided by its size alone, which keeps huge exponents
from being multiplied out.

## Main definitions

* `Decimal.nearestBits`: The nearest number, by its bits.
* `readNumber?`: The number that a text names.
-/

namespace Testbench

/-- The whole number nearest to `n / d`, the even one if two are. -/
def roundedQuotient (n d : Nat) : Nat :=
  let q := n / d
  let twice := 2 * (n % d)
  if twice < d ∨ (twice = d ∧ q % 2 = 0) then q else q + 1

namespace Decimal

/-- The bits of infinity, which come right after those of the largest number. -/
def infinityBits : Nat := 2047 * Dyadic.fractionRange

/-- The binary exponent at which `n / d` has 53 binary places, or the least one
    there is. -/
def binaryExponent (n d : Nat) : Int :=
  let guess : Int := (n.log2 : Int) - d.log2 - 53
  let fits :=
    n * Dyadic.power (-guess).toNat < 2 * Dyadic.fractionRange * (d * Dyadic.power guess.toNat)
  max (if fits then guess else guess + 1) (-1074)

/-- Counted in units of the least exponent, a number of any exponent has its
    mantissa in its bits, with a carry into the next exponent where there is one. -/
def quotientBits (n d : Nat) : Nat :=
  let exponent := binaryExponent n d
  let mantissa :=
    roundedQuotient (n * Dyadic.power (-exponent).toNat) (d * Dyadic.power exponent.toNat)
  min infinityBits ((exponent + 1074).toNat * Dyadic.fractionRange + mantissa)

/-- A number with `n + 1` binary places has more than `n / 4` and at most `n + 1`
    decimal ones. -/
def nearestBits (d : Decimal) : Nat :=
  if d.units = 0 then 0
  else if (d.units.log2 : Int) / 4 + d.exponent > 400 then infinityBits
  else if (d.units.log2 : Int) + d.exponent < -400 then 0
  else quotientBits (d.units * power d.exponent.toNat) (power (-d.exponent).toNat)

end Decimal

private def digitsValue (digits : List Char) : Nat := Nat.ofDigitChars 10 digits 0

/-- An exponent after its mark: an optional sign and at least one digit. -/
private def readExponent? : List Char → Option Int
  | '+' :: digits => whole digits
  | '-' :: digits => (whole digits).map Neg.neg
  | digits => whole digits
where
  whole (digits : List Char) : Option Int :=
    if digits ≠ [] ∧ digits.all Char.isDigit then some (digitsValue digits) else none

private def readUnsigned? (text : List Char) : Option Float :=
  let lower := text.map Char.toLower
  if lower = "inf".toList ∨ lower = "infinity".toList then some (1.0 / 0.0)
  else if lower = "nan".toList then some (0.0 / 0.0)
  else
    let whole := text.takeWhile Char.isDigit
    let afterWhole := text.dropWhile Char.isDigit
    let fraction := match afterWhole with
      | '.' :: rest => rest.takeWhile Char.isDigit
      | _ => []
    let afterFraction := match afterWhole with
      | '.' :: rest => rest.dropWhile Char.isDigit
      | rest => rest
    if whole = [] ∧ fraction = [] then none
    else
      let exponent? := match afterFraction with
        | [] => some 0
        | mark :: rest => if mark = 'e' ∨ mark = 'E' then readExponent? rest else none
      exponent?.map fun exponent =>
        Float.ofBits (Decimal.nearestBits
          ⟨digitsValue (whole ++ fraction), exponent - fraction.length⟩).toUInt64

def readNumber? (text : String) : Option Float :=
  match text.toList with
  | '+' :: rest => readUnsigned? rest
  | '-' :: rest => (readUnsigned? rest).map Neg.neg
  | all => readUnsigned? all

end Testbench
