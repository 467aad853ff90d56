/-!
# Shortest Decimals

The shortest decimal number that still names a given binary number. A binary
format rounds every real number in an interval to the same representable value,
so any decimal inside that interval reads back as the value; of these the one
with the fewest digits is wanted, and of equally short ones the nearest.

The search runs over decimal grids, from one significant digit upwards. On a
grid only the two neighbours of the value can be the answer: if any grid point
lies in the interval, so does the nearer of the two. All comparisons are between
products of natural numbers and are exact.

The two ends of the interval belong to it when the mantissa is even, because a
value half way between two representable ones goes to the even neighbour. Below
a power of two the representable values lie twice as close, which halves the
interval on that side.

## Main definitions

* `Dyadic`: A positive binary number and the shape of its rounding interval.
* `Decimal`: A natural number of units of a power of ten.
* `Dyadic.contains`: Whether a decimal reads back as the binary number.
* `Dyadic.shortest`: The shortest, then nearest, decimal that does.
-/

namespace Testbench

/-- `units · 10 ^ exponent`. -/
structure Decimal where
  units : Nat
  exponent : Int
  deriving DecidableEq, Repr

/-- `mantissa · 2 ^ exponent`, with `narrowBelow` if the next representable number
    below is only half as far away as the next one above. -/
structure Dyadic where
  mantissa : Nat
  exponent : Int
  narrowBelow : Bool
  deriving DecidableEq, Repr

namespace Decimal

/-- A power of ten. -/
def power (n : Nat) : Nat := Nat.pow 10 n

end Decimal

namespace Dyadic

/-- A power of two. -/
def power (n : Nat) : Nat := Nat.pow 2 n

/-- Numbers with the same exponent are told apart by a fraction of 52 bits. -/
def fractionRange : Nat := 4503599627370496

end Dyadic

namespace Decimal

/-- The order of a decimal and `mantissa · 2 ^ exponent`, after clearing the
    denominators of both. -/
def compareDyadic (d : Decimal) (mantissa : Nat) (exponent : Int) : Ordering :=
  compare (d.units * power d.exponent.toNat * Dyadic.power (-exponent).toNat)
    (mantissa * Dyadic.power exponent.toNat * power (-d.exponent).toNat)

/-- The significant digits, the first of them not zero and the last of them not
    zero. -/
def digits (d : Decimal) : List Char :=
  (((Nat.toDigits 10 d.units).reverse.dropWhile (· == '0')).reverse)

/-- The place of the decimal point, counted from just before the first digit. -/
def point (d : Decimal) : Int := (Nat.toDigits 10 d.units).length + d.exponent

end Decimal

namespace Dyadic

/-- The largest number of units of `10 ^ exponent` that does not exceed `v`. -/
def floorAt (v : Dyadic) (exponent : Int) : Nat :=
  (v.mantissa * power v.exponent.toNat * Decimal.power (-exponent).toNat)
    / (power (-v.exponent).toNat * Decimal.power exponent.toNat)

/-- The decimal lies in the interval of numbers that round to `v`. The bounds are
    counted in quarters of the distance to the next number above. -/
def contains (v : Dyadic) (d : Decimal) : Bool :=
  let below := d.compareDyadic (4 * v.mantissa - if v.narrowBelow then 1 else 2) (v.exponent - 2)
  let above := d.compareDyadic (4 * v.mantissa + 2) (v.exponent - 2)
  if v.mantissa % 2 = 0 then below != .lt && above != .gt else below == .gt && above == .lt

/-- The neighbour of `v` on a decimal grid that reads back as `v`, the nearer one
    if both do and the upper one if they are equally near. -/
def onGrid (v : Dyadic) (exponent : Int) : Option Decimal :=
  let lower : Decimal := ⟨v.floorAt exponent, exponent⟩
  let upper : Decimal := ⟨v.floorAt exponent + 1, exponent⟩
  let middle : Decimal := ⟨10 * v.floorAt exponent + 5, exponent - 1⟩
  match v.contains lower, v.contains upper with
  | true, true =>
    if middle.compareDyadic v.mantissa v.exponent == .gt then some lower else some upper
  | true, false => some lower
  | false, true => some upper
  | false, false => none

/-- Every positive number of the formats in use is above `10 ^ (-400)`. -/
def finest : Nat := 400

/-- The place of the decimal point before the first digit of `v`. -/
def point (v : Dyadic) : Int := (Nat.toDigits 10 (v.floorAt (-finest))).length - finest

/-- Seventeen digits tell any two numbers of the format apart, so the search ends
    with an answer. -/
def shortest (v : Dyadic) : Decimal :=
  let grids := (List.range 17).map fun (n : Nat) => v.point - (n + 1)
  (grids.findSome? v.onGrid).getD ⟨v.floorAt (v.point - 17), v.point - 17⟩

end Dyadic

end Testbench
