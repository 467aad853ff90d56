import Testbench.Decimal.Shortest
import Testbench.Text.Inspect

/-!
# Written Numbers

How a floating-point number is written. The digits are always the shortest ones
that read back; what differs between the two uses is only the layout, so each is
a `Layout` record and one function writes both.

In an inspection text a whole number keeps a final `.0`, so that it cannot be
taken for an integer, and numbers from `10 ^ 16` upwards or below `10 ^ (-4)` have
an exponent. In a message the digits stand alone, however many zeros that takes.

## Main definitions

* `Layout`: The choices of a written form.
* `Layout.inspection`, `Layout.message`: The two in use.
* `Layout.write`: The written form of a number.
-/

namespace Testbench

/-- Whether a number with the decimal point at the given place is written without
    an exponent, and what follows the digits of a whole number. -/
structure Layout where
  positional : Int → Bool
  wholeMark : String

namespace Layout

def inspection : Layout := ⟨fun point => -3 ≤ point && point ≤ 16, ".0"⟩

def message : Layout := ⟨fun _ => true, ""⟩

private def zeros (n : Int) : List Char := List.replicate n.toNat '0'

/-- Digits with the decimal point at `point`, padded with zeros on either side. -/
def place (layout : Layout) (digits : List Char) (point : Int) : String :=
  if point ≤ 0 then String.ofList ('0' :: '.' :: (zeros (-point) ++ digits))
  else if digits.length ≤ point.toNat then
    String.ofList (digits ++ zeros (point - digits.length)) ++ layout.wholeMark
  else String.ofList (digits.take point.toNat ++ '.' :: digits.drop point.toNat)

/-- One digit before the point and an exponent without a plus sign. -/
def scientific (digits : List Char) (point : Int) : String :=
  let mantissa := match digits with
    | [] => ['0']
    | [d] => [d]
    | d :: rest => d :: '.' :: rest
  String.ofList mantissa ++ "e" ++ toString (point - 1)

def ofDecimal (layout : Layout) (d : Decimal) : String :=
  if layout.positional d.point then layout.place d.digits d.point
  else scientific d.digits d.point

/-- The magnitude of a number given by the two lower fields of its bits. -/
def magnitude (layout : Layout) (exponent fraction : Nat) : String :=
  if exponent = 0 ∧ fraction = 0 then "0" ++ layout.wholeMark
  else if exponent = 0 then
    -- Below the smallest full exponent numbers lose leading digits instead.
    layout.ofDecimal (Dyadic.shortest ⟨fraction, -1074, false⟩)
  else
    layout.ofDecimal (Dyadic.shortest
      ⟨Dyadic.fractionRange + fraction, (exponent : Int) - 1075,
        fraction == 0 && exponent != 1⟩)

/-- The bits are those of the sign, of eleven for the exponent, and of the fraction. -/
def write (layout : Layout) (x : Float) : String :=
  let bits := x.toBits.toNat
  let exponent := bits / Dyadic.fractionRange % 2048
  let fraction := bits % Dyadic.fractionRange
  if exponent = 2047 ∧ fraction ≠ 0 then "NaN"
  else
    let size := if exponent = 2047 then "inf" else layout.magnitude exponent fraction
    if bits / (2048 * Dyadic.fractionRange) = 1 then "-" ++ size else size

end Layout

instance : Inspect Float := ⟨Layout.inspection.write⟩

end Testbench
