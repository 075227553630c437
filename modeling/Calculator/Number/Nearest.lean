import Calculator.Number.Binary64
import Calculator.Number.Decimal
/-!
# Reading to the nearest double

A decimal stands for the double nearest to its value; of two equally near, the one with the even
pattern. Decimals at or above the middle between the largest finite double and 2¹⁰²⁴ stand for
infinity.
-/

namespace Calculator

/-- The whole number nearest to `num / den`, a half going to the even one. -/
def roundDiv (num den : Nat) : Nat :=
  let q := num / den
  let r := num % den
  if 2 * r < den then q else if den < 2 * r then q + 1 else q + q % 2

namespace Decimal

open Binary64
open scoped Power

/-- The pattern of the double nearest to a decimal. The value is counted in units of 2⁻¹⁰⁷⁴ and
cut to 53 binary digits; each digit cut off moves the pattern up by one exponent. -/
def nearestCode (d : Decimal) : Nat :=
  let num := d.coefficient * 2 ^ (1074 : Nat)
  let den := 10 ^ d.places
  let shift := (num / den).log2 - 52
  min infinityCode (shift * 2 ^ (52 : Nat) + roundDiv num (den * 2 ^ shift))

def toFloat (d : Decimal) : Float := Float.ofBits d.nearestCode.toUInt64

end Decimal

end Calculator
