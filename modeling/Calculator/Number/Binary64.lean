import Calculator.Number.Power
/-!
# The scale of doubles

The bit patterns of the doubles from zero up to infinity, read as whole numbers, count them in order
of size. `units` gives the size of each in units of the least positive double, 2⁻¹⁰⁷⁴, as a
whole number; infinity gets the size 2¹⁰²⁴, the next step above the largest finite double.
-/

namespace Calculator.Binary64

open scoped Power

/-- The bit pattern of infinity; the patterns below it are those of the finite doubles without a sign. -/
def infinityCode : Nat := 2047 * 2 ^ (52 : Nat)

def signCode : Nat := 2 ^ (63 : Nat)

/-- The exponent of the step between neighbours at a pattern: both it and the pattern above are
whole multiples of two to this power. -/
def stepExponent (code : Nat) : Nat := code / 2 ^ (52 : Nat) - 1

/-- The size of a pattern in units of 2⁻¹⁰⁷⁴. -/
def units (code : Nat) : Nat :=
  if code < 2 ^ (52 : Nat) then code else (2 ^ (52 : Nat) + code % 2 ^ (52 : Nat)) * 2 ^ stepExponent code

end Calculator.Binary64
