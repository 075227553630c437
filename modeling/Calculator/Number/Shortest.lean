import Calculator.Number.Binary64
import Calculator.Number.Decimal
/-!
# The fewest digits that read back

Of the decimals that stand for a given double, the one with the fewest digits; of several, the
one nearest to the double; of two equally near, the larger.

Decimals stand for a double when they lie between the middles to its two neighbours, the middles
themselves included exactly when the pattern is even. All quantities are whole numbers on one decimal
scale, fine enough that the double and both middles are whole.
-/

namespace Calculator

namespace Binary64

open scoped Power

/-- The decimals that stand for a double, on a scale with `places` places. -/
structure Interval where
  low : Nat
  value : Nat
  high : Nat
  closed : Bool
  places : Nat
  deriving Repr, DecidableEq

namespace Interval

/-- A whole number of the scale lies in the interval. -/
def contains (i : Interval) (n : Nat) : Bool :=
  if i.closed then i.low ≤ n && n ≤ i.high else i.low < n && n < i.high

/-- The multiple of `grid`, as a count, that stands for the double and is nearest to it. Only the
two multiples around the double need a look. -/
def nearestMultiple? (i : Interval) (grid : Nat) : Option Nat :=
  let below := i.value / grid
  let above := below + 1
  match i.contains (below * grid), i.contains (above * grid) with
  | true, true => some (if i.value - below * grid < above * grid - i.value then below else above)
  | true, false => some below
  | false, true => some above
  | false, false => none

/-- The first power of ten, from `10 ^ exponent` downwards, that has a multiple in the interval: the
count of that multiple, and the exponent. The double itself is the multiple of one. -/
def coarsest (i : Interval) : (exponent : Nat) → Nat × Nat
  | 0 => (i.value, 0)
  | exponent + 1 =>
    match i.nearestMultiple? (10 ^ (exponent + 1)) with
    | some count => (count, exponent + 1)
    | none => i.coarsest exponent

/-- An exponent whose power of ten is beyond the interval: 30103 / 100000 is just above the number
of decimal digits in a binary one. -/
def exponentBound (i : Interval) : Nat := (i.high.log2 + 1) * 30103 / 100000 + 1

/-- The decimal with the fewest digits in the interval. -/
def shortest (i : Interval) : Decimal :=
  let (count, exponent) := i.coarsest i.exponentBound
  ⟨count * 10 ^ (exponent - i.places), i.places - exponent⟩

end Interval

/-- The interval of a positive finite pattern. In units of 2⁻¹⁰⁷⁵ the double and the two middles are
multiples of 2 to the step exponent of the pattern below; the factor turns that power of two
into whole steps of the decimal scale. -/
def interval (code : Nat) : Interval :=
  let step := stepExponent (code - 1)
  let factor := 2 ^ (step - 1075) * 5 ^ (1075 - step)
  { low := (units (code - 1) + units code) / 2 ^ step * factor
    value := 2 * units code / 2 ^ step * factor
    high := (units code + units (code + 1)) / 2 ^ step * factor
    closed := code % 2 == 0
    places := 1075 - step }

/-- The decimal a finite pattern without a sign is printed as. -/
def shortestDecimal (code : Nat) : Decimal := if code = 0 then ⟨0, 0⟩ else (interval code).shortest

end Binary64

end Calculator
