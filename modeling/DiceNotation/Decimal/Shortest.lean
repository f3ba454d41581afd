import DiceNotation.Text.Numeral

/-!
# The shortest decimal that reads back

A binary number stands for all reals that round to it. Among the decimals in that
interval this module finds one with the fewest digits, and of those the nearest to the
number. All arithmetic is exact: reals are compared as fractions of natural numbers.
-/

namespace DiceNotation.Decimal

/-- A non-negative fraction. -/
structure Fraction where
  /-- The number above the line. -/
  numerator : Nat
  /-- The number below the line, never zero. -/
  denominator : Nat

/-- The fraction `base ^ exponent`. -/
def Fraction.power (base : Nat) (exponent : Int) : Fraction :=
  if 0 ≤ exponent then ⟨Nat.pow base exponent.natAbs, 1⟩ else ⟨1, Nat.pow base exponent.natAbs⟩

/-- The binary number `significand * 2 ^ exponent`, with the shape of the interval of
reals that round to it. -/
structure Binary where
  /-- The whole factor, not zero. -/
  significand : Nat
  /-- The exponent of the power of two. -/
  exponent : Int
  /-- Whether the next number below is only half as far away as the next one above. -/
  closeBelow : Bool

namespace Binary

/-- The lower end of the interval, in quarters of the last binary place. -/
def low (b : Binary) : Nat :=
  4 * b.significand - (if b.closeBelow then 1 else 2)

/-- The upper end of the interval, in quarters of the last binary place. -/
def high (b : Binary) : Nat :=
  4 * b.significand + 2

/-- A quarter of the last binary place. -/
def quarter (b : Binary) : Fraction :=
  .power 2 (b.exponent - 2)

/-- The decimal exponent of a fraction that is not zero: the number `e` with the fraction
below `10 ^ e` and not below `10 ^ (e - 1)`. The bound is the number of places that are
tried for a fraction below one. -/
def decimalExponent (bound : Nat) (f : Fraction) : Int :=
  if f.denominator ≤ f.numerator then
    (Text.digits (f.numerator / f.denominator)).length
  else
    let enough (places : Nat) : Bool := f.denominator ≤ f.numerator * Nat.pow 10 (places + 1)
    Int.neg (((List.range bound).find? enough).getD bound)

/-- The point of the decimal grid `10 ^ grid` that stands for the binary number, if one
of its two neighbours on the grid lies in its interval: the nearer one of two, the upper
one if both are equally near. The ends belong to the interval of an even significand. -/
def onGrid (b : Binary) (grid : Int) : Option Nat :=
  let step := Fraction.power 10 grid
  -- Both a quarter and a grid step, over one common denominator.
  let quarter := b.quarter.numerator * step.denominator
  let step := step.numerator * b.quarter.denominator
  let value := 4 * b.significand * quarter
  let inside (point : Nat) : Bool :=
    if b.significand % 2 = 0 then
      b.low * quarter ≤ point * step && point * step ≤ b.high * quarter
    else
      b.low * quarter < point * step && point * step < b.high * quarter
  let below := value / step
  let above := (value + (step - 1)) / step
  if inside below then
    if inside above && (below + above) * step ≤ 2 * value then some above else some below
  else if inside above then some above
  else none

/-- The first grid with a point in the interval, from coarse to fine: the point and the
exponent of the grid. -/
def firstOnGrid (b : Binary) : Nat → Int → Option (Nat × Int)
  | 0, _ => none
  | tries + 1, grid =>
    match b.onGrid grid with
    | some point => some (point, grid)
    | none => firstOnGrid b tries (grid - 1)

/-- The shortest decimal `d * 10 ^ e` that reads back as the number, as the pair of `d`
and `e`. Seventeen digits always suffice. -/
def shortest (b : Binary) : Nat × Int :=
  let unit := Fraction.power 2 b.exponent
  let exponent :=
    decimalExponent (unit.denominator.log2 + 1) ⟨b.significand * unit.numerator, unit.denominator⟩
  (b.firstOnGrid 17 (exponent - 1)).getD (0, 0)

end Binary

/-- The decimal `point * 10 ^ grid` in positional form: no exponent, no zeros after the
last digit of a fraction, one zero in front of a decimal point that would come first. -/
def positional (point : Nat) (grid : Int) : List Char :=
  if 0 ≤ grid then Text.digits point ++ List.replicate grid.natAbs '0'
  else
    let all := Text.digits point
    let padded := List.replicate (grid.natAbs + 1 - all.length) '0' ++ all
    let whole := padded.take (padded.length - grid.natAbs)
    let fraction := padded.drop (padded.length - grid.natAbs)
    match (fraction.reverse.dropWhile (· == '0')).reverse with
    | [] => whole
    | places => whole ++ '.' :: places

end DiceNotation.Decimal
