import DiceNotation.Value
import DiceNotation.Decimal.Shortest

/-!
# The text of a value

A value is written with the fewest digits that read back as the same value, in positional
form. Zeros keep their sign; a NaN has none.
-/

namespace DiceNotation.Value

/-- A finite value that is not zero, without its sign. The neighbour below is close when
the mantissa is empty and the exponent is not the smallest one. -/
def toBinary (v : Value) : Decimal.Binary where
  significand := v.significand
  exponent := v.exponent
  closeBelow := v.magnitude % mantissas == 0 && 1 < v.magnitude / mantissas

/-- The text of the absolute value. -/
def absoluteText (v : Value) : List Char :=
  if v.isZero then ['0']
  else if v.isInfinite then ['i', 'n', 'f']
  else
    let (point, grid) := v.toBinary.shortest
    Decimal.positional point grid

/-- The text of the value. -/
def text (v : Value) : String :=
  if v.isNaN then "NaN"
  else if v.isNegative then String.ofList ('-' :: v.absoluteText)
  else String.ofList v.absoluteText

end DiceNotation.Value
