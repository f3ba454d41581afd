/-!
# Classes of characters

A class of characters is a list of closed intervals of code points. The module also
holds the small ASCII classes from which words of the notation are built.
-/

namespace DiceNotation.Text

/-- A set of code points, as closed intervals. -/
abbrev CodePoints := List (Nat × Nat)

/-- Whether one of the intervals holds the character. -/
def CodePoints.has (points : CodePoints) (c : Char) : Bool :=
  points.any fun interval => interval.1 ≤ c.toNat && c.toNat ≤ interval.2

/-- The decimal digits `0` to `9`. -/
def isDigit (c : Char) : Bool :=
  '0' ≤ c && c ≤ '9'

/-- The ASCII letters and digits. -/
def isAlphanumeric (c : Char) : Bool :=
  isDigit c || ('a' ≤ c && c ≤ 'z') || ('A' ≤ c && c ≤ 'Z')

/-- The characters of the name of a function or a variable: ASCII letters, digits and
the underscore. -/
def isNameChar (c : Char) : Bool :=
  isAlphanumeric c || c == '_'

end DiceNotation.Text
