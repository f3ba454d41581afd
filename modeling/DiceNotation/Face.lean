/-!
# The faces of a Fate die

A Fate die has six sides, two for each of its three faces: minus, blank and plus. In sums
they count minus one, zero and one.
-/

namespace DiceNotation

/-- A face of a Fate die. -/
inductive Face where
  | minus
  | blank
  | plus
  deriving DecidableEq

namespace Face

/-- The face on a side, the sides being numbered from one to six. -/
def ofSide? (side : Int) : Option Face :=
  if side = 1 ∨ side = 2 then some .minus
  else if side = 3 ∨ side = 4 then some .blank
  else if side = 5 ∨ side = 6 then some .plus
  else none

/-- What the face counts. -/
def value : Face → Int64
  | .minus => -1
  | .blank => 0
  | .plus => 1

/-- The face that counts a given number. -/
def ofValue? (value : Int64) : Option Face :=
  if value = -1 then some .minus
  else if value = 0 then some .blank
  else if value = 1 then some .plus
  else none

/-- The symbol of the face. -/
def symbol : Face → Char
  | .minus => '-'
  | .blank => '□'
  | .plus => '+'

end Face

end DiceNotation
