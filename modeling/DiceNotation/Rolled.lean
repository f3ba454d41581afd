import DiceNotation.Die
import DiceNotation.Face

/-!
# Dice that were rolled

The record of a roll says for each die which pool it belongs to, the how manieth die it
was, and its value.
-/

namespace DiceNotation

/-- A die that was rolled. -/
structure Rolled where
  /-- The text of its pool, and its place in the record. -/
  label : String
  /-- The kind of the die. -/
  die : Die
  /-- Its value. -/
  value : Int64
  deriving DecidableEq

namespace Rolled

/-- The label of a die of a pool at a place of the record. -/
def labelAt (pool : Pool) (place : Nat) : String :=
  String.ofList (pool.render ++ ':' :: ' ' :: Text.digits place)

/-- The face of a Fate die, if its value is that of a face. -/
def face? (rolled : Rolled) : Option Face :=
  if rolled.die.isFate then Face.ofValue? rolled.value else none

/-- The text of a die: its label, and its face or its value. -/
def text (rolled : Rolled) : String :=
  let shown :=
    match rolled.face? with
    | some face => String.singleton face.symbol
    | none => String.ofList (Text.integerText rolled.value.toInt)
  rolled.label ++ " = " ++ shown

end Rolled

end DiceNotation
