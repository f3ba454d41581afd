import DiceNotation.Table

/-!
# Settings of an evaluation

The options that bound dice and name the default roll, and the values of variables.
-/

namespace DiceNotation

/-- How dice are rolled. -/
structure Options where
  /-- The lowest value of a die with numbered sides. -/
  minRoll : Int64 := 1
  /-- The highest value of a single die that is rolled without a notation. -/
  maxRoll : Int64 := 20
  /-- The notation that a blank input stands for. -/
  defaultRoll : String := "1d20"
  /-- The value that is counted when a call of `count` names none. -/
  defaultCount : Int64 := 6
  /-- The most dice that one evaluation may roll, if there is a limit. -/
  maxDice : Option UInt64 := some 1000
  deriving DecidableEq

/-- The values of variables. -/
abbrev Variables := Table Int64

end DiceNotation
