import DiceNotation.Evaluation

/-!
# Outcomes

The outcome of a roll: its total, its values, and all dice that were rolled for it.
-/

namespace DiceNotation

/-- The result of rolling a notation. -/
structure Outcome where
  /-- The sum of the values. -/
  total : Value
  /-- The notation that was rolled. -/
  source : String
  /-- The values, those of all expressions one after the other. -/
  values : List Value
  /-- The dice that were rolled. -/
  dice : List Rolled
  deriving DecidableEq

namespace Outcome

/-- The values of the dice. -/
def diceValues (outcome : Outcome) : List Int64 :=
  outcome.dice.map (·.value)

/-- The faces of the Fate dice. -/
def faces (outcome : Outcome) : List Face :=
  outcome.dice.filterMap Rolled.face?

/-- The dice in brackets, or nothing if there are none. -/
def diceText (outcome : Outcome) : String :=
  if outcome.dice.isEmpty then ""
  else " [" ++ String.intercalate ", " (outcome.dice.map Rolled.text) ++ "]"

/-- The text of an outcome: the notation, the dice, and the total. -/
def text (outcome : Outcome) : String :=
  outcome.source ++ outcome.diceText ++ " = " ++ outcome.total.text

end Outcome

/-- Rolls the expressions of a notation. The dice of the outcome are all that lie in the
tray. -/
def rollAll (setting : Setting) (source : String) (exprs : List Expr) : Casting Outcome := do
  let sets ← Expr.evaluateAll setting exprs
  let tray ← get
  pure ⟨Value.total sets.flatten, source, sets.flatten, tray.dice.toList⟩

end DiceNotation
