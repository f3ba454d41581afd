import DiceNotation.Operator
import DiceNotation.Text.Quoted

/-!
# Errors in a notation

Each constructor is one way in which a text fails to be dice notation. The message quotes
the piece of text that was at hand when the fault was found.
-/

namespace DiceNotation

/-- A side of an operator. -/
inductive Side where
  | left
  | right
  deriving DecidableEq

/-- The name of a side. -/
def Side.name : Side → String
  | .left => "left"
  | .right => "right"

/-- A fault in a notation. -/
inductive NotationError where
  /-- The size in a word for dice is not the size of a die. -/
  | invalidDie (word size : String)
  /-- A call names no built-in function. -/
  | unknownFunction (name : String)
  /-- A call is not closed. -/
  | unbalanced (text : String)
  /-- A placeholder stands for no call, or for one that was already used. -/
  | unknownPlaceholder (word : String)
  /-- An integer does not fit into 64 bits. -/
  | integerOutOfRange (word : String)
  /-- A number of dice does not fit into 64 bits. -/
  | tooManyDice (word : String)
  /-- An operator has no operand on one of its sides. -/
  | missingOperand (operator : Operator) (side : Side)
  /-- Nothing in the text can be rolled, but it has a word that was not recognized. -/
  | unrecognized (text word : String)
  /-- The text has no words. -/
  | nothingToRoll (text : String)
  deriving DecidableEq

namespace NotationError

/-- The message about a text that is malformed for a reason. -/
def malformed (text reason : String) : String :=
  "cannot roll " ++ Text.quoted text ++ " (" ++ reason ++
    "); please check your syntax and try again"

/-- The message of an error. -/
def message : NotationError → String
  | .invalidDie word size =>
    "cannot roll " ++ Text.quoted word ++ ": " ++ Text.quoted size ++ " is not a valid die size"
  | .unknownFunction name => "unknown function " ++ Text.quoted name
  | .unbalanced text => malformed text "unbalanced parentheses"
  | .unknownPlaceholder word => malformed word "unknown function placeholder"
  | .integerOutOfRange word => malformed word "integer out of range"
  | .tooManyDice word => malformed word "too many dice"
  | .missingOperand operator side =>
    let symbol := String.singleton operator.symbol
    malformed symbol ("'" ++ symbol ++ "' is missing its " ++ side.name ++ " operand")
  | .unrecognized text word => malformed text ("unrecognized token `" ++ word ++ "`")
  | .nothingToRoll text => malformed text "nothing to roll"

end NotationError

end DiceNotation
