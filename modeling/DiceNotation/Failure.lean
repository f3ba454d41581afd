import DiceNotation.Notation.Error

/-!
# Failures of a roll

Each constructor is one way in which a roll fails, from the input to the last value.
-/

namespace DiceNotation

/-- Why a roll failed. -/
inductive Failure where
  /-- A variable has no value. -/
  | undefinedVariable (name : String)
  /-- An input is no notation and leads to no stored one. -/
  | undefinedMapping (path : String)
  /-- A call has no sets of values to work on. -/
  | missingArguments (function : Builtin)
  /-- More dice were asked for than may be rolled. -/
  | tooManyDice
  /-- A division by a zero. -/
  | zeroDivision
  /-- The notation has a fault. -/
  | faulty (error : NotationError)
  deriving DecidableEq

/-- The message about a failure. -/
def Failure.message : Failure → String
  | .undefinedVariable name => "variable " ++ Text.quoted name ++ " is not defined"
  | .undefinedMapping path => "roll mapping " ++ Text.quoted path ++ " is not defined"
  | .missingArguments function => function.name ++ "() needs at least one argument"
  | .tooManyDice => "too many dice rolled"
  | .zeroDivision => "cannot divide by zero"
  | .faulty error => error.message

end DiceNotation
