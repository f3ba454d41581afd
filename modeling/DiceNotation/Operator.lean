import DiceNotation.Value

/-!
# Operators and built-in functions

The names of the operations of the notation, and the arithmetic of the four operators.
-/

namespace DiceNotation

/-- An operator between two operands. -/
inductive Operator where
  | add
  | sub
  | mul
  | div
  deriving DecidableEq

namespace Operator

/-- The symbol of the operator. -/
def symbol : Operator → Char
  | .add => '+'
  | .sub => '-'
  | .mul => '*'
  | .div => '/'

/-- The operator with a given symbol. -/
def ofSymbol? (c : Char) : Option Operator :=
  [add, sub, mul, div].find? (·.symbol == c)

/-- The value of an operation. -/
def apply : Operator → Value → Value → Value
  | .add => Value.add
  | .sub => Value.sub
  | .mul => Value.mul
  | .div => Value.div

end Operator

/-- A built-in function. -/
inductive Builtin where
  | max
  | min
  | avg
  | drop
  | sum
  | count
  deriving DecidableEq

namespace Builtin

/-- All functions. -/
def all : List Builtin :=
  [max, min, avg, drop, sum, count]

/-- The name of a function in the notation. -/
def name : Builtin → String
  | .max => "max"
  | .min => "min"
  | .avg => "avg"
  | .drop => "drop"
  | .sum => "sum"
  | .count => "count"

/-- The function with a given name. -/
def ofName? (name : String) : Option Builtin :=
  all.find? (·.name == name)

end Builtin

end DiceNotation
