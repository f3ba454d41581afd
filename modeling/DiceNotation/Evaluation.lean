import DiceNotation.Expr
import DiceNotation.Sets
import DiceNotation.Tray

/-!
# Evaluation

An expression has a set of values. Everything in it is evaluated, from left to right and
once, and each pool in it is rolled when its turn comes.
-/

namespace DiceNotation

/-- The value of an operation on two totals. -/
def operate (left : Value) (operator : Operator) (right : Value) : Casting (List Value) :=
  if operator = .div ∧ right.isZero then throw .zeroDivision
  else pure [operator.apply left right]

/-- The values of a call whose parameters have the given sets of values. A function needs
one set at least. The function `count` looks for the first value of its first set in the
other ones; but if its first parameter is a pool, it looks for the default in all sets. -/
def callValues (setting : Setting) (function : Builtin) (parameters : List Expr)
    (sets : List (List Value)) : Casting (List Value) :=
  let target := Value.ofInt setting.options.defaultCount.toInt
  match sets with
  | [] => throw (.missingArguments function)
  | first :: rest =>
    match function, parameters with
    | .count, .dice _ :: _ => pure (Builtin.count.onSets target sets)
    | .count, _ => pure (Builtin.count.onSets (first.head?.getD target) rest)
    | function, _ => pure (function.onSets target sets)

namespace Expr

mutual

/-- The values of an expression. -/
def evaluate (setting : Setting) : Expr → Casting (List Value)
  | .number value => pure [.ofInt value.toInt]
  | .variable name => do
    let value ← variableValue setting name
    pure [.ofInt value.toInt]
  | .dice pool => rollPool setting pool
  | .operation left operator right => do
    let l ← left.evaluate setting
    let r ← right.evaluate setting
    operate (Value.sum l) operator (Value.sum r)
  | .call function parameters => do
    let sets ← evaluateAll setting parameters
    callValues setting function parameters sets

/-- The sets of values of a list of expressions, one for each. -/
def evaluateAll (setting : Setting) : List Expr → Casting (List (List Value))
  | [] => pure []
  | e :: rest => do
    let values ← e.evaluate setting
    let others ← evaluateAll setting rest
    pure (values :: others)

end

end Expr

end DiceNotation
