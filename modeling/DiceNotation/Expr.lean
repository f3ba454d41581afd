import DiceNotation.Die
import DiceNotation.Operator

/-!
# Expressions

The trees that a notation stands for, their text, and the pools of dice in them.
-/

namespace DiceNotation

/-- An expression of dice notation. -/
inductive Expr where
  | number (value : Int64)
  | variable (name : String)
  | dice (pool : Pool)
  | operation (left : Expr) (operator : Operator) (right : Expr)
  | call (function : Builtin) (parameters : List Expr)

namespace Expr

mutual

/-- The text of an expression, in which every operation stands in parentheses. -/
def render : Expr → List Char
  | .number value => Text.integerText value.toInt
  | .variable name => '$' :: name.toList
  | .dice pool => pool.render
  | .operation left operator right =>
    '(' :: left.render ++ ' ' :: operator.symbol :: ' ' :: right.render ++ [')']
  | .call function parameters =>
    function.name.toList ++ '(' :: renderParameters parameters ++ [')']

/-- The texts of the parameters of a call, separated by commas. -/
def renderParameters : List Expr → List Char
  | [] => []
  | [only] => only.render
  | first :: second :: rest => first.render ++ ',' :: ' ' :: renderParameters (second :: rest)

end

/-- The text of an expression as a string. -/
def text (e : Expr) : String :=
  String.ofList e.render

mutual

/-- The pools in an expression, in the order in which they are rolled: from left to
right. -/
def pools : Expr → List Pool
  | .number _ => []
  | .variable _ => []
  | .dice pool => [pool]
  | .operation left _ right => left.pools ++ right.pools
  | .call _ parameters => poolsOf parameters

/-- The pools in a list of expressions. -/
def poolsOf : List Expr → List Pool
  | [] => []
  | e :: rest => e.pools ++ poolsOf rest

end

/-- The number of dice in a list of expressions. -/
def diceCount (exprs : List Expr) : Nat :=
  (poolsOf exprs).foldr (fun pool others => pool.count.toNat + others) 0

end Expr

end DiceNotation
