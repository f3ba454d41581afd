import DiceNotation.Notation.Token

/-!
# Binding operators

An operator binds the operands right beside it. What it makes is an operand again, so
that operators bind from left to right and none before another. Operands that no operator
binds stay side by side. Stray words are dropped, but they part their neighbours.
-/

namespace DiceNotation.Notation

/-- Binds the operators of a row of tokens after `left`, the operand that ends just before
them, if there is one. -/
def bindAfter (left : Option Expr) : List Token → Except NotationError (List Expr)
  | [] => .ok left.toList
  | .operand e :: rest =>
    match bindAfter (some e) rest with
    | .ok exprs => .ok (left.toList ++ exprs)
    | .error error => .error error
  | .stray _ :: rest =>
    match bindAfter none rest with
    | .ok exprs => .ok (left.toList ++ exprs)
    | .error error => .error error
  | .operator operator :: rest =>
    match left, rest with
    | none, _ => .error (.missingOperand operator .left)
    | some l, .operand r :: rest => bindAfter (some (.operation l operator r)) rest
    | some _, _ => .error (.missingOperand operator .right)

/-- Binds the operators of a row of tokens. -/
def bindTokens (tokens : List Token) : Except NotationError (List Expr) :=
  bindAfter none tokens

/-- The stray words that binding drops, up to the first operator that it cannot bind. The
flag says whether an operand ends just before the tokens. -/
def droppedAfter (hasLeft : Bool) : List Token → List (List Char)
  | [] => []
  | .operand _ :: rest => droppedAfter true rest
  | .stray word :: rest => word :: droppedAfter false rest
  | .operator _ :: .operand _ :: rest => if hasLeft then droppedAfter true rest else []
  | .operator _ :: _ => []

/-- Binds the operators of a row of tokens and notes the words that were dropped. -/
def bound (tokens : List Token) : Reading (List Expr) := do
  modify fun state =>
    { state with ignored := state.ignored ++ (droppedAfter false tokens).map String.ofList }
  match bindTokens tokens with
  | .ok exprs => pure exprs
  | .error error => throw error

end DiceNotation.Notation
