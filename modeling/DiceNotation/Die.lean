import DiceNotation.Text.Numeral

/-!
# Dice

A die has a number of sides, numbered from one up, or is a Fate die, whose six sides bear
three symbols. A pool is several dice of one kind.
-/

namespace DiceNotation

/-- A die. The number of sides is positive and fits into 32 bits. -/
inductive Die where
  | sided (sides : Nat) (valid : 0 < sides ∧ sides < UInt32.size)
  | fate
  deriving DecidableEq

/-- Why a text is not a number of sides. -/
inductive SidesError where
  | empty
  | invalidDigit
  | tooLarge
  | zero
  deriving DecidableEq

/-- The message about a text that is not a number of sides. -/
def SidesError.message : SidesError → String
  | .empty => "cannot parse integer from empty string"
  | .invalidDigit => "invalid digit found in string"
  | .tooLarge => "number too large to fit in target type"
  | .zero => "number would be zero for non-zero type"

namespace Die

/-- The number of sides of a die. -/
def faces : Die → Nat
  | .sided sides _ => sides
  | .fate => 6

/-- Whether the die is a Fate die. -/
def isFate : Die → Bool
  | .sided .. => false
  | .fate => true

/-- The text of a die: its number of sides, or `F`. -/
def render : Die → List Char
  | .sided sides _ => Text.digits sides
  | .fate => ['F']

/-- The text of a die as a string. -/
def text (die : Die) : String :=
  String.ofList die.render

/-- The die with a given number of sides, if there can be one. -/
def ofSides? (sides : Nat) : Option Die :=
  if valid : 0 < sides ∧ sides < UInt32.size then some (.sided sides valid) else none

/-- Reads the digits that continue a number of sides. The first character at which the
number cannot go on decides between the two errors. -/
def readSides (soFar : Nat) : List Char → Except SidesError Nat
  | [] => .ok soFar
  | c :: rest =>
    if !Text.isDigit c then .error .invalidDigit
    else
      let next := 10 * soFar + (c.toNat - '0'.toNat)
      if next < UInt32.size then readSides next rest else .error .tooLarge

/-- Reads a number of sides: digits, with at most one plus sign in front. -/
def readNumber : List Char → Except SidesError Nat
  | [] => .error .empty
  | ['+'] => .error .invalidDigit
  | '+' :: rest => readSides 0 rest
  | digits => readSides 0 digits

/-- Reads a die: `F`, or a number of sides. -/
def ofText (text : List Char) : Except SidesError Die :=
  if text = ['F'] then .ok .fate
  else
    match readNumber text with
    | .error e => .error e
    | .ok sides =>
      match ofSides? sides with
      | some die => .ok die
      | none => .error .zero

end Die

/-- Several dice of one kind. -/
structure Pool where
  /-- How many dice there are. -/
  count : UInt64
  /-- The kind of the dice. -/
  die : Die
  deriving DecidableEq

/-- The text of a pool: the count, the letter `d` and the die. -/
def Pool.render (pool : Pool) : List Char :=
  Text.digits pool.count.toNat ++ 'd' :: pool.die.render

end DiceNotation
