import DiceNotation.Text.Numeral
import DiceNotation.Value.Text

/-!
# Events

What happens during a roll, apart from its result, is reported as events in the order in
which it happens.
-/

namespace DiceNotation

/-- How much attention an event needs. -/
inductive Level where
  | debug
  | warn
  deriving DecidableEq

/-- The name of a level. -/
def Level.name : Level → String
  | .debug => "DEBUG"
  | .warn => "WARN"

/-- Something that happened during a roll. -/
inductive Event where
  /-- An input was the address of a stored notation. -/
  | mapped (path source : String)
  /-- A word was dropped because it was not recognized. -/
  | ignored (word : String)
  /-- A number between two bounds was drawn from a sample that favours some numbers. -/
  | gaveUp (low high : Int64)
  /-- A notation was rolled. -/
  | rolled (source : String) (total : Value) (dice : Nat)
  deriving DecidableEq

namespace Event

/-- The level of an event. -/
def level : Event → Level
  | .gaveUp .. => .warn
  | _ => .debug

/-- What an event says, with the names and texts of its parts. -/
def content : Event → String × List (String × String)
  | .mapped path source => ("resolved roll mapping", [("path", path), ("notation", source)])
  | .ignored word => ("ignoring unrecognized token", [("word", word)])
  | .gaveUp low high =>
    ("gave up on unbiased sampling after 100 attempts",
      [("min", String.ofList (Text.integerText low.toInt)),
       ("max", String.ofList (Text.integerText high.toInt))])
  | .rolled source total dice =>
    ("rolled", [("notation", source), ("total", total.text),
      ("dice", String.ofList (Text.digits dice))])

/-- The line for an event: level, message, and its parts. -/
def line (event : Event) : String :=
  let (message, parts) := event.content
  String.intercalate " "
    (event.level.name :: message :: parts.map fun part => part.1 ++ "=" ++ part.2)

end Event

end DiceNotation
