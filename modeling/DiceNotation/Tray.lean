import DiceNotation.Draw
import DiceNotation.Event
import DiceNotation.Failure
import DiceNotation.Options
import DiceNotation.Rolled

/-!
# The tray

Dice fall into a tray. It keeps all dice that were rolled, counts the dice that were asked
for, and knows how many samples were drawn. What fell into the tray stays there when a
later step of an evaluation fails.
-/

namespace DiceNotation

/-- The state of an evaluation. -/
structure Tray where
  /-- The position of the next sample. -/
  position : Nat := 0
  /-- How many dice were asked for, up to the largest 64-bit number. -/
  counted : Nat := 0
  /-- The dice that were rolled, in order. -/
  dice : Array Rolled := #[]
  /-- The warnings about samples. -/
  warnings : Array Event := #[]

/-- What an evaluation takes from outside. -/
structure Setting where
  /-- How dice are rolled. -/
  options : Options := {}
  /-- The values of variables. -/
  «variables» : Variables := []
  /-- The samples that dice are drawn from. -/
  samples : Samples

/-- A step of an evaluation. The tray is kept also when a step fails. -/
abbrev Casting := EStateM Failure Tray

/-- The largest number of dice that the counter can hold. -/
def maxCounted : Nat := UInt64.size - 1

/-- From this number on, dice in one pool are refused whatever the limit is: they could not
be recorded. -/
def unrecordable : Nat := UInt64.size / 16

/-- The largest number of dice that the record can hold. -/
def maxRecorded : Nat := UInt64.size - 1

/-- Whether a number of dice is above the limit of the options. -/
def Options.exceeded (options : Options) (dice : Nat) : Bool :=
  match options.maxDice with
  | some limit => limit.toNat < dice
  | none => false

namespace Tray

/-- The tray after one more die of a pool. -/
def cast (setting : Setting) (pool : Pool) (tray : Tray) : Tray :=
  let minRoll := setting.options.minRoll
  let draw := pool.die.drawSide setting.samples tray.position minRoll
  let rolled : Rolled :=
    ⟨Rolled.labelAt pool tray.dice.size, pool.die, pool.die.valueOf draw.value⟩
  { tray with
    position := draw.next
    dice := tray.dice.push rolled
    warnings :=
      if draw.gaveUp then
        tray.warnings.push (.gaveUp (pool.die.lowestSide minRoll) pool.die.highestSide)
      else tray.warnings }

/-- The tray after so many more dice of a pool. -/
def castMany (setting : Setting) (pool : Pool) : Nat → Tray → Tray
  | 0, tray => tray
  | count + 1, tray => castMany setting pool count (tray.cast setting pool)

/-- The tray with so many more dice asked for. -/
def count (tray : Tray) (dice : Nat) : Tray :=
  { tray with counted := min (tray.counted + dice) maxCounted }

/-- Whether so many more dice of one pool can be recorded. -/
def hasRoom (tray : Tray) (dice : Nat) : Bool :=
  dice < unrecordable && tray.dice.size + dice ≤ maxRecorded

/-- The values of the dice from a place of the record on. -/
def valuesFrom (tray : Tray) (place : Nat) : List Value :=
  (tray.dice.extract place).toList.map fun rolled => Value.ofInt rolled.value.toInt

end Tray

/-- Rolls a pool: its values. The dice are counted first, also if they are then refused. -/
def rollPool (setting : Setting) (pool : Pool) : Casting (List Value) := do
  modify (·.count pool.count.toNat)
  let tray ← get
  if setting.options.exceeded tray.counted || !tray.hasRoom pool.count.toNat then
    throw .tooManyDice
  let filled := tray.castMany setting pool pool.count.toNat
  set filled
  pure (filled.valuesFrom tray.dice.size)

/-- The value of a variable. -/
def variableValue (setting : Setting) (name : String) : Casting Int64 :=
  match setting.variables.get? name with
  | some value => pure value
  | none => throw (.undefinedVariable name)

end DiceNotation
