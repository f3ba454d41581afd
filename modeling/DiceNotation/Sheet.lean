import DiceNotation.Notation.Reading
import DiceNotation.Outcome
import DiceNotation.Reference

/-!
# The sheet

A sheet, such as players keep for their characters, holds options, stored notations and
variables. Inputs are rolled from it: references are replaced, the notation is read, and
its expressions are evaluated.
-/

namespace DiceNotation

/-- What inputs are rolled with. -/
structure Sheet where
  /-- How dice are rolled. -/
  options : Options := {}
  /-- The stored notations. -/
  catalog : Catalog := []
  /-- The values of variables. -/
  «variables» : Variables := []

/-- What rolling an input gives. -/
structure Report where
  /-- The outcome, or why there is none. -/
  outcome : Except Failure Outcome
  /-- The position of the first sample that was not drawn. -/
  position : Nat
  /-- What happened, in order. -/
  events : List Event

namespace Sheet

/-- The input without blanks around it, or the default roll, as it is, for a blank input. -/
def effective (sheet : Sheet) (input : String) : String :=
  let trimmed := Text.trim input.toList
  if trimmed = [] then sheet.options.defaultRoll else String.ofList trimmed

/-- The notation that an input stands for, all references replaced. -/
def sourceFor (sheet : Sheet) (input : String) : Except Failure String :=
  Reference.dereference sheet.catalog sheet.variables (sheet.effective input)

/-- The setting in which the sheet evaluates expressions. -/
def setting (sheet : Sheet) (samples : Samples) : Setting :=
  ⟨sheet.options, sheet.variables, samples⟩

/-- The event of finding a stored notation, if the input is the address of one. -/
def mappingEvents (sheet : Sheet) (input : String) : List Event :=
  let path := sheet.effective input
  match sheet.catalog.follow? (Catalog.segments path) with
  | some source => [.mapped path source]
  | none => []

/-- Rolls a notation in which all references were replaced. -/
def rollSource (sheet : Sheet) (samples : Samples) (position : Nat) (source : String) :
    Report :=
  let (exprs, words) := Notation.readNoting source
  let ignored := words.map Event.ignored
  match exprs with
  | .error error => ⟨.error (.faulty error), position, ignored⟩
  | .ok exprs =>
    match rollAll (sheet.setting samples) source exprs { position := position } with
    | .error error tray => ⟨.error error, tray.position, ignored ++ tray.warnings.toList⟩
    | .ok outcome tray =>
      ⟨.ok outcome, tray.position,
        ignored ++ tray.warnings.toList ++ [.rolled source outcome.total outcome.dice.length]⟩

/-- Rolls an input with the samples from a position on. -/
def roll (sheet : Sheet) (samples : Samples) (position : Nat) (input : String) : Report :=
  let found := sheet.mappingEvents input
  match sheet.sourceFor input with
  | .error error => ⟨.error error, position, found⟩
  | .ok source =>
    let report := sheet.rollSource samples position source
    { report with events := found ++ report.events }

/-- Rolls the default notation of the options. -/
def rollDefault (sheet : Sheet) (samples : Samples) (position : Nat) : Report :=
  sheet.roll samples position sheet.options.defaultRoll

/-- Draws a number between the bounds of the options. -/
def rollDie (sheet : Sheet) (samples : Samples) (position : Nat) : Draw :=
  Draw.between samples position sheet.options.minRoll sheet.options.maxRoll

/-- How many samples rolling an input can take at most: each die takes no more than the
first sample and its redraws, and dice above the limit are not rolled. -/
def samplesNeeded (sheet : Sheet) (input : String) : Nat :=
  match sheet.sourceFor input with
  | .error _ => 0
  | .ok source =>
    match Notation.read source with
    | .error _ => 0
    | .ok exprs =>
      let dice := Expr.diceCount exprs
      let rolled := match sheet.options.maxDice with
        | some limit => min dice limit.toNat
        | none => dice
      (maxRedraws + 1) * rolled

end Sheet

end DiceNotation
