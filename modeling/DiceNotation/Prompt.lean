import DiceNotation.Sheet

/-!
# The prompt

A session at the prompt: every line of input is rolled and answered by one line, a result
on the output or a complaint beside it.
-/

namespace DiceNotation.Prompt

/-- What is written to ask for a line. -/
def mark : String := "> "

/-- The answer to a line. -/
inductive Reply where
  | result (line : String)
  | complaint (line : String)
  deriving DecidableEq

/-- The answer that an outcome makes. -/
def Reply.ofOutcome : Except Failure Outcome → Reply
  | .ok outcome => .result (outcome.text ++ "\n")
  | .error error => .complaint ("Error: " ++ error.message ++ "\n")

/-- What the answer writes to the output. -/
def Reply.output : Reply → String
  | .result line => line
  | .complaint _ => ""

/-- What the answer writes beside the output. -/
def Reply.complaints : Reply → String
  | .result _ => ""
  | .complaint line => line

/-- The line without a carriage return at its end. -/
def dropReturn (line : List Char) : List Char :=
  if line.getLast? = some '\r' then line.dropLast else line

/-- The lines of an input. A line that is ended by the end of the input is one too if it is
not empty. -/
def lines (input : String) : List String :=
  let all := Text.fields (· == '\n') input.toList
  let ended := all.dropLast.map dropReturn
  let last := all.getLast?.toList.filter (· ≠ [])
  (ended ++ last).map String.ofList

/-- The answer to a line. -/
def reply (sheet : Sheet) (samples : Samples) (line : String) : Reply :=
  .ofOutcome (sheet.roll samples 0 line).outcome

/-- What a session writes. -/
structure Transcript where
  output : String
  complaints : String
  deriving DecidableEq

/-- The session in which the lines of an input are rolled, each with samples of its own. -/
def transcript (sheet : Sheet) (samples : Samples) (input : String) : Transcript :=
  let replies := (lines input).map (reply sheet samples)
  { output := mark ++ String.join (replies.map fun reply => reply.output ++ mark)
    complaints := String.join (replies.map Reply.complaints) }

end DiceNotation.Prompt
