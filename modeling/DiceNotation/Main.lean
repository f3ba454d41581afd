import DiceNotation.Prompt

/-!
# The program

Reads notations line by line and rolls them with random samples of the system.
-/

open DiceNotation

/-- Reads bytes up to the end of a line or of the input, after those read so far. -/
partial def readLine (input : IO.FS.Stream) (soFar : ByteArray) : IO ByteArray := do
  let next ← input.read 1
  if next.isEmpty then return soFar
  let line := soFar ++ next
  if next.data.contains '\n'.toUInt8 then return line
  readLine input line

/-- Answers lines until the input ends or is no longer text. -/
partial def answerLines (input output complaints : IO.FS.Stream) : IO Unit := do
  output.putStr Prompt.mark
  output.flush
  let some line := String.fromUTF8? (← readLine input .empty) | return
  if line.isEmpty then return
  let sheet : Sheet := {}
  let bytes ← IO.getRandomBytes (4 * sheet.samplesNeeded line).toUSize
  for text in Prompt.lines line do
    let reply := Prompt.reply sheet (.ofBytes bytes) text
    output.putStr reply.output
    complaints.putStr reply.complaints
  answerLines input output complaints

def main : IO Unit := do
  answerLines (← IO.getStdin) (← IO.getStdout) (← IO.getStderr)
