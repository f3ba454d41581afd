import DiceNotation.Text.Combining
import DiceNotation.Text.Invisible

/-!
# Quoted text

Messages quote the words they speak about. Inside the quotes everything that could not
be seen, or would be taken for the end of the quotation, is written as an escape.
-/

namespace DiceNotation.Text

/-- The escape for a code point: its number in lower-case hexadecimal, in braces. -/
def codePointEscape (c : Char) : List Char :=
  ['\\', 'u', '\x7b'] ++ Nat.toDigits 16 c.toNat ++ ['\x7d']

/-- One character inside quotes. -/
def escape (c : Char) : List Char :=
  match c with
  | '\x00' => ['\\', '0']
  | '\t' => ['\\', 't']
  | '\r' => ['\\', 'r']
  | '\n' => ['\\', 'n']
  | '"' => ['\\', '"']
  | '\\' => ['\\', '\\']
  | c => if isCombining c || isInvisible c then codePointEscape c else [c]

/-- The text in double quotes. -/
def quoted (text : String) : String :=
  String.ofList ('"' :: text.toList.flatMap escape ++ ['"'])

end DiceNotation.Text
