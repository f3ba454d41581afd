import DiceNotation.Operator
import DiceNotation.Text.Fields
import DiceNotation.Text.Numeral

/-!
# Words of a notation

A word is what stands between blanks, without one comma at its end. Its form alone says
what it is; no form is a special case of another one.
-/

namespace DiceNotation.Notation

/-- What a word is by its form, with the parts that give it a meaning. -/
inductive Word where
  /-- `fn#` and a numeral: the place of a call that was set aside. -/
  | placeholder (numeral : List Char)
  /-- A numeral with at most one sign in front. -/
  | integer (isNegative : Bool) (numeral : List Char)
  /-- A numeral, the letter `d`, and the letters and digits of a size. -/
  | dice (count size : List Char)
  /-- The symbol of an operator. -/
  | operator (operator : Operator)
  /-- A dollar sign and a name. -/
  | variable (name : List Char)
  /-- Anything else. -/
  | stray
  deriving DecidableEq

namespace Word

/-- A word that starts with a digit: an integer without a sign, or dice. -/
def ofDigits (word : List Char) : Word :=
  let numeral := word.takeWhile Text.isDigit
  match word.dropWhile Text.isDigit with
  | [] => if numeral ≠ [] then .integer false numeral else .stray
  | 'd' :: size =>
    if numeral ≠ [] ∧ size ≠ [] ∧ size.all Text.isAlphanumeric then .dice numeral size
    else .stray
  | _ => .stray

/-- A word that starts with a sign. -/
def ofSigned (sign : Operator) (rest : List Char) : Word :=
  if rest = [] then .operator sign
  else if Text.isNumeral rest then .integer (sign == .sub) rest
  else .stray

/-- What a word is. -/
def ofChars : List Char → Word
  | 'f' :: 'n' :: '#' :: numeral => if Text.isNumeral numeral then .placeholder numeral else .stray
  | '$' :: name => if name ≠ [] ∧ name.all Text.isNameChar then .variable name else .stray
  | '+' :: rest => ofSigned .add rest
  | '-' :: rest => ofSigned .sub rest
  | ['*'] => .operator .mul
  | ['/'] => .operator .div
  | word => ofDigits word

end Word

/-- The word without one comma at its end. -/
def dropComma (word : List Char) : List Char :=
  if word.getLast? = some ',' then word.dropLast else word

/-- The words of a text, without commas at their ends and without those that were nothing
but a comma. -/
def wordsOf (text : List Char) : List (List Char) :=
  ((Text.words text).map dropComma).filter (· ≠ [])

end DiceNotation.Notation
