import DiceNotation.Text.CharClass

/-!
# Decimal numerals

Whole numbers in decimal: the digits of a number, and the number that a row of digits
stands for.
-/

namespace DiceNotation.Text

/-- The decimal digits of a number, without leading zeros. -/
def digits (n : Nat) : List Char :=
  Nat.toDigits 10 n

/-- The number that a row of digits stands for; leading zeros do not count. -/
def numeralValue (numeral : List Char) : Nat :=
  Nat.ofDigitChars 10 numeral 0

/-- Whether the text is a numeral: one or more digits. -/
def isNumeral (text : List Char) : Bool :=
  text ≠ [] && text.all isDigit

/-- The decimal text of an integer: a minus sign in front if it is negative. -/
def integerText : Int → List Char
  | .ofNat n => digits n
  | .negSucc n => '-' :: digits (n + 1)

/-- The digits of a number have its value. -/
theorem numeralValue_digits (n : Nat) : numeralValue (digits n) = n :=
  Nat.ofDigitChars_ten_toDigits

end DiceNotation.Text
