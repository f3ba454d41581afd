import DiceNotation.Catalog
import DiceNotation.Failure
import DiceNotation.Options
import DiceNotation.Text.Numeral

/-!
# References in an input

An input may refer to a stored notation by its address, and a notation to variables by
their names. Both kinds of references are replaced before the notation is read.
-/

namespace DiceNotation.Reference

/-- Whether a character shows that an input is meant as a notation. -/
def marksNotation (c : Char) : Bool :=
  Text.isDigit c || c ∈ ['+', '-', '*', '/', '(', ')']

/-- Whether an input that is no address of a stored notation can be a notation itself: it
has a mark of one, and no dot as addresses have. -/
def isNotation (input : String) : Bool :=
  !input.toList.contains '.' && input.toList.any marksNotation

/-- The notation that an input stands for: the one that is stored under it, or itself. -/
def sourceOf (catalog : Catalog) (input : String) : Except Failure String :=
  match catalog.follow? (Catalog.segments input) with
  | some source => .ok source
  | none => if isNotation input then .ok input else .error (.undefinedMapping input)

/-- Puts values in the place of variables. A variable is a dollar sign with the longest
name that follows it; a dollar sign without a name stays. -/
def fillChars (table : Variables) : List Char → Except Failure (List Char)
  | [] => .ok []
  | c :: rest =>
    if c = '$' then
      let name := rest.takeWhile Text.isNameChar
      if name = [] then (c :: ·) <$> fillChars table rest
      else
        match table.get? (String.ofList name) with
        | none => .error (.undefinedVariable (String.ofList name))
        | some value =>
          (Text.integerText value.toInt ++ ·) <$>
            fillChars table (rest.dropWhile Text.isNameChar)
    else (c :: ·) <$> fillChars table rest
termination_by text => text.length
decreasing_by
  all_goals simp only [List.length_cons]
  · omega
  · have := (List.dropWhile_sublist (l := rest) Text.isNameChar).length_le
    omega
  · omega

/-- The notation with values in the place of variables. -/
def fill (table : Variables) (source : String) : Except Failure String :=
  String.ofList <$> fillChars table source.toList

/-- Replaces all references: first the input by the notation it stands for, then the
variables in that notation. -/
def dereference (catalog : Catalog) (table : Variables) (input : String) :
    Except Failure String := do
  fill table (← sourceOf catalog input)

end DiceNotation.Reference
