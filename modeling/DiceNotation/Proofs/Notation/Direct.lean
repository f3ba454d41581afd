import DiceNotation.Notation.Reading

/-!
# Reading in one piece

The plain account of what a notation means. It follows the text from left to right and goes
into the arguments of a call where it meets it: the text is never rewritten, no call is set
aside, and no word stands for one.
-/

namespace DiceNotation.Notation

/-- The meaning of a word on its own. A word in the form of a placeholder has none, since no
call is ever set aside. -/
def meaning? (word : List Char) : Option Token :=
  match Word.ofChars word with
  | .placeholder _ => none
  | .integer isNegative numeral =>
    (integer? isNegative numeral).map fun value => .operand (.number value)
  | .dice count size => (pool word count size).toOption.map fun pool => .operand (.dice pool)
  | .operator operator => some (.operator operator)
  | .variable name => some (.operand (.variable (String.ofList name)))
  | .stray => some (.stray word)

mutual

/-- The tokens of a text: those of the words before its leftmost call, the call, and those of
the text after it. -/
def row? (text : List Char) : Option (List Token) :=
  match _found : leftmostCall text with
  | .error _ => none
  | .ok none => (wordsOf text).mapM meaning?
  | .ok (some site) => do
    let before ← (wordsOf site.before).mapM meaning?
    let function ← Builtin.ofName? (String.ofList site.name)
    let parameters ← parameters? (argumentTexts site.arguments)
    let after ← row? site.after
    pure (before ++ .operand (.call function parameters) :: after)
termination_by (openings text, 0)
decreasing_by
  · apply Prod.Lex.left
    exact Nat.lt_of_le_of_lt (openingsOf_argumentTexts_le _) (openings_arguments_lt _found)
  · apply Prod.Lex.left
    exact Nat.lt_of_le_of_lt (Nat.le_add_left _ _) (openings_around_lt _found)

/-- The parameters of a call: the expressions of all its arguments, each argument bound on its
own. -/
def parameters? (arguments : List (List Char)) : Option (List Expr) :=
  match arguments with
  | [] => some []
  | argument :: rest => do
    let row ← row? argument
    let exprs ← (bindTokens row).toOption
    let others ← parameters? rest
    pure (exprs ++ others)
termination_by (openingsOf arguments, arguments.length + 1)
decreasing_by
  · exact lex_first_argument argument rest
  · exact lex_other_arguments argument rest

end

/-- The expressions of a notation, if it has any and no fault. -/
def readDirectly? (text : String) : Option (List Expr) := do
  let row ← row? text.toList
  let exprs ← (bindTokens row).toOption
  if exprs.isEmpty then none else some exprs

end DiceNotation.Notation
