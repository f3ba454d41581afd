import DiceNotation.Proofs.Notation.Joining
import DiceNotation.Proofs.Notation.Operands

/-!
# Operators without operands

An operator needs an operand right beside it on both sides. A text in which a word without a
meaning stands beside an operator has therefore no expressions, whatever else is in it.
-/

namespace DiceNotation.Notation

/-- The expressions of a text, if all its words and calls have a meaning and all its operators have
operands. -/
def exprs? (text : List Char) : Option (List Expr) :=
  (row? text).bind fun row => (bindTokens row).toOption

/-- A notation is read into its expressions if it has any. -/
theorem read_eq_ok_iff_exprs? {source : String} {exprs : List Expr} :
    read source = .ok exprs ↔ exprs ≠ [] ∧ exprs? source.toList = some exprs := by
  rw [read_eq_ok_iff]
  simp only [exprs?, Option.bind_eq_some_iff, eq_ok_iff_toOption]

/-- The parameters of a call are the expressions of the first argument and of the others. -/
theorem parameters?_cons (argument : List Char) (rest : List (List Char)) :
    parameters? (argument :: rest) =
      (exprs? argument).bind fun exprs => (parameters? rest).map (exprs ++ ·) := by
  rw [parameters?, exprs?]
  simp only [Option.bind_eq_bind, Option.pure_def, Option.map_eq_bind, Option.bind_assoc,
    Function.comp_def]

/-- A word that is not recognized is stray. -/
theorem meaning?_stray {word : List Char} (h : Word.ofChars word = .stray) :
    meaning? word = some (.stray word) := by
  rw [meaning?, h]

/-- If two words of a text mean tokens from which on binding fails, then the text has no
expressions. -/
theorem exprs?_of_fails {text first second : List Char} {before after : List Part}
    {firstToken secondToken : Token}
    (hparts : parts? text = some (before ++ .word first :: .word second :: after))
    (hfirst : meaning? first = some firstToken) (hsecond : meaning? second = some secondToken)
    (hfails : ∀ left rest, (bindAfter left (firstToken :: secondToken :: rest)).toOption = none)
    (hstart : ∀ e, firstToken ≠ .operand e) : exprs? text = none := by
  rw [exprs?, row?_eq_parts, hparts, Option.bind_some, List.mapM_append, List.mapM_cons,
    List.mapM_cons]
  simp only [Part.token?, hfirst, hsecond, Option.bind_eq_bind, Option.bind_some, Option.pure_def]
  cases before.mapM Part.token? with
  | none => rfl
  | some row =>
    cases after.mapM Part.token? with
    | none => rfl
    | some rest =>
      refine bindAfter_append_of_fails (fun left => hfails left rest) ?_ none row
      rintro e others heq
      exact hstart e (List.cons.inj heq).1

/-- With a stray word before an operator, a text has no expressions. -/
theorem exprs?_of_stray_operator {text word : List Char} {before after : List Part}
    {operator : Operator}
    (hparts : parts? text = some (before ++ .word word :: .word [operator.symbol] :: after))
    (hword : Word.ofChars word = .stray) : exprs? text = none :=
  exprs?_of_fails hparts (meaning?_stray hword) (meaning?_symbol operator)
    (fun left rest => bindAfter_stray_operator left word operator rest) (by simp)

/-- With a stray word behind an operator, a text has no expressions. -/
theorem exprs?_of_operator_stray {text word : List Char} {before after : List Part}
    {operator : Operator}
    (hparts : parts? text = some (before ++ .word [operator.symbol] :: .word word :: after))
    (hword : Word.ofChars word = .stray) : exprs? text = none :=
  exprs?_of_fails hparts (meaning?_symbol operator) (meaning?_stray hword)
    (fun left rest => bindAfter_operator_stray left operator word rest) (by simp)

end DiceNotation.Notation
