import DiceNotation.Notation.Binding
import DiceNotation.Notation.Call

/-!
# Lifting calls out of a text

Reading deals with calls before it looks at words. The leftmost call is read, set aside on
the shelf, and a placeholder word takes its place in the text, until no call is left. The
arguments of a call are read in the same way, each on its own, before the call is set
aside. Both the text after a replacement and the arguments hold fewer opening parentheses
than the text before, so lifting ends, although a replacement can make the text longer.
-/

namespace DiceNotation.Notation

/-- The word that stands for the call at a place on the shelf. -/
def placeholder (place : Nat) : List Char :=
  'f' :: 'n' :: '#' :: Text.digits place

/-- The function with a given name. -/
def builtin (name : List Char) : Reading Builtin :=
  match Builtin.ofName? (String.ofList name) with
  | some function => pure function
  | none => throw (.unknownFunction (String.ofList name))

/-- The text with the placeholder word, between blanks, in the place of the call. -/
def CallSite.replaced (site : CallSite) (place : Nat) : List Char :=
  site.before ++ ' ' :: placeholder place ++ ' ' :: site.after

/-- A placeholder has no parentheses. -/
theorem openings_placeholder (place : Nat) : openings (placeholder place) = 0 := by
  rw [openings, List.count_eq_zero]
  intro hmem
  simp only [placeholder, List.mem_cons] at hmem
  rcases hmem with h | h | h | h
  · exact absurd h (by decide)
  · exact absurd h (by decide)
  · exact absurd h (by decide)
  · exact absurd (Nat.isDigit_of_mem_toDigits (by decide) (by decide) h) (by decide)

/-- A placeholder adds no parentheses to those around the call. -/
theorem openings_replaced (site : CallSite) (place : Nat) :
    openings (site.replaced place) = openings site.before + openings site.after := by
  simp only [CallSite.replaced, openings_append, List.append_assoc, List.cons_append,
    openings_cons_of_ne (show ' ' ≠ '(' by decide), openings_placeholder, Nat.zero_add]

namespace Shelving

variable {m : Type → Type} [Monad m] [MonadExceptOf NotationError m] (shelving : Shelving m)

mutual

/-- Sets all calls of a text aside: the text with placeholders instead of them. -/
def lift (text : List Char) : m (List Char) :=
  match _found : leftmostCall text with
  | .error error => throw error
  | .ok none => pure text
  | .ok (some site) => do
    let function ← shelving.step (builtin site.name)
    let parameters ← readArguments (argumentTexts site.arguments)
    let place ← shelving.shelve (.call function parameters)
    lift (site.replaced place)
termination_by (openings text, 0)
decreasing_by
  · apply Prod.Lex.left
    exact Nat.lt_of_le_of_lt (openingsOf_argumentTexts_le _) (openings_arguments_lt _found)
  · apply Prod.Lex.left
    rw [openings_replaced]
    exact openings_around_lt _found

/-- Reads the arguments of a call, one after the other: the expressions of all of them. -/
def readArguments (arguments : List (List Char)) : m (List Expr) :=
  match arguments with
  | [] => pure []
  | argument :: rest => do
    let lifted ← lift argument
    let row ← shelving.tokensOf (wordsOf lifted)
    let exprs ← shelving.step (bound row)
    let others ← readArguments rest
    pure (exprs ++ others)
termination_by (openingsOf arguments, arguments.length + 1)
decreasing_by
  · exact lex_first_argument argument rest
  · exact lex_other_arguments argument rest

end

/-- A text with a call that is not closed cannot be lifted. -/
theorem lift_of_error {text : List Char} {error : NotationError}
    (h : leftmostCall text = .error error) : shelving.lift text = throw error := by
  rw [lift]
  split <;> simp_all

/-- A text without a call is left as it is. -/
theorem lift_of_none {text : List Char} (h : leftmostCall text = .ok none) :
    shelving.lift text = pure text := by
  rw [lift]
  split <;> simp_all

/-- A call is read with its arguments and set aside, and then lifting starts again. -/
theorem lift_of_some {text : List Char} {site : CallSite}
    (h : leftmostCall text = .ok (some site)) :
    shelving.lift text =
      shelving.step (builtin site.name) >>= fun function =>
        shelving.readArguments (argumentTexts site.arguments) >>= fun parameters =>
          shelving.shelve (.call function parameters) >>= fun place =>
            shelving.lift (site.replaced place) := by
  rw [lift]
  split
  · simp_all
  · simp_all
  · next found hfound =>
    rw [h, Except.ok.injEq, Option.some.injEq] at hfound
    subst hfound
    rfl

end Shelving

/-- Sets all calls of a text aside: the text with placeholders instead of them. -/
def lift (text : List Char) : Reading (List Char) :=
  direct.lift text

/-- Reads the arguments of a call, one after the other: the expressions of all of them. -/
def readArguments (arguments : List (List Char)) : Reading (List Expr) :=
  direct.readArguments arguments

/-- A text with a call that is not closed cannot be lifted. -/
theorem lift_of_error {text : List Char} {error : NotationError}
    (h : leftmostCall text = .error error) : lift text = throw error :=
  direct.lift_of_error h

/-- A text without a call is left as it is. -/
theorem lift_of_none {text : List Char} (h : leftmostCall text = .ok none) :
    lift text = pure text :=
  direct.lift_of_none h

/-- A call is read with its arguments and set aside, and then lifting starts again. -/
theorem lift_of_some {text : List Char} {site : CallSite}
    (h : leftmostCall text = .ok (some site)) :
    lift text =
      builtin site.name >>= fun function =>
        readArguments (argumentTexts site.arguments) >>= fun parameters =>
          shelve (.call function parameters) >>= fun place => lift (site.replaced place) :=
  direct.lift_of_some h

/-- No arguments have no expressions. -/
theorem readArguments_nil : readArguments [] = pure [] := by
  rw [readArguments, Shelving.readArguments]

/-- The first argument is read before the others. -/
theorem readArguments_cons (argument : List Char) (rest : List (List Char)) :
    readArguments (argument :: rest) =
      lift argument >>= fun lifted => tokens lifted >>= fun row => bound row >>= fun exprs =>
        readArguments rest >>= fun others => pure (exprs ++ others) := by
  rw [readArguments, Shelving.readArguments]
  rfl

end DiceNotation.Notation
