import DiceNotation.Notation.Lifting

/-!
# Reading a notation

A notation is read into the expressions that stand in it side by side. A text in which
nothing can be rolled is refused.
-/

namespace DiceNotation.Notation

/-- The first stray word of a row of tokens. -/
def firstStray? : List Token → Option (List Char)
  | [] => none
  | .stray word :: _ => some word
  | _ :: rest => firstStray? rest

/-- The error about a text without expressions, whose tokens are given. -/
def nothingRead (text : List Char) (row : List Token) : NotationError :=
  match firstStray? row with
  | some word => .unrecognized (String.ofList text) (String.ofList word)
  | none => .nothingToRoll (String.ofList text)

/-- Reads a text, step by step. -/
def Shelving.readChars {m : Type → Type} [Monad m] [MonadExceptOf NotationError m]
    (shelving : Shelving m) (text : List Char) : m (List Expr) := do
  let lifted ← shelving.lift text
  let row ← shelving.tokensOf (wordsOf lifted)
  let exprs ← shelving.step (bound row)
  if exprs.isEmpty then throw (nothingRead text row)
  pure exprs

/-- Reads a text, step by step. -/
def readChars (text : List Char) : Reading (List Expr) :=
  direct.readChars text

/-- Calls are set aside, words looked up and operators bound, and something must be left. -/
theorem readChars_eq (text : List Char) :
    readChars text =
      lift text >>= fun lifted => tokens lifted >>= fun row => bound row >>= fun exprs =>
        if exprs.isEmpty then throw (nothingRead text row) else pure exprs :=
  rfl

/-- What reading a text gives, and the words that were ignored on the way. -/
def readNoting (text : String) : Except NotationError (List Expr) × List String :=
  match readChars text.toList {} with
  | .ok exprs state => (.ok exprs, state.ignored.toList)
  | .error error state => (.error error, state.ignored.toList)

/-- Reads a notation. -/
def read (text : String) : Except NotationError (List Expr) :=
  (readNoting text).1

end DiceNotation.Notation
