import DiceNotation.Expr
import DiceNotation.Notation.Error
import DiceNotation.Notation.Word

/-!
# Tokens

A token is a word with its meaning. Calls do not occur among the words: they were set
aside on a shelf, and a placeholder word fetches its call from there, which can be done
only once.
-/

namespace DiceNotation.Notation

/-- The meaning of a word. -/
inductive Token where
  | operand (e : Expr)
  | operator (operator : Operator)
  | stray (word : List Char)

/-- The calls that were set aside, in the order in which they were; a call that was fetched
leaves an empty place. -/
abbrev Shelf := Array (Option Expr)

/-- What reading keeps while it goes on. -/
structure ReadState where
  /-- The calls that were set aside. -/
  shelf : Shelf := #[]
  /-- The words that were ignored so far. -/
  ignored : Array String := #[]

/-- A step of reading. The state is kept also when a step fails. -/
abbrev Reading := EStateM NotationError ReadState

/-- Puts a call on the shelf; the result is its place there. -/
def shelve (call : Expr) : Reading Nat := do
  let state ← get
  set { state with shelf := state.shelf.push (some call) }
  pure state.shelf.size

/-- Takes the call at a place from the shelf. -/
def fetch? (place : Nat) : Reading (Option Expr) := do
  let state ← get
  match state.shelf[place]? with
  | some (some call) =>
    set { state with shelf := state.shelf.setIfInBounds place none }
    pure (some call)
  | _ => pure none

/-- The integer with the given sign and numeral, if it fits into 64 bits. -/
def integer? (isNegative : Bool) (numeral : List Char) : Option Int64 :=
  let value : Int := if isNegative then -Text.numeralValue numeral else Text.numeralValue numeral
  if Int64.minValue.toInt ≤ value ∧ value ≤ Int64.maxValue.toInt then some (Int64.ofInt value)
  else none

/-- The pool that a word for dice stands for. The count is looked at before the size. -/
def pool (word count size : List Char) : Except NotationError Pool :=
  if Text.numeralValue count < UInt64.size then
    match Die.ofText size with
    | .ok die => .ok ⟨UInt64.ofNat (Text.numeralValue count), die⟩
    | .error _ => .error (.invalidDie (String.ofList word) (String.ofList size))
  else .error (.tooManyDice (String.ofList word))

/-- A way to read with a shelf: what is done to put a call there, and to take one from there. Every
other step is a step of reading. -/
structure Shelving (m : Type → Type) where
  /-- Puts a call on the shelf; the result is its place there. -/
  shelve : Expr → m Nat
  /-- Takes the call at a place from the shelf. -/
  fetch? : Nat → m (Option Expr)
  /-- Makes a step that leaves the shelf alone. -/
  step : {α : Type} → Reading α → m α

namespace Shelving

variable {m : Type → Type} [Monad m] [MonadExceptOf NotationError m] (shelving : Shelving m)

/-- The meaning of a word. -/
def token (word : List Char) : m Token :=
  match Word.ofChars word with
  | .placeholder numeral => do
    match ← shelving.fetch? (Text.numeralValue numeral) with
    | some call => pure (.operand call)
    | none => throw (.unknownPlaceholder (String.ofList word))
  | .integer isNegative numeral =>
    match integer? isNegative numeral with
    | some value => pure (.operand (.number value))
    | none => throw (.integerOutOfRange (String.ofList word))
  | .dice count size =>
    match pool word count size with
    | .ok pool => pure (.operand (.dice pool))
    | .error e => throw e
  | .operator operator => pure (.operator operator)
  | .variable name => pure (.operand (.variable (String.ofList name)))
  | .stray => pure (.stray word)

/-- The meanings of words, from left to right. -/
def tokensOf : List (List Char) → m (List Token)
  | [] => pure []
  | word :: rest => do
    let first ← shelving.token word
    let others ← tokensOf rest
    pure (first :: others)

end Shelving

/-- Reading with the shelf that it keeps. -/
abbrev direct : Shelving Reading := ⟨shelve, fetch?, fun step => step⟩

/-- The meaning of a word. -/
def token (word : List Char) : Reading Token :=
  direct.token word

/-- The meanings of words, from left to right. -/
def tokensOf (words : List (List Char)) : Reading (List Token) :=
  direct.tokensOf words

/-- The tokens of a text in which no calls are left. -/
def tokens (text : List Char) : Reading (List Token) :=
  tokensOf (wordsOf text)

/-- No words have no meanings. -/
theorem tokensOf_nil : tokensOf [] = pure [] :=
  rfl

/-- The first word is looked up before the others. -/
theorem tokensOf_cons (word : List Char) (rest : List (List Char)) :
    tokensOf (word :: rest) =
      token word >>= fun first => tokensOf rest >>= fun others => pure (first :: others) :=
  rfl

end DiceNotation.Notation
