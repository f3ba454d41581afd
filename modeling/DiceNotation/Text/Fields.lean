import DiceNotation.Text.Blank

/-!
# Fields and words

A separator cuts a text into fields: one more than there are separators, some of them
possibly empty. The words of a text are its non-empty fields between blanks.
-/

namespace DiceNotation.Text

/-- Puts a character in front of the first field. -/
def extendFirst (c : Char) : List (List Char) → List (List Char)
  | [] => [[c]]
  | field :: fields => (c :: field) :: fields

/-- The fields of a text between the characters for which `separates` holds. -/
def fields (separates : Char → Bool) : List Char → List (List Char)
  | [] => [[]]
  | c :: rest =>
    if separates c then [] :: fields separates rest
    else extendFirst c (fields separates rest)

/-- Cutting a text into fields is what the library does for any list. -/
theorem fields_eq_splitOnP (separates : Char → Bool) (text : List Char) :
    fields separates text = text.splitOnP separates := by
  induction text with
  | nil => rfl
  | cons c rest ih =>
    rw [fields, List.splitOnP_cons_eq_if_modifyHead, ih]
    split
    · rfl
    · cases hrest : rest.splitOnP separates with
      | nil => exact absurd hrest (List.splitOnP_ne_nil _ _)
      | cons field fields => rfl

/-- The non-empty fields between blanks. -/
def words (text : List Char) : List (List Char) :=
  (fields isBlank text).filter (· ≠ [])

end DiceNotation.Text
