import DiceNotation.Table
import DiceNotation.Text.Fields

/-!
# Catalogs of stored notations

A catalog stores notations under names, and further catalogs under names. A stored
notation is addressed by the names on the way to it.
-/

namespace DiceNotation

/-- What stands under a name in a catalog. -/
inductive Entry where
  /-- A stored notation. -/
  | roll (source : String)
  /-- The names and entries of a catalog inside. -/
  | table (entries : List (String × Entry))

/-- A catalog of stored notations. -/
abbrev Catalog := Table Entry

namespace Catalog

/-- The stored notation to which the names of a path lead. A path that goes on after a
notation, or ends before one, leads nowhere. -/
def follow? (catalog : Catalog) : List String → Option String
  | [] => none
  | name :: path =>
    match catalog.get? name with
    | none => none
    | some (.roll source) => if path = [] then some source else none
    | some (.table entries) => follow? entries path

/-- The names in a dotted address. -/
def segments (address : String) : List String :=
  (Text.fields (· == '.') address.toList).map String.ofList

mutual

/-- Whether two entries are equal. -/
def sameEntry : Entry → Entry → Bool
  | .roll source, .roll other => source == other
  | .table entries, .table others => same entries others
  | _, _ => false

/-- Whether two catalogs have equal entries under equal names. -/
def same : List (String × Entry) → List (String × Entry) → Bool
  | [], [] => true
  | (name, entry) :: rest, (other, otherEntry) :: others =>
    name == other && sameEntry entry otherEntry && same rest others
  | _, _ => false

end

end Catalog

end DiceNotation
