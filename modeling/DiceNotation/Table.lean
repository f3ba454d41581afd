/-!
# Tables

A table assigns one entry to each of finitely many names. It is kept in the order of the
names, so that tables with the same entries are equal.
-/

namespace DiceNotation

/-- Pairs of a name and its entry, in the order of the names. -/
abbrev Table (α : Type) := List (String × α)

namespace Table

/-- The table with a new entry for a name, in the place of the one it had. -/
def insert {α : Type} (name : String) (entry : α) : Table α → Table α
  | [] => [(name, entry)]
  | (other, old) :: rest =>
    if name = other then (name, entry) :: rest
    else if name < other then (name, entry) :: (other, old) :: rest
    else (other, old) :: insert name entry rest

/-- The table with the given entries; of two for one name the later one counts. -/
def ofList {α : Type} (entries : List (String × α)) : Table α :=
  entries.foldl (fun table entry => insert entry.1 entry.2 table) []

/-- The entry for a name. -/
def get? {α : Type} (table : Table α) (name : String) : Option α :=
  table.lookup name

/-- The first entry counts if it has the name, and otherwise the rest does. -/
theorem get?_cons {α : Type} (first : String) (entry : α) (rest : Table α) (name : String) :
    get? ((first, entry) :: rest) name = if name = first then some entry else get? rest name := by
  rw [get?, get?, List.lookup_cons]
  by_cases h : name = first
  · rw [if_pos h, beq_iff_eq.mpr h]
  · rw [if_neg h, beq_eq_false_iff_ne.mpr h]

/-- Inserting changes the entry of one name, and of no other. -/
theorem get?_insert {α : Type} (table : Table α) (name other : String) (entry : α) :
    (insert name entry table).get? other =
      if other = name then some entry else table.get? other := by
  induction table with
  | nil => exact get?_cons name entry [] other
  | cons pair rest ih =>
    obtain ⟨first, old⟩ := pair
    simp only [insert]
    split
    · next h =>
      subst h
      simp only [get?_cons]
      split <;> rfl
    · next h =>
      split
      · simp only [get?_cons]
      · simp only [get?_cons, ih]
        split
        · next hfirst => rw [if_neg (fun hname => h (hname.symm.trans hfirst))]
        · rfl

end Table

end DiceNotation
