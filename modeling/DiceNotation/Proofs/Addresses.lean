import DiceNotation.Proofs.Notation.Words
import DiceNotation.Reference

/-!
# Addresses of stored notations

An address is the names on the way to a stored notation, with dots between them. An input is cut at
its dots again, so that it finds the notation at the end of a path exactly if it is the address
made of that path and no name in it has a dot of its own. A notation with such a name on the way to
it cannot be found by any input.
-/

namespace DiceNotation

namespace Catalog

/-- The address that the names of a path make. -/
def address (path : List String) : String :=
  String.intercalate "." path

/-- Whether no name of a path has a dot, at which an address would be cut. -/
def Dotless (path : List String) : Prop :=
  ∀ name ∈ path, '.' ∉ name.toList

/-- The names in an address are the pieces of its text between the dots. -/
theorem map_toList_segments (input : String) :
    (segments input).map String.toList = input.toList.splitOn '.' := by
  have hid : String.toList ∘ String.ofList = id := funext fun _ => String.toList_ofList
  rw [segments, Text.fields_eq_splitOnP, List.map_map, hid, List.map_id]
  rfl

/-- An input is the address made of its own segments. -/
theorem address_segments (input : String) : address (segments input) = input := by
  rw [← String.toList_inj, address, String.toList_intercalate, map_toList_segments]
  exact List.intercalate_splitOn '.'

/-- The segments of an address are the names it was made of, if none of them has a dot. -/
theorem segments_address {path : List String} (hpath : path ≠ []) (hdotless : Dotless path) :
    segments (address path) = path := by
  have hnames : ∀ name ∈ path.map String.toList, '.' ∉ name :=
    List.forall_mem_map.mpr hdotless
  have hparts : (segments (address path)).map String.toList = path.map String.toList := by
    rw [map_toList_segments, address, String.toList_intercalate]
    exact List.splitOn_intercalate '.' hnames (by simpa using hpath)
  exact (List.map_inj_right fun _ _ => String.toList_inj.mp).mp hparts

/-- No name in an address has a dot in it. -/
theorem dotless_segments (input : String) : Dotless (segments input) := by
  intro name hname hdot
  obtain ⟨field, hfield, rfl⟩ := List.mem_map.mp hname
  rw [String.toList_ofList] at hdot
  have := Text.separates_eq_false_of_mem_fields hfield hdot
  simp at this

/-- An input has the names of a path as its segments exactly if it is the address that they make
and none of them has a dot. -/
theorem segments_eq_iff {input : String} {path : List String} (hpath : path ≠ []) :
    segments input = path ↔ Dotless path ∧ input = address path := by
  constructor
  · rintro rfl
    exact ⟨dotless_segments input, (address_segments input).symm⟩
  · rintro ⟨hdotless, rfl⟩
    exact segments_address hpath hdotless

/-- Paths whose names have no dots have different addresses. -/
theorem eq_of_address_eq {path other : List String} (hpath : path ≠ []) (hother : other ≠ [])
    (hdotless : Dotless path) (hdotless' : Dotless other) (h : address path = address other) :
    path = other := by
  rw [← segments_address hpath hdotless, h, segments_address hother hdotless']

/-- The names of a path lead from a catalog to an entry, through the tables on the way. -/
inductive LeadsTo : Catalog → List String → Entry → Prop
  | here {catalog : Catalog} {name : String} {entry : Entry}
      (hentry : catalog.get? name = some entry) : LeadsTo catalog [name] entry
  | inside {catalog : Catalog} {name : String} {entries : List (String × Entry)}
      {path : List String} {entry : Entry} (htable : catalog.get? name = some (.table entries))
      (hpath : LeadsTo entries path entry) : LeadsTo catalog (name :: path) entry

namespace LeadsTo

variable {catalog : Catalog} {path : List String} {entry : Entry}

/-- No path without a name leads to an entry. -/
theorem ne_nil (h : catalog.LeadsTo path entry) : path ≠ [] := by
  cases h <;> simp

/-- A path leads to one entry only. -/
theorem unique {other : Entry} (h : catalog.LeadsTo path entry)
    (hother : catalog.LeadsTo path other) : entry = other := by
  induction h with
  | here hentry =>
    cases hother with
    | here hentry' => exact Option.some.inj (hentry.symm.trans hentry')
    | inside _ hpath => exact absurd rfl hpath.ne_nil
  | inside htable hpath ih =>
    cases hother with
    | here _ => exact absurd rfl hpath.ne_nil
    | inside htable' hpath' =>
      cases htable.symm.trans htable'
      exact ih hpath'

/-- A path that goes on after some names has a table there. -/
theorem exists_table_of_append {rest : List String} (h : catalog.LeadsTo (path ++ rest) entry)
    (hpath : path ≠ []) (hrest : rest ≠ []) :
    ∃ entries, catalog.LeadsTo path (.table entries) := by
  induction path generalizing catalog with
  | nil => exact absurd rfl hpath
  | cons name path ih =>
    rw [List.cons_append] at h
    generalize hlong : path ++ rest = long at h
    cases h with
    | here _ => exact absurd (List.append_eq_nil_iff.mp hlong).2 hrest
    | inside htable hinside =>
      by_cases hempty : path = []
      · subst hempty
        exact ⟨_, .here htable⟩
      · obtain ⟨entries, hentries⟩ := ih (hlong ▸ hinside) hempty
        exact ⟨entries, .inside htable hentries⟩

/-- A path does not go on after a stored notation. -/
theorem not_append {source : String} {rest : List String}
    (h : catalog.LeadsTo path (.roll source)) (hrest : rest ≠ []) :
    ¬catalog.LeadsTo (path ++ rest) entry := by
  intro hlong
  obtain ⟨entries, htable⟩ := hlong.exists_table_of_append h.ne_nil hrest
  cases h.unique htable

end LeadsTo

/-- Following a path finds the notation to which it leads. -/
theorem follow?_eq_some_iff {catalog : Catalog} {path : List String} {source : String} :
    catalog.follow? path = some source ↔ catalog.LeadsTo path (.roll source) := by
  induction path generalizing catalog with
  | nil =>
    constructor
    · intro h
      cases h
    · intro h
      exact absurd rfl h.ne_nil
  | cons name path ih =>
    rw [follow?]
    constructor
    · intro h
      split at h
      · cases h
      · next stored hentry =>
        split at h
        · next hpath =>
          cases h
          exact hpath ▸ .here hentry
        · cases h
      · next entries htable => exact .inside htable (ih.mp h)
    · intro h
      cases h with
      | here hentry => simp only [hentry, if_pos]
      | inside htable hpath =>
        simp only [htable]
        exact ih.mpr hpath

/-- Following a path finds nothing exactly if it leads to no stored notation. -/
theorem follow?_eq_none_iff {catalog : Catalog} {path : List String} :
    catalog.follow? path = none ↔ ∀ source, ¬catalog.LeadsTo path (.roll source) := by
  simp only [Option.eq_none_iff_forall_ne_some, ne_eq, follow?_eq_some_iff]

end Catalog

namespace Reference

open Catalog

/-- A stored notation comes first. Only an input that leads to none can stand for itself. -/
theorem sourceOf_eq_ok_iff {catalog : Catalog} {input source : String} :
    sourceOf catalog input = .ok source ↔
      catalog.LeadsTo (segments input) (.roll source) ∨
        (∀ stored, ¬catalog.LeadsTo (segments input) (.roll stored)) ∧
          isNotation input = true ∧ source = input := by
  rw [← follow?_eq_some_iff, ← follow?_eq_none_iff, sourceOf]
  split
  · next stored hstored => simp [hstored]
  · next hnone =>
    split
    · next hnotation => simp [hnone, hnotation, eq_comm]
    · next hnotation => simp [hnone, hnotation]

/-- An input is the notation at the end of a path exactly if its segments are the names on the way
there, whether or not the input can be read as a notation itself. A stored notation therefore has
an input exactly if no name on the way to it has a dot, and its address is the only one. No two of
these addresses are the same, and an input that ends at a table, or that goes on after a stored
notation, finds nothing in the catalog. -/
theorem stored_at_address (catalog : Catalog) :
    (∀ input source,
      catalog.follow? (segments input) = some source ↔
        catalog.LeadsTo (segments input) (.roll source)) ∧
    (∀ input source,
      sourceOf catalog input = .ok source ↔
        catalog.LeadsTo (segments input) (.roll source) ∨
          (∀ stored, ¬catalog.LeadsTo (segments input) (.roll stored)) ∧
            isNotation input = true ∧ source = input) ∧
    (∀ path source, catalog.LeadsTo path (.roll source) →
      ((∃ input, segments input = path ∧ sourceOf catalog input = .ok source) ↔ Dotless path) ∧
      ∀ input, segments input = path → input = address path) ∧
    (∀ path other source otherSource,
      catalog.LeadsTo path (.roll source) → catalog.LeadsTo other (.roll otherSource) →
      Dotless path → Dotless other → address path = address other →
      path = other ∧ source = otherSource) ∧
    (∀ input entries, catalog.LeadsTo (segments input) (.table entries) →
      catalog.follow? (segments input) = none) ∧
    (∀ input path rest source, catalog.LeadsTo path (.roll source) → rest ≠ [] →
      segments input = path ++ rest → catalog.follow? (segments input) = none) := by
  refine ⟨fun _ _ => follow?_eq_some_iff, fun _ _ => sourceOf_eq_ok_iff, ?_, ?_, ?_, ?_⟩
  · intro path source hstored
    refine ⟨⟨?_, fun hdotless => ?_⟩, fun input h => ?_⟩
    · rintro ⟨input, h, -⟩
      exact ((segments_eq_iff hstored.ne_nil).mp h).1
    · have h := segments_address hstored.ne_nil hdotless
      exact ⟨address path, h, sourceOf_eq_ok_iff.mpr (.inl (by rwa [h]))⟩
    · exact ((segments_eq_iff hstored.ne_nil).mp h).2
  · intro path other source otherSource hstored hother hdotless hdotless' h
    obtain rfl := eq_of_address_eq hstored.ne_nil hother.ne_nil hdotless hdotless' h
    cases hstored.unique hother
    exact ⟨rfl, rfl⟩
  · intro input entries htable
    refine follow?_eq_none_iff.mpr fun stored hstored => ?_
    cases hstored.unique htable
  · intro input path rest source hstored hrest hsegments
    rw [hsegments]
    exact follow?_eq_none_iff.mpr fun _ => hstored.not_append hrest

/-- The path through a table is found at its address, and a name that looks like it is not. -/
example :
    sourceOf [("a", .table [("b", .roll "1d6")]), ("a.b", .roll "1d8")] "a.b" = .ok "1d6" := by
  rfl

end Reference

end DiceNotation
