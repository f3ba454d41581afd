import DiceNotation.Proofs.Filling.Twice

/-!
# Filling all references at once

A notation falls into pieces in one way only: characters that stay, and references with the longest
name that stands behind the dollar sign. Filling puts the value of its variable in the place of each
reference and keeps all other characters, each piece for itself. It fails if a reference has no
value, with the first such reference, and looks at no other variables than those in the notation.
-/

namespace DiceNotation.Reference

open Text (isNameChar integerText)

/-- A piece of a notation. -/
inductive Piece where
  /-- A character that stays. -/
  | char (c : Char)
  /-- A reference to the variable with this name. -/
  | reference (name : List Char)
  deriving DecidableEq

namespace Piece

/-- The text of a piece. -/
def text : Piece → List Char
  | .char c => [c]
  | .reference name => '$' :: name

/-- What is put in the place of a piece. -/
def value (table : Variables) : Piece → Except Failure (List Char)
  | .char c => .ok [c]
  | .reference name =>
    match table.get? (String.ofList name) with
    | some value => .ok (integerText value.toInt)
    | none => .error (.undefinedVariable (String.ofList name))

/-- Whether a piece ends where the given rest of the text begins: no name follows a dollar sign
that stays, and the name of a reference does not go on. -/
def EndsBefore (rest : List Char) : Piece → Prop
  | .char c => c = '$' → rest.takeWhile isNameChar = []
  | .reference name =>
    (name ≠ [] ∧ ∀ c ∈ name, isNameChar c = true) ∧ rest.takeWhile isNameChar = []

end Piece

/-- Pieces into which a text may be cut. -/
structure IsCut (text : List Char) (pieces : List Piece) : Prop where
  text_eq : pieces.flatMap Piece.text = text
  ends : ∀ before piece after, pieces = before ++ piece :: after →
    piece.EndsBefore (after.flatMap Piece.text)

/-- The pieces of a text. -/
def piecesOf : List Char → List Piece
  | [] => []
  | c :: rest =>
    if c = '$' ∧ rest.takeWhile isNameChar ≠ [] then
      .reference (rest.takeWhile isNameChar) :: piecesOf (rest.dropWhile isNameChar)
    else .char c :: piecesOf rest
termination_by text => text.length
decreasing_by
  · exact Nat.lt_succ_of_le (List.dropWhile_sublist _).length_le
  · exact Nat.lt_succ_self _

/-- The empty text is cut into no pieces. -/
theorem isCut_nil : IsCut [] [] :=
  ⟨rfl, fun before piece after h => by cases before <;> cases h⟩

/-- The first piece of a cut ends where it must, and the others are a cut of the rest. -/
theorem isCut_cons {text : List Char} {piece : Piece} {pieces : List Piece} :
    IsCut text (piece :: pieces) ↔
      ∃ rest, text = piece.text ++ rest ∧ piece.EndsBefore rest ∧ IsCut rest pieces := by
  constructor
  · rintro ⟨rfl, hends⟩
    refine ⟨pieces.flatMap Piece.text, rfl, hends [] piece pieces rfl, rfl, ?_⟩
    intro before other after h
    exact hends (piece :: before) other after (by rw [h, List.cons_append])
  · rintro ⟨rest, rfl, hpiece, rfl, hends⟩
    refine ⟨rfl, fun before other after h => ?_⟩
    cases before with
    | nil =>
      obtain ⟨rfl, rfl⟩ := List.cons.inj h
      exact hpiece
    | cons first before => exact hends before other after (List.cons.inj h).2

private theorem takeWhile_dropWhile_eq_nil (p : Char → Bool) (text : List Char) :
    (text.dropWhile p).takeWhile p = [] := by
  cases h : text.dropWhile p with
  | nil => rfl
  | cons c rest =>
    have hc : ¬p c = true := by
      have hhead := List.head?_dropWhile_not p text
      simpa [h] using hhead
    exact List.takeWhile_cons_of_neg hc

/-- The pieces of a text are a cut of it. -/
theorem isCut_piecesOf (text : List Char) : IsCut text (piecesOf text) := by
  fun_induction piecesOf text with
  | case1 => exact isCut_nil
  | case2 c rest h ih =>
    obtain ⟨rfl, hname⟩ := h
    have htext : '$' :: rest =
        '$' :: rest.takeWhile isNameChar ++ rest.dropWhile isNameChar := by
      rw [List.cons_append, List.takeWhile_append_dropWhile]
    refine isCut_cons.mpr ⟨_, htext, ⟨⟨hname, ?_⟩, takeWhile_dropWhile_eq_nil _ _⟩, ih⟩
    exact List.all_eq_true.mp List.all_takeWhile
  | case3 c rest h ih =>
    refine isCut_cons.mpr ⟨rest, rfl, fun hc => ?_, ih⟩
    exact Decidable.byContradiction fun hname => h ⟨hc, hname⟩

/-- There is no other way to cut a text. -/
theorem isCut_iff {text : List Char} {pieces : List Piece} :
    IsCut text pieces ↔ pieces = piecesOf text := by
  constructor
  · intro h
    induction pieces generalizing text with
    | nil =>
      obtain rfl : [] = text := h.text_eq
      rw [piecesOf]
    | cons piece pieces ih =>
      obtain ⟨rest, rfl, hends, hrest⟩ := isCut_cons.mp h
      rw [ih hrest]
      cases piece with
      | char c =>
        have hc : ¬(c = '$' ∧ rest.takeWhile isNameChar ≠ []) := fun hc => hc.2 (hends hc.1)
        rw [Piece.text, List.singleton_append, piecesOf, if_neg hc]
      | reference name =>
        obtain ⟨⟨hname, hchars⟩, hstop⟩ := hends
        have htake : (name ++ rest).takeWhile isNameChar = name := by
          rw [List.takeWhile_append_of_pos hchars, hstop, List.append_nil]
        have hrest : rest.dropWhile isNameChar = rest := by
          have happend := List.takeWhile_append_dropWhile (p := isNameChar) (l := rest)
          rwa [hstop, List.nil_append] at happend
        have hdrop : (name ++ rest).dropWhile isNameChar = rest := by
          rw [List.dropWhile_append_of_pos hchars, hrest]
        rw [Piece.text, List.cons_append, piecesOf, htake, hdrop, if_pos ⟨rfl, hname⟩]
  · rintro rfl
    exact isCut_piecesOf text

/-- Filling goes through the pieces from left to right and stops at the first one without a
value. -/
theorem fillChars_eq_mapM (table : Variables) (text : List Char) :
    fillChars table text = List.flatten <$> (piecesOf text).mapM (Piece.value table) := by
  fun_induction piecesOf text with
  | case1 => rw [fillChars]; rfl
  | case2 c rest h ih =>
    obtain ⟨rfl, hname⟩ := h
    rw [fillChars, if_pos rfl, if_neg hname, ih, List.mapM_cons, Piece.value]
    cases table.get? (String.ofList (rest.takeWhile isNameChar)) with
    | none => rfl
    | some value => cases (piecesOf (rest.dropWhile isNameChar)).mapM (Piece.value table) <;> rfl
  | case3 c rest h ih =>
    have hstays : fillChars table (c :: rest) = (c :: ·) <$> fillChars table rest := by
      rw [fillChars]
      split
      · next hc => exact if_pos (Decidable.byContradiction fun hname => h ⟨hc, hname⟩)
      · rfl
    rw [hstays, ih, List.mapM_cons, Piece.value]
    cases (piecesOf rest).mapM (Piece.value table) <;> rfl

section MapM

variable {ε α β : Type} {f g : α → Except ε β} {items : List α}

private theorem map_eq_error_iff {γ : Type} {h : β → γ} {x : Except ε β} {e : ε} :
    h <$> x = .error e ↔ x = .error e := by
  cases x <;> simp [Functor.map, Except.map]

private theorem mapM_congr (h : ∀ item ∈ items, f item = g item) : items.mapM f = items.mapM g := by
  induction items with
  | nil => rfl
  | cons item items ih =>
    obtain ⟨hitem, hitems⟩ := List.forall_mem_cons.mp h
    rw [List.mapM_cons, List.mapM_cons, hitem, ih hitems]

/-- A list is mapped with success exactly if each of its items is. -/
theorem exists_mapM_eq_ok_iff :
    (∃ results, items.mapM f = .ok results) ↔ ∀ item ∈ items, ∃ result, f item = .ok result := by
  induction items with
  | nil => simp [pure, Except.pure]
  | cons item items ih =>
    rw [List.forall_mem_cons, ← ih, List.mapM_cons]
    cases f item with
    | error e => simp [bind, Except.bind]
    | ok result => cases items.mapM f <;> simp [bind, Except.bind, pure, Except.pure]

/-- An error is the one of the first item that has one. -/
theorem mapM_eq_error_iff {e : ε} :
    items.mapM f = .error e ↔ ∃ before item after, items = before ++ item :: after ∧
      (∀ earlier ∈ before, ∃ result, f earlier = .ok result) ∧ f item = .error e := by
  induction items with
  | nil => simp [pure, Except.pure]
  | cons item items ih =>
    rw [List.mapM_cons]
    constructor
    · intro h
      cases hitem : f item with
      | error e' =>
        rw [hitem] at h
        obtain rfl : e' = e := Except.error.inj h
        exact ⟨[], item, items, rfl, by simp, hitem⟩
      | ok result =>
        have hrest : items.mapM f = .error e := by
          rw [hitem] at h
          cases hrest : items.mapM f with
          | error e' => rw [hrest] at h; exact h
          | ok results => rw [hrest] at h; cases h
        obtain ⟨before, other, after, hitems, hbefore, hother⟩ := ih.mp hrest
        refine ⟨item :: before, other, after, by rw [hitems, List.cons_append], ?_, hother⟩
        exact List.forall_mem_cons.mpr ⟨⟨result, hitem⟩, hbefore⟩
    · rintro ⟨before, other, after, hitems, hbefore, hother⟩
      cases before with
      | nil =>
        obtain ⟨rfl, rfl⟩ := List.cons.inj hitems
        rw [hother]
        rfl
      | cons first before =>
        obtain ⟨rfl, hrest⟩ := List.cons.inj hitems
        obtain ⟨⟨result, hfirst⟩, hbefore⟩ := List.forall_mem_cons.mp hbefore
        rw [hfirst, ih.mpr ⟨before, other, after, hrest, hbefore, hother⟩]
        rfl

end MapM

variable {table : Variables} {piece : Piece} {pieces : List Piece}

/-- A piece has a value unless it is a reference without one. -/
theorem Piece.exists_value_eq_ok_iff :
    (∃ text, piece.value table = .ok text) ↔
      ∀ name, piece = .reference name → (table.get? (String.ofList name)).isSome = true := by
  cases piece with
  | char c => simp [Piece.value]
  | reference name => cases h : table.get? (String.ofList name) <;> simp [Piece.value, h]

/-- The error about a piece names its reference. -/
theorem Piece.value_eq_error_iff {error : Failure} :
    piece.value table = .error error ↔ ∃ name, piece = .reference name ∧
      table.get? (String.ofList name) = none ∧ error = .undefinedVariable (String.ofList name) := by
  cases piece with
  | char c => simp [Piece.value]
  | reference name =>
    cases h : table.get? (String.ofList name) <;> simp [Piece.value, h, eq_comm]

/-- The names of all references in some pieces have values. -/
def HaveValues (table : Variables) (pieces : List Piece) : Prop :=
  ∀ name, .reference name ∈ pieces → (table.get? (String.ofList name)).isSome = true

private theorem forall_exists_value_eq_ok_iff :
    (∀ piece ∈ pieces, ∃ text, piece.value table = .ok text) ↔ HaveValues table pieces := by
  simp only [Piece.exists_value_eq_ok_iff]
  exact ⟨fun h name hname => h _ hname name rfl, fun h piece hpiece name hname =>
    h name (hname ▸ hpiece)⟩

/-- All pieces are filled exactly if all references have values. -/
theorem exists_mapM_value_iff :
    (∃ values, pieces.mapM (Piece.value table) = .ok values) ↔ HaveValues table pieces :=
  exists_mapM_eq_ok_iff.trans forall_exists_value_eq_ok_iff

/-- Filling pieces fails at the first reference without a value, which the error names. -/
theorem mapM_value_eq_error_iff {error : Failure} :
    pieces.mapM (Piece.value table) = .error error ↔
      ∃ before name after, pieces = before ++ .reference name :: after ∧
        HaveValues table before ∧ table.get? (String.ofList name) = none ∧
        error = .undefinedVariable (String.ofList name) := by
  rw [mapM_eq_error_iff]
  constructor
  · rintro ⟨before, piece, after, hpieces, hbefore, hpiece⟩
    obtain ⟨name, rfl, hname, herror⟩ := Piece.value_eq_error_iff.mp hpiece
    exact ⟨before, name, after, hpieces, forall_exists_value_eq_ok_iff.mp hbefore, hname, herror⟩
  · rintro ⟨before, name, after, hpieces, hbefore, hname, herror⟩
    exact ⟨before, .reference name, after, hpieces, forall_exists_value_eq_ok_iff.mpr hbefore,
      Piece.value_eq_error_iff.mpr ⟨name, rfl, hname, herror⟩⟩

/-- Two tables with equal values for the names in a piece give it the same text. -/
theorem Piece.value_congr {other : Variables} (h : ∀ name, piece = .reference name →
    other.get? (String.ofList name) = table.get? (String.ofList name)) :
    piece.value other = piece.value table := by
  cases piece with
  | char c => rfl
  | reference name => rw [Piece.value, Piece.value, h name rfl]

/-- Filling a notation is filling each of its pieces. -/
theorem fill_eq_mapM (table : Variables) (source : String) :
    fill table source = (fun values => String.ofList values.flatten) <$>
      (piecesOf source.toList).mapM (Piece.value table) := by
  rw [fill, fillChars_eq_mapM, ← comp_map]
  rfl

/-- A notation is cut into characters and references in one way only, and filling it puts the
value of its variable in the place of each reference, all at once. It succeeds if all names in
references have values, and else fails with the first one that has none. Variables that do not
occur in the notation do not matter. -/
theorem fill_simultaneous (table : Variables) (source : String) :
    ∃ pieces, (∀ others, IsCut source.toList others ↔ others = pieces) ∧
      fill table source = (fun values => String.ofList values.flatten) <$>
        pieces.mapM (Piece.value table) ∧
      ((∃ filled, fill table source = .ok filled) ↔ HaveValues table pieces) ∧
      (∀ error, fill table source = .error error ↔
        ∃ before name after, pieces = before ++ .reference name :: after ∧
          HaveValues table before ∧ table.get? (String.ofList name) = none ∧
          error = .undefinedVariable (String.ofList name)) ∧
      ∀ other : Variables, (∀ name, .reference name ∈ pieces →
          other.get? (String.ofList name) = table.get? (String.ofList name)) →
        fill other source = fill table source := by
  refine ⟨piecesOf source.toList, fun _ => isCut_iff, fill_eq_mapM table source, ?_, ?_, ?_⟩
  · rw [← exists_mapM_value_iff, fill_eq_mapM]
    constructor
    · rintro ⟨filled, h⟩
      obtain ⟨values, hvalues, -⟩ := exists_of_map_eq_ok h
      exact ⟨values, hvalues⟩
    · rintro ⟨values, hvalues⟩
      rw [hvalues]
      exact ⟨_, rfl⟩
  · intro error
    rw [← mapM_value_eq_error_iff, fill_eq_mapM, map_eq_error_iff]
  · intro other hother
    have hvalues : (piecesOf source.toList).mapM (Piece.value other) =
        (piecesOf source.toList).mapM (Piece.value table) :=
      mapM_congr fun piece hpiece =>
        Piece.value_congr fun name hname => hother name (hname ▸ hpiece)
    rw [fill_eq_mapM, fill_eq_mapM, hvalues]

end DiceNotation.Reference
