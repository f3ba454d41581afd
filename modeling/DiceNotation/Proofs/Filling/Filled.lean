import DiceNotation.Reference
import DiceNotation.Proofs.Notation.Words

/-!
# References that stand alone

A reference that stands alone has nothing beside it that could be taken for a part of the same
word, apart from commas and parentheses. When values are put in the place of such references,
the texts before and after are the same character by character, except that each name has
become a number. This relation is what all later comparisons are about.
-/

namespace DiceNotation.Reference

open Text (isBlank isDigit isNameChar integerText)

/-- The characters after which a reference may stand. -/
def opens (c : Char) : Bool :=
  isBlank c || c == ',' || c == '('

/-- The characters that may follow a reference. -/
def closes (c : Char) : Bool :=
  isBlank c || c == ',' || c == ')'

/-- A dollar sign between two texts starts a reference that stands alone. -/
structure StandsAlone (before after : List Char) : Prop where
  start : before.getLast?.all opens = true
  name : after.takeWhile isNameChar ≠ []
  stop : (after.dropWhile isNameChar).head?.all closes = true

/-- In a text that stands after another one, every dollar sign starts a reference that stands
alone. -/
def AloneAfter (earlier text : List Char) : Prop :=
  ∀ before after, text = before ++ '$' :: after → StandsAlone (earlier ++ before) after

/-- Every dollar sign in a text starts a reference that stands alone. -/
def AllAlone (text : List Char) : Prop :=
  AloneAfter [] text

/-- All references in a text are to variables that have a value. -/
def AllDefined (table : Variables) (text : List Char) : Prop :=
  ∀ before after, text = before ++ '$' :: after →
    (table.get? (String.ofList (after.takeWhile isNameChar))).isSome = true

/-- That a reference stands alone can be seen from the characters beside it. -/
theorem standsAlone_iff {before after : List Char} :
    StandsAlone before after ↔ before.getLast?.all opens = true ∧
      after.takeWhile isNameChar ≠ [] ∧
      (after.dropWhile isNameChar).head?.all closes = true :=
  ⟨fun h => ⟨h.start, h.name, h.stop⟩, fun h => ⟨h.1, h.2.1, h.2.2⟩⟩

instance {before after : List Char} : Decidable (StandsAlone before after) :=
  decidable_of_iff _ standsAlone_iff.symm

/-- What holds around each dollar sign of a text can be seen from the places in the text. -/
theorem forall_dollar_iff {text : List Char} {holds : List Char → List Char → Prop} :
    (∀ before after, text = before ++ '$' :: after → holds before after) ↔
      ∀ place < text.length, text[place]? = some '$' →
        holds (text.take place) (text.drop (place + 1)) := by
  constructor
  · intro h place hplace hdollar
    have hrest : text.drop place = '$' :: text.drop (place + 1) := by
      rw [List.drop_eq_getElem_cons hplace, (List.getElem?_eq_some_iff.mp hdollar).2]
    exact h _ _ (by rw [← hrest, List.take_append_drop])
  · rintro h before after rfl
    simpa using h before.length (by simp) (by simp)

instance {text : List Char} : Decidable (AllAlone text) :=
  decidable_of_iff _ forall_dollar_iff.symm

instance {table : Variables} {text : List Char} : Decidable (AllDefined table text) :=
  decidable_of_iff _ forall_dollar_iff.symm

/-- A text with references, and the same text with values instead. The flag says whether the
text may start with a reference. -/
inductive Filled (table : Variables) : Bool → List Char → List Char → Prop
  | nil {mayRefer : Bool} : Filled table mayRefer [] []
  | char {mayRefer : Bool} {c : Char} {source filled : List Char} (hc : c ≠ '$')
      (hrest : Filled table (opens c) source filled) :
      Filled table mayRefer (c :: source) (c :: filled)
  | reference {name source filled : List Char} {value : Int64} (hname : name ≠ [])
      (hchars : ∀ c ∈ name, isNameChar c = true)
      (hvalue : table.get? (String.ofList name) = some value)
      (hstop : source.head?.all closes = true)
      (hrest : Filled table false source filled) :
      Filled table true ('$' :: (name ++ source)) (integerText value.toInt ++ filled)

/-- A character that separates nothing. -/
def isInert (c : Char) : Bool :=
  !isBlank c && c != ',' && c != '(' && c != ')'

/-- The characters of names are ASCII characters. -/
theorem toNat_of_isNameChar {c : Char} (h : isNameChar c = true) :
    48 ≤ c.toNat ∧ c.toNat ≤ 122 := by
  simp only [isNameChar, Text.isAlphanumeric, isDigit, Bool.or_eq_true, Bool.and_eq_true,
    decide_eq_true_eq, beq_iff_eq, Char.le_def, UInt32.le_iff_toNat_le] at h
  rcases h with ((h | h) | h) | rfl
  · exact ⟨h.1, Nat.le_trans h.2 (by decide)⟩
  · exact ⟨Nat.le_trans (by decide) h.1, h.2⟩
  · exact ⟨Nat.le_trans (by decide) h.1, Nat.le_trans h.2 (by decide)⟩
  · decide

/-- The characters of names are inert. -/
theorem isInert_of_isNameChar {c : Char} (h : isNameChar c = true) : isInert c = true := by
  have hrange := toNat_of_isNameChar h
  have hblank : isBlank c = false := Text.isBlank_eq_false ⟨by omega, by omega⟩
  have hne (d : Char) (hd : d.toNat < 48) : c ≠ d := by
    rintro rfl
    omega
  simp [isInert, hblank, hne ',' (by decide), hne '(' (by decide), hne ')' (by decide)]

/-- A digit may stand in a name. -/
theorem isNameChar_of_isDigit {c : Char} (h : isDigit c = true) : isNameChar c = true := by
  simp [isNameChar, Text.isAlphanumeric, h]

/-- The text of an integer has digits and a minus sign only. -/
theorem mem_integerText {n : Int} {c : Char} (h : c ∈ integerText n) :
    isDigit c = true ∨ c = '-' := by
  cases n with
  | ofNat n => exact .inl (Text.isDigit_of_mem_digits h)
  | negSucc n =>
    rcases List.mem_cons.mp h with rfl | h
    · exact .inr rfl
    · exact .inl (Text.isDigit_of_mem_digits h)

/-- The text of an integer is not empty. -/
theorem integerText_ne_nil (n : Int) : integerText n ≠ [] := by
  cases n with
  | ofNat n => exact Text.digits_ne_nil n
  | negSucc n => simp [integerText]

/-- The characters of an integer are inert. -/
theorem isInert_of_mem_integerText {n : Int} {c : Char} (h : c ∈ integerText n) :
    isInert c = true := by
  rcases mem_integerText h with hdigit | rfl
  · exact isInert_of_isNameChar (isNameChar_of_isDigit hdigit)
  · decide

/-- The characters of a reference are inert. -/
theorem isInert_of_mem_reference {name : List Char} (h : ∀ c ∈ name, isNameChar c = true) :
    ∀ c ∈ '$' :: name, isInert c = true := by
  intro c hc
  rcases List.mem_cons.mp hc with rfl | hc
  · decide
  · exact isInert_of_isNameChar (h c hc)

/-- No reference may stand after an inert character. -/
theorem opens_eq_false_of_isInert {c : Char} (h : isInert c = true) : opens c = false := by
  simp_all [isInert, opens]

/-- A dollar sign may not follow a reference. -/
theorem closes_dollar : closes '$' = false := by
  decide

/-- What may follow a reference may also be followed by anything at its end. -/
theorem all_head?_of_isPrefix {p : Char → Bool} {first text : List Char} (h : first <+: text)
    (htext : text.head?.all p = true) : first.head?.all p = true := by
  cases first with
  | nil => rfl
  | cons c first =>
    obtain ⟨rest, rfl⟩ := h
    exact htext

namespace Filled

variable {table : Variables} {mayRefer : Bool} {source filled : List Char}

/-- A text that may not start with a reference is one that may. -/
theorem mono (h : Filled table false source filled) : Filled table mayRefer source filled := by
  cases h with
  | nil => exact .nil
  | char hc hrest => exact .char hc hrest

/-- A text that can follow a reference does not start with one. -/
theorem of_stop {other : Bool} (h : Filled table mayRefer source filled)
    (hstop : source.head?.all closes = true) : Filled table other source filled := by
  cases h with
  | nil => exact .nil
  | char hc hrest => exact .char hc hrest
  | reference => simp [closes_dollar] at hstop

/-- Only the empty text is filled with nothing. -/
theorem eq_nil_iff (h : Filled table mayRefer source filled) : source = [] ↔ filled = [] := by
  cases h with
  | nil => exact Iff.rfl
  | char => simp
  | reference => simp [integerText_ne_nil]

/-- Texts can be joined where the second one can follow a reference. -/
theorem append {second secondFilled : List Char} (h : Filled table mayRefer source filled)
    (hstop : second.head?.all closes = true) (hsecond : Filled table false second secondFilled) :
    Filled table mayRefer (source ++ second) (filled ++ secondFilled) := by
  induction h with
  | nil => exact hsecond.mono
  | char hc _ ih => exact .char hc ih
  | @reference name source filled value hname hchars hvalue hrest _ ih =>
    rw [List.cons_append, List.append_assoc, List.append_assoc]
    refine .reference hname hchars hvalue ?_ ih
    cases source with
    | nil => exact hstop
    | cons c source => exact hrest

/-- Characters that are no dollar signs can be put in front. -/
theorem plain_append {first : List Char} (hfirst : ∀ c ∈ first, c ≠ '$')
    (h : ∀ mayRefer, Filled table mayRefer source filled) :
    Filled table mayRefer (first ++ source) (first ++ filled) := by
  induction first generalizing mayRefer with
  | nil => exact h mayRefer
  | cons c first ih =>
    exact .char (hfirst c List.mem_cons_self) (ih fun d hd => hfirst d (List.mem_cons_of_mem c hd))

end Filled

/-- References that stand alone in a text stand alone in its rest. -/
theorem AloneAfter.rest {earlier first text : List Char} (h : AloneAfter earlier (first ++ text)) :
    AloneAfter (earlier ++ first) text := by
  intro before after htext
  rw [List.append_assoc]
  exact h (first ++ before) after (by rw [htext, List.append_assoc])

/-- References that are defined in a text are defined in its rest. -/
theorem AllDefined.rest {table : Variables} {first text : List Char}
    (h : AllDefined table (first ++ text)) : AllDefined table text := by
  intro before after htext
  exact h (first ++ before) after (by rw [htext, List.append_assoc])

/-- If all references in a text stand alone and have values, then the values can be put in their
places, and the result is related to the text. -/
theorem exists_filled {table : Variables} {earlier text : List Char}
    (halone : AloneAfter earlier text) (hdefined : AllDefined table text) :
    ∃ filled, fillChars table text = .ok filled ∧
      Filled table (earlier.getLast?.all opens) text filled := by
  fun_induction fillChars table text generalizing earlier with
  | case1 => exact ⟨[], rfl, .nil⟩
  | case2 rest name hname =>
    exact absurd hname (halone [] rest rfl).name
  | case3 rest name hname =>
    rename_i hundefined
    have hvalue := hdefined [] rest rfl
    rw [hundefined] at hvalue
    cases hvalue
  | case4 rest name hname value hvalue =>
    rename_i ih
    have hparts : '$' :: rest =
        '$' :: rest.takeWhile isNameChar ++ rest.dropWhile isNameChar := by
      rw [List.cons_append, List.takeWhile_append_dropWhile]
    have hstands : StandsAlone (earlier ++ []) rest := halone [] rest rfl
    rw [List.append_nil] at hstands
    rw [hparts] at halone hdefined
    obtain ⟨filled, hfilled, hrest⟩ := ih halone.rest hdefined.rest
    refine ⟨integerText value.toInt ++ filled, by rw [hfilled]; rfl, ?_⟩
    rw [hparts, hstands.start]
    exact .reference hname (List.all_eq_true.mp List.all_takeWhile) hvalue hstands.stop
      (hrest.of_stop hstands.stop)
  | case5 c rest hc ih =>
    have halone' : AloneAfter earlier ([c] ++ rest) := halone
    have hdefined' : AllDefined table ([c] ++ rest) := hdefined
    obtain ⟨filled, hfilled, hrest⟩ := ih halone'.rest hdefined'.rest
    refine ⟨c :: filled, by rw [hfilled]; rfl, .char hc ?_⟩
    simpa using hrest

end DiceNotation.Reference
