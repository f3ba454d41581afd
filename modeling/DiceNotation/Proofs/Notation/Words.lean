import DiceNotation.Notation.Lifting

/-!
# Words around a blank

A blank parts the words before it from the words after it, so that a text that is set between
blanks adds its own words and changes no others. A placeholder is one such word, and the place
that it names can be read off it.
-/

namespace DiceNotation

namespace Text

/-- A separator parts the fields before it from those after it. -/
theorem fields_append {separates : Char → Bool} {c : Char} (hc : separates c = true)
    (before after : List Char) :
    fields separates (before ++ c :: after) =
      fields separates before ++ fields separates after := by
  simp only [fields_eq_splitOnP]
  exact List.splitOnP_append_cons before after hc

/-- A text without separators is one field. -/
theorem fields_of_forall {separates : Char → Bool} {text : List Char}
    (h : ∀ c ∈ text, separates c = false) : fields separates text = [text] := by
  rw [fields_eq_splitOnP]
  exact List.splitOnP_eq_singleton h

/-- No field has a separator in it. -/
theorem separates_eq_false_of_mem_fields {separates : Char → Bool} {text field : List Char}
    (hfield : field ∈ fields separates text) {c : Char} (hc : c ∈ field) :
    separates c = false := by
  induction text generalizing field with
  | nil =>
    rw [List.mem_singleton.mp hfield] at hc
    exact absurd hc List.not_mem_nil
  | cons d rest ih =>
    rw [fields] at hfield
    split at hfield
    · rcases List.mem_cons.mp hfield with rfl | hfield
      · exact absurd hc List.not_mem_nil
      · exact ih hfield hc
    · next hd =>
      -- Only the first field of the rest gets a character more, and that is no separator.
      have hd : separates d = false := Bool.eq_false_iff.mpr hd
      have hne : fields separates rest ≠ [] :=
        fields_eq_splitOnP separates rest ▸ List.splitOnP_ne_nil separates rest
      obtain ⟨first, others, hrest⟩ := List.exists_cons_of_ne_nil hne
      rw [hrest, extendFirst] at hfield
      rcases List.mem_cons.mp hfield with rfl | hother
      · rcases List.mem_cons.mp hc with rfl | hc
        · exact hd
        · exact ih (hrest ▸ List.mem_cons_self) hc
      · exact ih (hrest ▸ List.mem_cons_of_mem _ hother) hc

/-- The digits of a number are digits. -/
theorem isDigit_of_mem_digits {n : Nat} {c : Char} (h : c ∈ digits n) : isDigit c = true := by
  have hdigit : c.isDigit = true := Nat.isDigit_of_mem_toDigits (by decide) (by decide) h
  simp only [Char.isDigit, Bool.and_eq_true, decide_eq_true_eq] at hdigit
  simp only [isDigit, Bool.and_eq_true, decide_eq_true_eq, Char.le_def]
  exact hdigit

/-- Every number has a digit. -/
theorem digits_ne_nil (n : Nat) : digits n ≠ [] :=
  Nat.toDigits_ne_nil

/-- The digits of a number are a numeral. -/
theorem isNumeral_digits (n : Nat) : isNumeral (digits n) = true := by
  simp only [isNumeral, Bool.and_eq_true, decide_eq_true_eq, List.all_eq_true]
  exact ⟨digits_ne_nil n, fun c => isDigit_of_mem_digits⟩

/-- The codes of digits are those from 48 to 57. -/
theorem toNat_of_isDigit {c : Char} (h : isDigit c = true) : 48 ≤ c.toNat ∧ c.toNat ≤ 57 := by
  simpa [isDigit, Char.le_def, UInt32.le_iff_toNat_le] using h

/-- The characters from the exclamation mark to the tilde are no blanks. -/
theorem isBlank_eq_false {c : Char} (h : 33 ≤ c.toNat ∧ c.toNat ≤ 126) : isBlank c = false := by
  simp only [isBlank, CodePoints.has, blanks, List.any_cons, List.any_nil, Bool.or_eq_false_iff,
    Bool.and_eq_false_iff, decide_eq_false_iff_not, and_true]
  omega

end Text

namespace Notation

/-- A space is blank. -/
theorem isBlank_space : Text.isBlank ' ' = true := by
  decide

/-- The words of a text with a blank in it are those before the blank and those after it. -/
theorem wordsOf_append {c : Char} (hc : Text.isBlank c = true) (before after : List Char) :
    wordsOf (before ++ c :: after) = wordsOf before ++ wordsOf after := by
  simp only [wordsOf, Text.words, Text.fields_append hc, List.filter_append, List.map_append]

/-- A text is one word if it has no blanks and no comma at its end. -/
theorem wordsOf_word {word : List Char} (hne : word ≠ []) (hcomma : word.getLast? ≠ some ',')
    (hblank : ∀ c ∈ word, Text.isBlank c = false) : wordsOf word = [word] := by
  simp [wordsOf, Text.words, Text.fields_of_forall hblank, dropComma, hne, hcomma]

private theorem getLast?_placeholder (place : Nat) :
    (placeholder place).getLast? = (Text.digits place).getLast? := by
  unfold placeholder
  cases h : Text.digits place with
  | nil => exact absurd h (Text.digits_ne_nil place)
  | cons c rest => simp [List.getLast?_cons_cons]

private theorem mem_placeholder {place : Nat} {c : Char} (h : c ∈ placeholder place) :
    c ∈ ['f', 'n', '#'] ∨ Text.isDigit c = true := by
  simp only [placeholder, List.mem_cons] at h ⊢
  rcases h with h | h | h | h
  · exact .inl (.inl h)
  · exact .inl (.inr (.inl h))
  · exact .inl (.inr (.inr (.inl h)))
  · exact .inr (Text.isDigit_of_mem_digits h)

/-- The characters of a placeholder are printable ASCII characters, and no dollar signs. -/
theorem toNat_of_mem_placeholder {place : Nat} {c : Char} (h : c ∈ placeholder place) :
    35 ≤ c.toNat ∧ c.toNat ≤ 110 ∧ c ≠ '$' := by
  rcases mem_placeholder h with hsign | hdigit
  · simp only [List.mem_cons, List.not_mem_nil, or_false] at hsign
    rcases hsign with rfl | rfl | rfl <;> decide
  · have hrange := Text.toNat_of_isDigit hdigit
    refine ⟨by omega, by omega, ?_⟩
    rintro rfl
    exact absurd hdigit (by decide)

/-- A placeholder is a single word. -/
theorem wordsOf_placeholder (place : Nat) : wordsOf (placeholder place) = [placeholder place] := by
  apply wordsOf_word
  · simp [placeholder]
  · rw [getLast?_placeholder]
    intro hcomma
    have hdigit := Text.isDigit_of_mem_digits (List.mem_of_getLast? hcomma)
    exact absurd hdigit (by decide)
  · intro c hc
    obtain ⟨hfrom, hto, -⟩ := toNat_of_mem_placeholder hc
    exact Text.isBlank_eq_false ⟨by omega, by omega⟩

/-- The form of a placeholder gives its place away. -/
theorem ofChars_placeholder (place : Nat) :
    Word.ofChars (placeholder place) = .placeholder (Text.digits place) := by
  simp [Word.ofChars, placeholder, Text.isNumeral_digits]

end Notation

end DiceNotation
