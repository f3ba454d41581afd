import DiceNotation.Proofs.Notation.Operands
import Mathlib.Computability.RegularExpressions

/-!
# Forms of words

A word has one of a few forms, each given by a regular expression, or it has none. The forms
exclude each other. What a word is taken for goes by its first characters and by the digits that it
starts with, but it comes to the same: a word is taken for what has its form.
-/

namespace DiceNotation.Notation

open RegularExpression (char star)
open Text (isDigit isAlphanumeric isNameChar isNumeral)

/-- A form that a word can have. -/
inductive Form where
  | placeholder
  | integer
  | dice
  | operator (operator : Operator)
  | «variable»
  deriving DecidableEq

/-- One of some characters. -/
def oneOf (chars : List Char) : RegularExpression Char :=
  (chars.map char).sum

/-- What matches a pattern, once or several times. -/
def oneOrMore (pattern : RegularExpression Char) : RegularExpression Char :=
  pattern * star pattern

/-- The decimal digits. -/
def digitChars : List Char :=
  "0123456789".toList

/-- The letters and the decimal digits. -/
def alphanumericChars : List Char :=
  "ABCDEFGHIJKLMNOPQRSTUVWXYZabcdefghijklmnopqrstuvwxyz".toList ++ digitChars

/-- The characters of names. -/
def nameChars : List Char :=
  '_' :: alphanumericChars

namespace Form

/-- The pattern of a form. -/
def pattern : Form → RegularExpression Char
  | .placeholder => char 'f' * (char 'n' * (char '#' * oneOrMore (oneOf digitChars)))
  | .integer => (1 + (char '+' + char '-')) * oneOrMore (oneOf digitChars)
  | .dice => oneOrMore (oneOf digitChars) * (char 'd' * oneOrMore (oneOf alphanumericChars))
  | .operator op => char op.symbol
  | .variable => char '$' * oneOrMore (oneOf nameChars)

/-- The words of a form. -/
def language (form : Form) : Language Char :=
  form.pattern.matches'

instance (form : Form) (word : List Char) : Decidable (word ∈ form.language) :=
  inferInstanceAs (Decidable (word ∈ form.pattern.matches'))

end Form

/-- A character matches itself. -/
theorem mem_matches_char {c : Char} {text : List Char} : text ∈ (char c).matches' ↔ text = [c] :=
  Iff.rfl

/-- Two patterns one after the other match a text that falls into two parts. -/
theorem mem_matches_mul {first second : RegularExpression Char} {text : List Char} :
    text ∈ (first * second).matches' ↔
      ∃ start ∈ first.matches', ∃ rest ∈ second.matches', start ++ rest = text :=
  Language.mem_mul

/-- A character before a pattern matches a text that starts with it. -/
theorem mem_matches_char_mul {c : Char} {pattern : RegularExpression Char} {text : List Char} :
    text ∈ (char c * pattern).matches' ↔ ∃ rest ∈ pattern.matches', text = c :: rest := by
  rw [mem_matches_mul]
  constructor
  · rintro ⟨start, hstart, rest, hrest, rfl⟩
    rw [mem_matches_char.mp hstart]
    exact ⟨rest, hrest, rfl⟩
  · rintro ⟨rest, hrest, rfl⟩
    exact ⟨[c], rfl, rest, hrest, rfl⟩

/-- One of some characters matches each of them. -/
theorem mem_matches_oneOf {chars text : List Char} :
    text ∈ (oneOf chars).matches' ↔ ∃ c ∈ chars, text = [c] := by
  induction chars with
  | nil => exact ⟨fun h => absurd h (Language.notMem_zero text), fun ⟨c, hc, _⟩ => nomatch hc⟩
  | cons d chars ih =>
    have hsum : oneOf (d :: chars) = char d + oneOf chars := List.sum_cons
    rw [hsum, RegularExpression.matches'_add, Language.mem_add, ih, mem_matches_char]
    simp

/-- A row of characters matches a pattern for each of them. -/
theorem mem_matches_star_oneOf {chars text : List Char} :
    text ∈ (star (oneOf chars)).matches' ↔ ∀ c ∈ text, c ∈ chars := by
  rw [RegularExpression.matches'_star, Language.mem_kstar]
  constructor
  · rintro ⟨parts, rfl, hparts⟩ c hc
    obtain ⟨part, hpart, hmem⟩ := List.mem_flatten.mp hc
    obtain ⟨d, hd, rfl⟩ := mem_matches_oneOf.mp (hparts part hpart)
    rwa [List.mem_singleton.mp hmem]
  · intro h
    rw [← List.flatMap_singleton' text, List.flatMap_def]
    refine ⟨_, rfl, fun part hpart => ?_⟩
    obtain ⟨c, hc, rfl⟩ := List.mem_map.mp hpart
    exact mem_matches_oneOf.mpr ⟨c, h c hc, rfl⟩

/-- One or more of some characters match a text of them that is not empty. -/
theorem mem_matches_oneOrMore {chars text : List Char} :
    text ∈ (oneOrMore (oneOf chars)).matches' ↔ text ≠ [] ∧ ∀ c ∈ text, c ∈ chars := by
  rw [oneOrMore, mem_matches_mul]
  constructor
  · rintro ⟨start, hstart, rest, hrest, rfl⟩
    obtain ⟨c, hc, rfl⟩ := mem_matches_oneOf.mp hstart
    refine ⟨List.cons_ne_nil c rest, List.forall_mem_cons.mpr ⟨hc, ?_⟩⟩
    exact mem_matches_star_oneOf.mp hrest
  · rintro ⟨hne, hchars⟩
    obtain ⟨c, rest, rfl⟩ := List.exists_cons_of_ne_nil hne
    obtain ⟨hc, hrest⟩ := List.forall_mem_cons.mp hchars
    exact ⟨[c], mem_matches_oneOf.mpr ⟨c, hc, rfl⟩, rest, mem_matches_star_oneOf.mpr hrest, rfl⟩

section

variable {holds : Char → Bool} (hname : ∀ c, holds c = true → isNameChar c = true)

include hname

/-- A class of characters of names can be told from the characters with small codes. -/
theorem mem_iff_of_isNameChar {chars : List Char} (hmem : ∀ c ∈ chars, holds c = true)
    (hall : ∀ code < 128, holds (Char.ofNat code) = true → Char.ofNat code ∈ chars) (c : Char) :
    c ∈ chars ↔ holds c = true := by
  refine ⟨hmem c, fun h => ?_⟩
  have hcode := (Reference.toNat_of_isNameChar (hname c h)).2
  have hchar := hall c.toNat (by omega)
  rw [Char.ofNat_toNat] at hchar
  exact hchar h

end

private theorem mem_digitChars : ∀ c, c ∈ digitChars ↔ isDigit c = true :=
  mem_iff_of_isNameChar (fun _ => Reference.isNameChar_of_isDigit)
    (List.all_eq_true.mp (by decide)) (by decide)

private theorem mem_alphanumericChars : ∀ c, c ∈ alphanumericChars ↔ isAlphanumeric c = true :=
  mem_iff_of_isNameChar (fun c h => by simp [isNameChar, h])
    (List.all_eq_true.mp (by decide)) (by decide)

private theorem mem_nameChars : ∀ c, c ∈ nameChars ↔ isNameChar c = true :=
  mem_iff_of_isNameChar (fun _ h => h) (List.all_eq_true.mp (by decide)) (by decide)

/-- One or more digits match a numeral. -/
theorem mem_matches_digits {text : List Char} :
    text ∈ (oneOrMore (oneOf digitChars)).matches' ↔ isNumeral text = true := by
  rw [mem_matches_oneOrMore]
  simp [mem_digitChars, isNumeral]

/-- A word is spelled as it is taken for. -/
inductive Spelled : List Char → Word → Prop
  | placeholder {numeral} (h : isNumeral numeral = true) :
    Spelled ('f' :: 'n' :: '#' :: numeral) (.placeholder numeral)
  | unsigned {numeral} (h : isNumeral numeral = true) : Spelled numeral (.integer false numeral)
  | plus {numeral} (h : isNumeral numeral = true) :
    Spelled ('+' :: numeral) (.integer false numeral)
  | minus {numeral} (h : isNumeral numeral = true) :
    Spelled ('-' :: numeral) (.integer true numeral)
  | dice {count size} (hcount : isNumeral count = true) (hsize : size ≠ [])
    (hchars : ∀ c ∈ size, isAlphanumeric c = true) :
    Spelled (count ++ 'd' :: size) (.dice count size)
  | operator (operator : Operator) : Spelled [operator.symbol] (.operator operator)
  | «variable» {name} (hname : name ≠ []) (hchars : ∀ c ∈ name, isNameChar c = true) :
    Spelled ('$' :: name) (.variable name)

/-- The form of a word. -/
def Word.form : Word → Option Form
  | .placeholder _ => some .placeholder
  | .integer _ _ => some .integer
  | .dice _ _ => some .dice
  | .operator op => some (.operator op)
  | .variable _ => some .variable
  | .stray => none

/-- Only a stray word has no form. -/
theorem Word.form_eq_none_iff {word : Word} : word.form = none ↔ word = .stray := by
  cases word <;> simp [Word.form]

/-- A numeral has digits only, and one at least. -/
theorem isNumeral_iff {text : List Char} :
    isNumeral text = true ↔ text ≠ [] ∧ ∀ c ∈ text, isDigit c = true := by
  simp [isNumeral]

/-- A word that starts with a numeral starts with a digit. -/
theorem ofChars_numeral_append {numeral : List Char} (h : isNumeral numeral = true)
    (rest : List Char) : Word.ofChars (numeral ++ rest) = Word.ofDigits (numeral ++ rest) := by
  obtain ⟨hne, hdigits⟩ := isNumeral_iff.mp h
  obtain ⟨c, numeral, rfl⟩ := List.exists_cons_of_ne_nil hne
  exact Reference.ofChars_of_isDigit (hdigits c List.mem_cons_self) _

/-- A word is taken for what it spells. -/
theorem ofChars_of_spelled {text : List Char} {word : Word} (h : Spelled text word) :
    Word.ofChars text = word := by
  cases h with
  | placeholder h => simp [Word.ofChars, h]
  | unsigned h =>
    obtain ⟨hne, hdigits⟩ := isNumeral_iff.mp h
    have hstart := ofChars_numeral_append h []
    rw [List.append_nil] at hstart
    rw [hstart, Reference.ofDigits_of_forall hne hdigits]
  | plus h =>
    have hne := (isNumeral_iff.mp h).1
    simp [Word.ofChars, Word.ofSigned, hne, h]
  | minus h =>
    have hne := (isNumeral_iff.mp h).1
    simp [Word.ofChars, Word.ofSigned, hne, h]
  | dice hcount hsize hchars =>
    obtain ⟨hne, hdigits⟩ := isNumeral_iff.mp hcount
    rw [ofChars_numeral_append hcount, ofDigits_dice hne hdigits hsize hchars]
  | operator operator => cases operator <;> rfl
  | «variable» hname hchars => exact Reference.ofChars_reference hname hchars

/-- A word that starts with a digit is spelled as what it is recognized as. -/
theorem spelled_of_ofDigits {text : List Char} {word : Word} (h : Word.ofDigits text = word)
    (hword : word ≠ .stray) : Spelled text word := by
  have hdigits : ∀ c ∈ text.takeWhile isDigit, isDigit c = true :=
    List.all_eq_true.mp List.all_takeWhile
  have hparts := List.takeWhile_append_dropWhile (p := isDigit) (l := text)
  unfold Word.ofDigits at h
  generalize text.takeWhile isDigit = numeral at h hdigits hparts
  dsimp only at h
  split at h
  · next hnil =>
    split at h
    · next hne =>
      subst h
      rw [← hparts, hnil, List.append_nil]
      exact .unsigned (isNumeral_iff.mpr ⟨hne, hdigits⟩)
    · exact absurd h.symm hword
  · next size hsize =>
    split at h
    · next hvalid =>
      subst h
      rw [← hparts, hsize]
      exact .dice (isNumeral_iff.mpr ⟨hvalid.1, hdigits⟩) hvalid.2.1
        (List.all_eq_true.mp hvalid.2.2)
    · exact absurd h.symm hword
  · exact absurd h.symm hword

/-- A word that is taken for something spells that. -/
theorem spelled_of_ofChars {text : List Char} {word : Word} (h : Word.ofChars text = word)
    (hword : word ≠ .stray) : Spelled text word := by
  unfold Word.ofChars at h
  split at h
  · split at h
    · next hnumeral =>
      subst h
      exact .placeholder hnumeral
    · exact absurd h.symm hword
  · split at h
    · next hname =>
      subst h
      exact .variable hname.1 (List.all_eq_true.mp hname.2)
    · exact absurd h.symm hword
  · unfold Word.ofSigned at h
    split at h
    · next hnil =>
      subst h hnil
      exact .operator .add
    · split at h
      · next hnumeral =>
        subst h
        exact .plus hnumeral
      · exact absurd h.symm hword
  · unfold Word.ofSigned at h
    split at h
    · next hnil =>
      subst h hnil
      exact .operator .sub
    · split at h
      · next hnumeral =>
        subst h
        exact .minus hnumeral
      · exact absurd h.symm hword
  · subst h
    exact .operator .mul
  · subst h
    exact .operator .div
  · exact spelled_of_ofDigits h hword

/-- A placeholder is `fn#` before a numeral. -/
theorem mem_placeholder_iff {text : List Char} : text ∈ Form.placeholder.language ↔
    ∃ numeral, isNumeral numeral = true ∧ text = 'f' :: 'n' :: '#' :: numeral := by
  rw [Form.language, Form.pattern]
  simp only [mem_matches_char_mul, mem_matches_digits]
  constructor
  · rintro ⟨_, ⟨_, ⟨numeral, hnumeral, rfl⟩, rfl⟩, rfl⟩
    exact ⟨numeral, hnumeral, rfl⟩
  · rintro ⟨numeral, hnumeral, rfl⟩
    exact ⟨_, ⟨_, ⟨numeral, hnumeral, rfl⟩, rfl⟩, rfl⟩

/-- An integer is a numeral, with a sign in front of it or without. -/
theorem mem_integer_iff {text : List Char} : text ∈ Form.integer.language ↔
    ∃ numeral, isNumeral numeral = true ∧
      (text = numeral ∨ text = '+' :: numeral ∨ text = '-' :: numeral) := by
  rw [Form.language, Form.pattern, mem_matches_mul]
  simp only [RegularExpression.matches'_add, RegularExpression.matches'_epsilon,
    Language.mem_add, Language.mem_one, mem_matches_char, mem_matches_digits]
  constructor
  · rintro ⟨sign, rfl | rfl | rfl, numeral, hnumeral, rfl⟩
    · exact ⟨numeral, hnumeral, .inl rfl⟩
    · exact ⟨numeral, hnumeral, .inr (.inl rfl)⟩
    · exact ⟨numeral, hnumeral, .inr (.inr rfl)⟩
  · rintro ⟨numeral, hnumeral, hunsigned | rfl | rfl⟩
    · exact ⟨[], .inl rfl, numeral, hnumeral, hunsigned.symm⟩
    · exact ⟨['+'], .inr (.inl rfl), numeral, hnumeral, rfl⟩
    · exact ⟨['-'], .inr (.inr rfl), numeral, hnumeral, rfl⟩

/-- Dice are a numeral, a `d`, and letters or digits. -/
theorem mem_dice_iff {text : List Char} : text ∈ Form.dice.language ↔
    ∃ count size, isNumeral count = true ∧ size ≠ [] ∧ (∀ c ∈ size, isAlphanumeric c = true) ∧
      text = count ++ 'd' :: size := by
  rw [Form.language, Form.pattern, mem_matches_mul]
  simp only [mem_matches_char_mul, mem_matches_digits]
  simp only [mem_matches_oneOrMore, mem_alphanumericChars]
  constructor
  · rintro ⟨count, hcount, _, ⟨size, ⟨hsize, hchars⟩, rfl⟩, rfl⟩
    exact ⟨count, size, hcount, hsize, hchars, rfl⟩
  · rintro ⟨count, size, hcount, hsize, hchars, rfl⟩
    exact ⟨count, hcount, _, ⟨size, ⟨hsize, hchars⟩, rfl⟩, rfl⟩

/-- An operator is its sign. -/
theorem mem_operator_iff {text : List Char} {operator : Operator} :
    text ∈ (Form.operator operator).language ↔ text = [operator.symbol] :=
  Iff.rfl

/-- A variable is a dollar sign before a name. -/
theorem mem_variable_iff {text : List Char} : text ∈ Form.variable.language ↔
    ∃ name, name ≠ [] ∧ (∀ c ∈ name, isNameChar c = true) ∧ text = '$' :: name := by
  rw [Form.language, Form.pattern]
  simp only [mem_matches_char_mul, mem_matches_oneOrMore, mem_nameChars, and_assoc]

/-- What a word of a form spells. -/
theorem exists_spelled {text : List Char} {form : Form} (h : text ∈ form.language) :
    ∃ word, Spelled text word ∧ word.form = some form := by
  cases form with
  | placeholder =>
    obtain ⟨numeral, hnumeral, rfl⟩ := mem_placeholder_iff.mp h
    exact ⟨_, .placeholder hnumeral, rfl⟩
  | integer =>
    obtain ⟨numeral, hnumeral, rfl | rfl | rfl⟩ := mem_integer_iff.mp h
    · exact ⟨_, .unsigned hnumeral, rfl⟩
    · exact ⟨_, .plus hnumeral, rfl⟩
    · exact ⟨_, .minus hnumeral, rfl⟩
  | dice =>
    obtain ⟨count, size, hcount, hsize, hchars, rfl⟩ := mem_dice_iff.mp h
    exact ⟨_, .dice hcount hsize hchars, rfl⟩
  | operator operator =>
    rw [mem_operator_iff.mp h]
    exact ⟨_, .operator operator, rfl⟩
  | «variable» =>
    obtain ⟨name, hname, hchars, rfl⟩ := mem_variable_iff.mp h
    exact ⟨_, .variable hname hchars, rfl⟩

/-- What is spelled as a word has the form of the word. -/
theorem Spelled.mem_language {text : List Char} {word : Word} {form : Form}
    (h : Spelled text word) (hform : word.form = some form) : text ∈ form.language := by
  cases h with
  | placeholder h =>
    obtain rfl := Option.some.inj hform
    exact mem_placeholder_iff.mpr ⟨_, h, rfl⟩
  | unsigned h =>
    obtain rfl := Option.some.inj hform
    exact mem_integer_iff.mpr ⟨_, h, .inl rfl⟩
  | plus h =>
    obtain rfl := Option.some.inj hform
    exact mem_integer_iff.mpr ⟨_, h, .inr (.inl rfl)⟩
  | minus h =>
    obtain rfl := Option.some.inj hform
    exact mem_integer_iff.mpr ⟨_, h, .inr (.inr rfl)⟩
  | dice hcount hsize hchars =>
    obtain rfl := Option.some.inj hform
    exact mem_dice_iff.mpr ⟨_, _, hcount, hsize, hchars, rfl⟩
  | operator operator =>
    obtain rfl := Option.some.inj hform
    exact mem_operator_iff.mpr rfl
  | «variable» hname hchars =>
    obtain rfl := Option.some.inj hform
    exact mem_variable_iff.mpr ⟨_, hname, hchars, rfl⟩

/-- A word matches the pattern of what it is taken for, and no other one. -/
theorem form_ofChars_iff {text : List Char} {form : Form} :
    (Word.ofChars text).form = some form ↔ text ∈ form.language := by
  constructor
  · intro hform
    have hword : Word.ofChars text ≠ .stray := by
      intro hstray
      rw [hstray] at hform
      cases hform
    exact (spelled_of_ofChars rfl hword).mem_language hform
  · intro h
    obtain ⟨word, hspelled, hform⟩ := exists_spelled h
    rwa [ofChars_of_spelled hspelled]

/-- No word has two forms. -/
theorem Form.eq_of_mem {text : List Char} {form other : Form} (h : text ∈ form.language)
    (hother : text ∈ other.language) : form = other := by
  have hform := form_ofChars_iff.mpr h
  rw [form_ofChars_iff.mpr hother] at hform
  exact (Option.some.inj hform).symm

/-- A text that has a form is not empty. -/
theorem Form.ne_nil_of_mem {text : List Char} {form : Form} (h : text ∈ form.language) :
    text ≠ [] := by
  rintro rfl
  cases form_ofChars_iff.mpr h

/-- A word is stray if it matches no pattern. -/
theorem ofChars_eq_stray_iff {text : List Char} :
    Word.ofChars text = .stray ↔ ∀ form : Form, text ∉ form.language := by
  constructor
  · intro hstray form h
    have hform := form_ofChars_iff.mpr h
    rw [hstray] at hform
    cases hform
  · intro h
    rw [← Word.form_eq_none_iff, Option.eq_none_iff_forall_ne_some]
    exact fun form hform => h form (form_ofChars_iff.mp hform)

end DiceNotation.Notation
