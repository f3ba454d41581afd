import DiceNotation.Proofs.Notation.Forms

/-!
# Lexers

A lexer takes the longest start of a text that has a form. A word has a form by a lexer if the first
thing that the lexer takes is the whole word, with nothing behind it. Starts of the word that have a
form themselves, as the count of dice or a sign, do not matter then: a word has a form by a lexer if
and only if it matches the pattern of the form.
-/

namespace DiceNotation.Notation

/-- What is taken from the start of a text. It has no form if no start of the text has one. -/
structure Lexeme where
  form : Option Form
  text : List Char
  rest : List Char
  deriving DecidableEq

/-- A lexer takes a lexeme from a text, unless the text has ended. -/
abbrev Lexer := List Char → Option Lexeme

/-- A lexeme is the longest start of a text that has a form, if there is one. -/
structure Lexeme.Longest (source : List Char) (lexeme : Lexeme) : Prop where
  source_eq : source = lexeme.text ++ lexeme.rest
  ne_nil : lexeme.text ≠ []
  fits : ∀ form, lexeme.form = some form → lexeme.text ∈ form.language
  longest : ∀ (form : Form) start, start <+: source → start ∈ form.language →
    lexeme.form ≠ none ∧ start.length ≤ lexeme.text.length

/-- A lexer takes the longest lexemes. -/
structure Lexer.TakesLongest (lexer : Lexer) : Prop where
  ends : lexer [] = none
  takes : ∀ source, source ≠ [] → ∃ lexeme, lexer source = some lexeme ∧ lexeme.Longest source

/-- The form of a word: that of the first lexeme, if this is the whole word and the text ends behind
it. -/
def Lexer.formOf (lexer : Lexer) (word : List Char) : Option Form :=
  match lexer word with
  | none => none
  | some lexeme => if lexeme.text = word ∧ lexer lexeme.rest = none then lexeme.form else none

namespace Lexer

variable {lexer : Lexer} (hlexer : lexer.TakesLongest)

include hlexer

/-- A word has a form by a lexer if the word as a whole matches the pattern of the form. -/
theorem formOf_eq_some_iff {word : List Char} {form : Form} :
    lexer.formOf word = some form ↔ word ∈ form.language := by
  unfold formOf
  constructor
  · intro h
    cases word with
    | nil =>
      rw [hlexer.ends] at h
      cases h
    | cons c rest =>
      obtain ⟨lexeme, htaken, hlongest⟩ := hlexer.takes _ (List.cons_ne_nil c rest)
      rw [htaken] at h
      dsimp only at h
      split at h
      · next hwhole => exact hwhole.1 ▸ hlongest.fits form h
      · cases h
  · intro h
    obtain ⟨lexeme, htaken, hlongest⟩ := hlexer.takes word (Form.ne_nil_of_mem h)
    obtain ⟨hform, hlength⟩ := hlongest.longest form word List.prefix_rfl h
    obtain ⟨other, hother⟩ := Option.ne_none_iff_exists'.mp hform
    -- The word is one of its own starts, so that the lexeme is no shorter.
    have hstart : lexeme.text <+: word := ⟨lexeme.rest, hlongest.source_eq.symm⟩
    have htext : lexeme.text = word := hstart.eq_of_length_le hlength
    have hrest : lexeme.rest = [] := by
      have hsource := hlongest.source_eq
      rw [htext] at hsource
      exact List.append_right_eq_self.mp hsource.symm
    have hmem := hlongest.fits other hother
    rw [htext] at hmem
    rw [htaken]
    dsimp only
    rw [if_pos ⟨htext, hrest ▸ hlexer.ends⟩, hother, Form.eq_of_mem hmem h]

/-- A lexer tells the same form as the characters of a word. -/
theorem formOf_eq (word : List Char) : lexer.formOf word = (Word.ofChars word).form := by
  apply Option.ext
  intro form
  rw [formOf_eq_some_iff hlexer, form_ofChars_iff]

end Lexer

/-- All forms. -/
def Form.all : List Form :=
  [.placeholder, .integer, .dice, .operator .add, .operator .sub, .operator .mul, .operator .div,
    .variable]

private theorem Form.mem_all (form : Form) : form ∈ Form.all := by
  cases form with
  | operator operator => cases operator <;> decide
  | placeholder => decide
  | integer => decide
  | dice => decide
  | «variable» => decide

/-- The longest start of a text of at most some length that has a form. If there is none, one
character is taken. -/
def longestUpTo (source : List Char) : Nat → Lexeme
  | 0 => ⟨none, source.take 1, source.drop 1⟩
  | length + 1 =>
    match Form.all.find? fun form => source.take (length + 1) ∈ form.language with
    | some form => ⟨some form, source.take (length + 1), source.drop (length + 1)⟩
    | none => longestUpTo source length

/-- A lexer that tries all starts of a text, the longest ones first. -/
def longest : Lexer
  | [] => none
  | c :: rest => some (longestUpTo (c :: rest) (c :: rest).length)

/-- Up to a length, the longest start that has a form is taken. -/
theorem longestUpTo_spec {source : List Char} (hne : source ≠ []) (length : Nat) :
    source = (longestUpTo source length).text ++ (longestUpTo source length).rest ∧
      (longestUpTo source length).text ≠ [] ∧
      (∀ form, (longestUpTo source length).form = some form →
        (longestUpTo source length).text ∈ form.language) ∧
      ∀ (form : Form) start, start <+: source → start.length ≤ length → start ∈ form.language →
        (longestUpTo source length).form ≠ none ∧
          start.length ≤ (longestUpTo source length).text.length := by
  induction length with
  | zero =>
    obtain ⟨c, rest, rfl⟩ := List.exists_cons_of_ne_nil hne
    refine ⟨rfl, List.cons_ne_nil c [], ?_, ?_⟩
    · rintro form ⟨⟩
    · intro form start _ hlength hmem
      exact absurd (List.length_eq_zero_iff.mp (Nat.le_zero.mp hlength)) (Form.ne_nil_of_mem hmem)
  | succ length ih =>
    rw [longestUpTo]
    cases hfind : Form.all.find? fun form => source.take (length + 1) ∈ form.language with
    | some form =>
      have hmem : source.take (length + 1) ∈ form.language := by
        simpa using List.find?_some hfind
      refine ⟨(List.take_append_drop _ _).symm, Form.ne_nil_of_mem hmem, ?_, ?_⟩
      · intro other hother
        cases hother
        exact hmem
      · intro other start hstart hlength _
        refine ⟨Option.some_ne_none form, ?_⟩
        have hle := hstart.length_le
        simp only [List.length_take]
        omega
    | none =>
      refine ⟨ih.1, ih.2.1, ih.2.2.1, fun form start hstart hlength hmem => ?_⟩
      rcases Nat.eq_or_lt_of_le hlength with heq | hlt
      · -- The start of this length has no form.
        have hnone := List.find?_eq_none.mp hfind form (Form.mem_all form)
        rw [← heq, ← List.prefix_iff_eq_take.mp hstart] at hnone
        exact absurd hmem (by simpa using hnone)
      · exact ih.2.2.2 form start hstart (Nat.le_of_lt_succ hlt) hmem

/-- The lexer that tries all lengths takes the longest match. -/
theorem takesLongest_longest : Lexer.TakesLongest longest := by
  refine ⟨rfl, fun source hne => ?_⟩
  obtain ⟨hsource, htext, hfits, hlongest⟩ := longestUpTo_spec hne source.length
  refine ⟨longestUpTo source source.length, ?_, hsource, htext, hfits, ?_⟩
  · obtain ⟨c, rest, rfl⟩ := List.exists_cons_of_ne_nil hne
    rfl
  · exact fun form start hstart => hlongest form start hstart hstart.length_le

/-- A start of the text that is an integer is not enough if a longer one is dice, or if nothing
longer has a form. -/
example : longest "4d6-1".toList = some ⟨some .dice, "4d6".toList, "-1".toList⟩ ∧
    longest "4d".toList = some ⟨some .integer, "4".toList, "d".toList⟩ := by
  decide +kernel

end DiceNotation.Notation
