import DiceNotation.Proofs.Notation.Operands
import DiceNotation.Proofs.Notation.Parts

/-!
# Parentheses around a text

A parenthesis that opens no call is a character like others. Beside a word it sticks to the word,
which then has no meaning; in front of a call or behind it, it is a word of its own.
-/

namespace DiceNotation.Notation

/-- A text with parentheses in front of it and behind it. -/
def enclosed (before after : Nat) (text : List Char) : List Char :=
  List.replicate before '(' ++ (text ++ List.replicate after ')')

/-- Without parentheses around it, a text is itself. -/
theorem enclosed_zero (text : List Char) : enclosed 0 0 text = text := by
  simp [enclosed]

/-- A text with a parenthesis beside it is no word with a meaning. -/
theorem ofChars_enclosed {before after : Nat} (h : 0 < before ∨ 0 < after) (text : List Char) :
    Word.ofChars (enclosed before after text) = .stray := by
  rcases h with h | h
  · have hmem : '(' ∈ enclosed before after text := by simp [enclosed, Nat.ne_of_gt h]
    exact Reference.ofChars_eq_stray hmem (by decide)
  · have hmem : ')' ∈ enclosed before after text := by simp [enclosed, Nat.ne_of_gt h]
    exact Reference.ofChars_eq_stray hmem (by decide)

/-- A parenthesis at the start of a text opens no call. -/
theorem opening?_replicate_append (count : Nat) (text : List Char) :
    opening? [] (List.replicate count '(' ++ text) =
      (opening? [] text).map fun found =>
        (List.replicate count '(' ++ found.1, found.2.1, found.2.2) := by
  induction count with
  | zero => simp
  | succ count ih =>
    have hfirst (text : List Char) : opening? [] ('(' :: text) =
        (opening? [] text).map fun found => ('(' :: found.1, found.2.1, found.2.2) := by
      rw [opening?, if_neg (by decide)]
      exact opening?_append_break (by decide) [] [] text
    rw [List.replicate_succ, List.cons_append, hfirst, ih]
    simp [Option.map_map, Function.comp_def]

/-- Opening parentheses before a text leave its leftmost call as it is. -/
theorem leftmostCall_replicate_append {text : List Char} {site : CallSite}
    (h : leftmostCall text = .ok (some site)) (count : Nat) :
    leftmostCall (List.replicate count '(' ++ text) =
      .ok (some (site.behind (List.replicate count '('))) := by
  obtain ⟨rest, hopen, hclose⟩ := leftmostCall_eq_some.mp h
  refine leftmostCall_eq_some.mpr ⟨rest, ?_, hclose⟩
  rw [opening?_replicate_append, hopen, Option.map_some]
  rfl

/-- Closing parentheses alone have no call. -/
theorem leftmostCall_closes (count : Nat) : leftmostCall (List.replicate count ')') = .ok none := by
  refine leftmostCall_eq_none.mpr (opening?_eq_none ?_)
  simp [openings, List.count_replicate]

/-- Parentheses beside each other are one word, and it has no meaning. -/
theorem wordsOf_replicate {c : Char} (hc : c = '(' ∨ c = ')') {count : Nat} (hcount : 0 < count) :
    wordsOf (List.replicate count c) = [List.replicate count c] ∧
      Word.ofChars (List.replicate count c) = .stray := by
  have hne : List.replicate count c ≠ [] := by simp [Nat.ne_of_gt hcount]
  have hblank : Text.isBlank c = false := by rcases hc with rfl | rfl <;> decide
  have hinert : Reference.isInert c = false := by rcases hc with rfl | rfl <;> decide
  have hcomma : c ≠ ',' := by rcases hc with rfl | rfl <;> decide
  refine ⟨wordsOf_word hne ?_ ?_, Reference.ofChars_eq_stray ?_ hinert⟩
  · intro hlast
    exact hcomma (List.eq_of_mem_replicate (List.mem_of_getLast? hlast)).symm
  · intro d hd
    rwa [List.eq_of_mem_replicate hd]
  · simp [Nat.ne_of_gt hcount]

/-- A word with parentheses beside it is one word. -/
theorem parts?_enclosed {word : List Char} (hform : Word.ofChars word ≠ .stray)
    (before after : Nat) :
    parts? (enclosed before after word) = some [.word (enclosed before after word)] := by
  have hinert := Reference.isInert_of_ofChars hform
  have hchars : ∀ c ∈ enclosed before after word, c = '(' ∨ c = ')' ∨ c ∈ word := by
    intro c hc
    simp only [enclosed, List.mem_append, List.mem_replicate] at hc
    tauto
  have hopenings : openings (word ++ List.replicate after ')') = 0 := by
    rw [openings, List.count_eq_zero]
    intro hmem
    rcases List.mem_append.mp hmem with hmem | hmem
    · exact (Reference.ne_of_isInert (hinert _ hmem)).2.2.1 rfl
    · exact absurd (List.eq_of_mem_replicate hmem) (by decide)
  have hnone : leftmostCall (enclosed before after word) = .ok none := by
    rw [leftmostCall_eq_none, enclosed, opening?_replicate_append, opening?_eq_none hopenings,
      Option.map_none]
  have hne : enclosed before after word ≠ [] := by simp [enclosed, ne_nil_of_ofChars hform]
  have hword : wordsOf (enclosed before after word) = [enclosed before after word] := by
    refine wordsOf_word hne ?_ ?_
    · intro hlast
      rcases hchars _ (List.mem_of_getLast? hlast) with hc | hc | hc
      · exact absurd hc (by decide)
      · exact absurd hc (by decide)
      · exact (Reference.ne_of_isInert (hinert _ hc)).2.1 rfl
    · intro c hc
      rcases hchars c hc with rfl | rfl | hc
      · decide
      · decide
      · exact (Reference.ne_of_isInert (hinert c hc)).1
  rw [parts?_of_none hnone, hword, List.map_singleton]

end DiceNotation.Notation
