import DiceNotation.Proofs.Filling.Scanning
import DiceNotation.Proofs.Notation.Agreement

/-!
# The parts of a text

A text is made of words and of calls, and what it means is what they mean, one after the other.
A blank parts a text into two: if all calls of the first one are closed in it, then the parts of
the whole are those of the first one and then those of the second one.
-/

namespace DiceNotation.Notation

open Text (isBlank)

/-- A part of a text. -/
inductive Part where
  /-- A word outside of all calls. -/
  | word (characters : List Char)
  /-- A call, with its argument texts. -/
  | call (name : List Char) (arguments : List (List Char))

/-- The parts of a text from left to right, if all calls in it are closed. -/
def parts? (text : List Char) : Option (List Part) :=
  match _found : leftmostCall text with
  | .error _ => none
  | .ok none => some ((wordsOf text).map .word)
  | .ok (some site) =>
    (parts? site.after).map fun after =>
      (wordsOf site.before).map .word ++ .call site.name (argumentTexts site.arguments) :: after
termination_by openings text
decreasing_by exact Nat.lt_of_le_of_lt (Nat.le_add_left _ _) (openings_around_lt _found)

/-- A text with a call that is not closed has no parts. -/
theorem parts?_of_error {text : List Char} {error : NotationError}
    (h : leftmostCall text = .error error) : parts? text = none := by
  rw [parts?]
  split <;> simp_all

/-- The parts of a text without a call are its words. -/
theorem parts?_of_none {text : List Char} (h : leftmostCall text = .ok none) :
    parts? text = some ((wordsOf text).map .word) := by
  rw [parts?]
  split <;> simp_all

/-- The parts of a text with a call are the words before it, the call, and the parts after it. -/
theorem parts?_of_some {text : List Char} {site : CallSite}
    (h : leftmostCall text = .ok (some site)) :
    parts? text = (parts? site.after).map fun after =>
      (wordsOf site.before).map .word ++
        .call site.name (argumentTexts site.arguments) :: after := by
  rw [parts?]
  split
  · simp_all
  · simp_all
  · next found hfound =>
    rw [h, Except.ok.injEq, Option.some.injEq] at hfound
    subst hfound
    rfl

/-- The token that a part stands for, if it has a meaning. -/
def Part.token? : Part → Option Token
  | .word characters => meaning? characters
  | .call name arguments => do
    let function ← Builtin.ofName? (String.ofList name)
    let parameters ← parameters? arguments
    pure (.operand (.call function parameters))

/-- The tokens of words are their meanings. -/
theorem mapM_token?_words (words : List (List Char)) :
    (words.map Part.word).mapM Part.token? = words.mapM meaning? := by
  rw [List.mapM_map]
  rfl

/-- The tokens of a text are those of its parts. -/
theorem row?_eq_parts (text : List Char) :
    row? text = (parts? text).bind (·.mapM Part.token?) := by
  cases hfound : leftmostCall text with
  | error error => rw [row?_of_error hfound, parts?_of_error hfound, Option.bind_none]
  | ok found =>
    cases found with
    | none =>
      rw [row?_of_none hfound, parts?_of_none hfound, Option.bind_some, mapM_token?_words]
    | some site =>
      have hsmaller := openings_around_lt hfound
      rw [row?_of_some hfound, parts?_of_some hfound, row?_eq_parts site.after]
      cases parts? site.after with
      | none => simp
      | some after =>
        simp only [Option.bind_some, List.mapM_append, mapM_token?_words,
          List.mapM_cons, Part.token?, Option.bind_eq_bind, Option.pure_def, Option.map_eq_bind,
          Option.bind_assoc, Function.comp_def]
termination_by openings text

private theorem isBreak_of_isBlank {c : Char} (h : isBlank c = true) : isBreak c = true :=
  Reference.isBreak_of_closes (by simp [Reference.closes, h])

private theorem ne_open_of_isBlank {c : Char} (h : isBlank c = true) : c ≠ '(' :=
  Reference.ne_open_of_closes (by simp [Reference.closes, h])

/-- A parenthesis that is closed in the first part of a text is closed at the same place in the
whole text. -/
theorem closing?_of_first {depth : Nat} {first inside after : List Char}
    (h : closing? depth first = some (inside, after)) (second : List Char) :
    closing? depth (first ++ second) = some (inside, after ++ second) := by
  induction first generalizing depth inside after with
  | nil => simp [closing?] at h
  | cons c first ih =>
    rw [closing?_cons] at h
    rw [List.cons_append, closing?_cons]
    by_cases hclose : c = ')' ∧ depth = 0
    · rw [if_pos hclose] at h ⊢
      obtain ⟨rfl, rfl⟩ := Prod.mk.inj (Option.some.inj h)
      rfl
    · rw [if_neg hclose] at h ⊢
      obtain ⟨⟨inside', after'⟩, hrest, hparts⟩ := Option.map_eq_some_iff.mp h
      obtain ⟨rfl, rfl⟩ := Prod.mk.inj hparts
      rw [ih hrest, Option.map_some]

/-- A call that is found in the first part of a text is the leftmost one of the whole text. -/
theorem leftmostCall_of_first {first : List Char} {site : CallSite}
    (h : leftmostCall first = .ok (some site)) (second : List Char) :
    leftmostCall (first ++ second) = .ok (some { site with after := site.after ++ second }) := by
  obtain ⟨rest, hopen, hclose⟩ := leftmostCall_eq_some.mp h
  refine leftmostCall_eq_some.mpr ⟨rest ++ second, ?_, closing?_of_first hclose second⟩
  rw [opening?_append, hopen]

section

variable {c : Char} (hc : isBlank c = true)

include hc

/-- A text without calls adds its words to the parts of the text behind it. -/
theorem parts?_append_of_none {first : List Char} (hnone : leftmostCall first = .ok none)
    (second : List Char) :
    parts? (first ++ c :: second) =
      (parts? second).map ((wordsOf first).map Part.word ++ ·) := by
  rcases leftmostCall_append_cases hnone (isBreak_of_isBlank hc) (ne_open_of_isBlank hc) second with
    ⟨error, error', hsecond, hboth⟩ | ⟨hsecond, hboth⟩ | ⟨site, hsecond, hboth⟩
  · rw [parts?_of_error hsecond, parts?_of_error hboth, Option.map_none]
  · rw [parts?_of_none hsecond, parts?_of_none hboth, wordsOf_append hc, List.map_append,
      Option.map_some]
  · rw [parts?_of_some hsecond, parts?_of_some hboth, CallSite.behind_before, wordsOf_append hc,
      CallSite.behind_name, CallSite.behind_arguments, CallSite.behind_after]
    simp [Option.map_map, Function.comp_def]

/-- A text in which all calls are closed stays in front of whatever is written behind it, with a
blank between. -/
theorem parts?_append {first : List Char} {parts : List Part} (h : parts? first = some parts)
    (second : List Char) : parts? (first ++ c :: second) = (parts? second).map (parts ++ ·) := by
  cases hfirst : leftmostCall first with
  | error error => simp [parts?_of_error hfirst] at h
  | ok found =>
    cases found with
    | none =>
      rw [parts?_of_none hfirst, Option.some.injEq] at h
      rw [parts?_append_of_none hc hfirst, h]
    | some site =>
      -- The text after the call is shorter, and it is there that the second text is written.
      have hsmaller := openings_around_lt hfirst
      simp only [parts?_of_some hfirst, Option.map_eq_some_iff] at h
      obtain ⟨after, hafter, rfl⟩ := h
      rw [parts?_of_some (leftmostCall_of_first hfirst (c :: second)),
        parts?_append hafter second]
      simp [Option.map_map, Function.comp_def]
termination_by openings first

end

end DiceNotation.Notation
