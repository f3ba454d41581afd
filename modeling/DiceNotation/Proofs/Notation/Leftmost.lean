import DiceNotation.Notation.Lifting

/-!
# The leftmost call of an extended text

The search for a call looks at each character once, with the characters before it at hand only
for the name. A text without a call can therefore be put in front of a text, with a blank
between, and the leftmost call stays the same.
-/

namespace DiceNotation.Notation

open Text (isNameChar)

/-- A search that finds nothing in the first part of a text goes on in the second part, and
one that finds something does not look at the second part. -/
theorem opening?_append (reversed first second : List Char) :
    opening? reversed (first ++ second) =
      match opening? reversed first with
      | some (before, name, rest) => some (before, name, rest ++ second)
      | none => opening? (first.reverse ++ reversed) second := by
  induction first generalizing reversed with
  | nil => rfl
  | cons c first ih =>
    rw [List.cons_append, opening?, opening?]
    split
    · rfl
    · rw [ih (c :: reversed)]
      simp only [List.reverse_cons, List.append_assoc, List.singleton_append]

/-- Nothing is found if no parenthesis of the text opens a call. -/
theorem opening?_eq_none_iff {reversed text : List Char} :
    opening? reversed text = none ↔
      ∀ first rest, text = first ++ '(' :: rest →
        opensCall (first.reverse ++ reversed) = false := by
  induction text generalizing reversed with
  | nil => simp [opening?]
  | cons c text ih =>
    rw [opening?]
    by_cases hopen : c = '(' ∧ opensCall reversed = true
    · rw [if_pos hopen]
      simp only [reduceCtorEq, false_iff]
      intro h
      have hfirst := h [] text (by rw [hopen.1, List.nil_append])
      rw [List.reverse_nil, List.nil_append, hopen.2] at hfirst
      cases hfirst
    · rw [if_neg hopen, ih]
      constructor
      · intro h first rest htext
        cases first with
        | nil =>
          obtain ⟨hc, -⟩ := List.cons.inj htext
          exact Bool.eq_false_iff.mpr fun hopens => hopen ⟨hc, hopens⟩
        | cons d first =>
          obtain ⟨hd, htail⟩ := List.cons.inj htext
          simpa [hd] using h first rest htail
      · rintro h first rest rfl
        simpa using h (c :: first) rest rfl

/-- What is found is the first parenthesis that opens a call. -/
theorem exists_of_opening? {reversed text before name rest : List Char}
    (h : opening? reversed text = some (before, name, rest)) :
    ∃ first, text = first ++ '(' :: rest ∧ opensCall (first.reverse ++ reversed) = true ∧
      opening? reversed first = none ∧ before = (beforeName (first.reverse ++ reversed)).reverse ∧
      name = (nameBefore (first.reverse ++ reversed)).reverse := by
  induction text generalizing reversed with
  | nil => simp [opening?] at h
  | cons c text ih =>
    rw [opening?] at h
    split at h
    · next hopen =>
      simp only [Option.some.injEq, Prod.mk.injEq] at h
      obtain ⟨rfl, rfl, rfl⟩ := h
      exact ⟨[], by rw [hopen.1, List.nil_append], hopen.2, rfl, rfl, rfl⟩
    · next hopen =>
      obtain ⟨first, rfl, hopens, hnone, rfl, rfl⟩ := ih h
      refine ⟨c :: first, rfl, ?_⟩
      rw [opening?, if_neg hopen]
      simpa using And.intro hopens hnone

/-- There is no call in front of the leftmost one. -/
theorem opening?_before {text before name rest : List Char}
    (h : opening? [] text = some (before, name, rest)) : opening? [] before = none := by
  have htext := eq_of_opening? h
  rw [List.reverse_nil, List.nil_append] at htext
  cases hbefore : opening? [] before with
  | none => rfl
  | some found =>
    obtain ⟨before', name', rest'⟩ := found
    have hlength := congrArg List.length (eq_of_opening? hbefore)
    rw [htext, List.append_assoc, opening?_append, hbefore] at h
    simp only [Option.some.injEq, Prod.mk.injEq] at h
    obtain ⟨rfl, -, -⟩ := h
    simp only [List.reverse_nil, List.nil_append, List.length_append, List.length_cons] at hlength
    omega

/-- Whether no name reaches over a character, also not the name of a variable. -/
def isBreak (c : Char) : Bool :=
  !isNameChar c && c != '$'

/-- A break ends the name, whatever stands before it. -/
theorem nameBefore_append {c : Char} (hc : isBreak c = true) (reversed earlier : List Char) :
    nameBefore (reversed ++ c :: earlier) = nameBefore reversed := by
  simp only [isBreak, Bool.and_eq_true, Bool.not_eq_true'] at hc
  unfold nameBefore
  induction reversed with
  | nil => simp [hc.1]
  | cons d reversed ih =>
    rw [List.cons_append, List.takeWhile_cons, List.takeWhile_cons, ih]

/-- What precedes a name goes on with the break before it. -/
theorem beforeName_append {c : Char} (hc : isBreak c = true) (reversed earlier : List Char) :
    beforeName (reversed ++ c :: earlier) = beforeName reversed ++ c :: earlier := by
  simp only [isBreak, Bool.and_eq_true, Bool.not_eq_true'] at hc
  unfold beforeName
  induction reversed with
  | nil => simp [hc.1]
  | cons d reversed ih =>
    rw [List.cons_append, List.dropWhile_cons, List.dropWhile_cons, ih]
    split <;> rfl

/-- What stands before a break does not decide whether a call is opened. -/
theorem opensCall_append {c : Char} (hc : isBreak c = true) (reversed earlier : List Char) :
    opensCall (reversed ++ c :: earlier) = opensCall reversed := by
  have hdollar : c ≠ '$' := by
    simp only [isBreak, Bool.and_eq_true, bne_iff_ne] at hc
    exact hc.2
  unfold opensCall
  rw [nameBefore_append hc, beforeName_append hc]
  cases beforeName reversed <;> simp [hdollar]

/-- What precedes a character over which no name reaches does not matter for the search. -/
theorem opening?_append_break {c : Char} (hc : isBreak c = true)
    (reversed earlier text : List Char) :
    opening? (reversed ++ c :: earlier) text =
      (opening? reversed text).map fun found =>
        (earlier.reverse ++ c :: found.1, found.2.1, found.2.2) := by
  induction text generalizing reversed with
  | nil => rfl
  | cons d text ih =>
    rw [opening?, opening?, opensCall_append hc]
    split
    · simp [nameBefore_append hc, beforeName_append hc]
    · exact ih (d :: reversed)

/-- A text without parentheses has no call. -/
theorem opening?_eq_none {text : List Char} (h : openings text = 0) : opening? [] text = none := by
  cases hopen : opening? [] text with
  | none => rfl
  | some found =>
    obtain ⟨before, name, rest⟩ := found
    have htext := eq_of_opening? hopen
    rw [List.reverse_nil, List.nil_append] at htext
    simp only [htext, openings_append, openings_cons_self] at h
    omega

/-- A text has no call exactly if no parenthesis opens one. -/
theorem leftmostCall_eq_none {text : List Char} :
    leftmostCall text = .ok none ↔ opening? [] text = none := by
  unfold leftmostCall
  cases opening? [] text with
  | none => simp
  | some found =>
    dsimp only
    cases closing? 0 found.2.2 <;> simp

/-- A call is found between the parenthesis that opens it and the one that closes it. -/
theorem leftmostCall_eq_some {text : List Char} {site : CallSite} :
    leftmostCall text = .ok (some site) ↔
      ∃ rest, opening? [] text = some (site.before, site.name, rest) ∧
        closing? 0 rest = some (site.arguments, site.after) := by
  unfold leftmostCall
  constructor
  · intro h
    split at h
    · cases h
    · next before name rest hopen =>
      split at h
      · next arguments after hclose =>
        cases h
        exact ⟨rest, hopen, hclose⟩
      · cases h
  · rintro ⟨rest, hopen, hclose⟩
    simp only [hopen, hclose]

/-- It is an error if a parenthesis that opens a call is not closed, and nothing else is. -/
theorem leftmostCall_eq_error {text : List Char} :
    (∃ error, leftmostCall text = .error error) ↔
      ∃ before name rest, opening? [] text = some (before, name, rest) ∧
        closing? 0 rest = none := by
  unfold leftmostCall
  constructor
  · rintro ⟨error, h⟩
    split at h
    · cases h
    · next before name rest hopen =>
      split at h
      · cases h
      · next hclose => exact ⟨before, name, rest, hopen, hclose⟩
  · rintro ⟨before, name, rest, hopen, hclose⟩
    simp only [hopen, hclose]
    exact ⟨_, rfl⟩

/-- No call stands before the leftmost one. -/
theorem leftmostCall_before {text : List Char} {site : CallSite}
    (h : leftmostCall text = .ok (some site)) : leftmostCall site.before = .ok none := by
  obtain ⟨rest, hopen, -⟩ := leftmostCall_eq_some.mp h
  exact leftmostCall_eq_none.mpr (opening?_before hopen)

/-- The call, with one more text before it. -/
def CallSite.behind (site : CallSite) (text : List Char) : CallSite :=
  { site with before := text ++ site.before }

/-- Text in front of a call leaves its name as it is. -/
@[simp] theorem CallSite.behind_name (site : CallSite) (text : List Char) :
    (site.behind text).name = site.name :=
  rfl

/-- Text in front of a call leaves its arguments as they are. -/
@[simp] theorem CallSite.behind_arguments (site : CallSite) (text : List Char) :
    (site.behind text).arguments = site.arguments :=
  rfl

/-- Text in front of a call leaves the text after it as it is. -/
@[simp] theorem CallSite.behind_after (site : CallSite) (text : List Char) :
    (site.behind text).after = site.after :=
  rfl

/-- Text with a character at its end stands before the call with this character. -/
theorem CallSite.behind_before (site : CallSite) (first : List Char) (c : Char) :
    (site.behind (first ++ [c])).before = first ++ c :: site.before := by
  simp [CallSite.behind]

section

variable {first : List Char} (hfirst : leftmostCall first = .ok none)
variable {c : Char} (hbreak : isBreak c = true) (hopen : c ≠ '(')

include hfirst hbreak hopen

/-- A text without a call can be put in front of a text, and the same call is the leftmost
one, if no name reaches over the character between them. -/
theorem leftmostCall_append (second : List Char) :
    (leftmostCall (first ++ c :: second)).toOption =
      (leftmostCall second).toOption.map (Option.map (·.behind (first ++ [c]))) := by
  have hsearch : opening? [] (first ++ c :: second) =
      (opening? [] second).map fun found =>
        (first ++ [c] ++ found.1, found.2.1, found.2.2) := by
    rw [opening?_append, leftmostCall_eq_none.mp hfirst]
    simpa [opening?, hopen] using opening?_append_break hbreak [] first.reverse second
  unfold leftmostCall
  rw [hsearch]
  cases opening? [] second with
  | none => rfl
  | some found =>
    obtain ⟨before, name, rest⟩ := found
    simp only [Option.map_some]
    cases closing? 0 rest <;> rfl

/-- A text without a call can be put in front of a text that has a call that is not closed, that
has no call, or that has one. -/
theorem leftmostCall_append_cases (second : List Char) :
    (∃ error error', leftmostCall second = .error error ∧
        leftmostCall (first ++ c :: second) = .error error') ∨
      (leftmostCall second = .ok none ∧ leftmostCall (first ++ c :: second) = .ok none) ∨
      ∃ site, leftmostCall second = .ok (some site) ∧
        leftmostCall (first ++ c :: second) = .ok (some (site.behind (first ++ [c]))) := by
  have hcall := leftmostCall_append hfirst hbreak hopen second
  cases hboth : leftmostCall (first ++ c :: second) with
  | error error' =>
    cases hsecond : leftmostCall second with
    | error error => exact .inl ⟨error, error', rfl, rfl⟩
    | ok found => simp [hsecond, hboth, Except.toOption] at hcall
  | ok found' =>
    cases hsecond : leftmostCall second with
    | error error => simp [hsecond, hboth, Except.toOption] at hcall
    | ok found =>
      simp only [hsecond, hboth, Except.toOption, Option.map_some, Option.some.injEq] at hcall
      subst hcall
      cases found with
      | none => exact .inr (.inl ⟨rfl, rfl⟩)
      | some site => exact .inr (.inr ⟨site, rfl, rfl⟩)

end

end DiceNotation.Notation
