import DiceNotation.Notation.Error
import DiceNotation.Text.Fields

/-!
# Calls in a text

A call is a name directly followed by a parenthesis, up to the parenthesis that closes it.
This module finds the leftmost call of a text and cuts its argument text into pieces. A
parenthesis without a name in front, or with the name of a variable, opens no call.
-/

namespace DiceNotation.Notation

/-- A text with a call in it: `before name(arguments) after`. -/
structure CallSite where
  before : List Char
  name : List Char
  arguments : List Char
  after : List Char
  deriving DecidableEq

/-- The text in which a call was found. -/
def CallSite.source (site : CallSite) : List Char :=
  site.before ++ site.name ++ '(' :: site.arguments ++ ')' :: site.after

/-- The name at the end of a text that is given in reverse order, in reverse order too. -/
def nameBefore (reversed : List Char) : List Char :=
  reversed.takeWhile Text.isNameChar

/-- What precedes the name at the end of a text, all in reverse order. -/
def beforeName (reversed : List Char) : List Char :=
  reversed.dropWhile Text.isNameChar

/-- Whether a parenthesis opens a call after the given text, which is in reverse order: the
text ends with a name, and that is not the name of a variable. -/
def opensCall (reversed : List Char) : Bool :=
  nameBefore reversed ≠ [] && (beforeName reversed).head? ≠ some '$'

/-- The leftmost parenthesis that opens a call, as the texts before the name, of the name,
and after the parenthesis. The characters before the text are given in reverse order. -/
def opening? (reversed : List Char) : List Char → Option (List Char × List Char × List Char)
  | [] => none
  | c :: rest =>
    if c = '(' ∧ opensCall reversed then
      some ((beforeName reversed).reverse, (nameBefore reversed).reverse, rest)
    else opening? (c :: reversed) rest

/-- Cuts a text at the parenthesis that closes the one opened just before it, inside of
`depth` others: the texts up to it and after it. -/
def closing? (depth : Nat) : List Char → Option (List Char × List Char)
  | [] => none
  | c :: rest =>
    if c = ')' ∧ depth = 0 then some ([], rest)
    else
      let inner := if c = '(' then depth + 1 else if c = ')' then depth - 1 else depth
      match closing? inner rest with
      | some (inside, after) => some (c :: inside, after)
      | none => none

/-- The leftmost call of a text. It is an error if that call is not closed. -/
def leftmostCall (text : List Char) : Except NotationError (Option CallSite) :=
  match opening? [] text with
  | none => .ok none
  | some (before, name, rest) =>
    match closing? 0 rest with
    | some (arguments, after) => .ok (some ⟨before, name, arguments, after⟩)
    | none => .error (.unbalanced (String.ofList (Text.trim text)))

/-- Cuts a text at the commas that stand in no parentheses, inside of `depth` pairs. -/
def cutArguments (depth : Nat) : List Char → List (List Char)
  | [] => [[]]
  | c :: rest =>
    if c = ',' ∧ depth = 0 then [] :: cutArguments 0 rest
    else
      let inner := if c = '(' then depth + 1 else if c = ')' then depth - 1 else depth
      Text.extendFirst c (cutArguments inner rest)

/-- The arguments in an argument text: its pieces between commas that stand in no
parentheses, without the blanks around them and without the empty ones. -/
def argumentTexts (text : List Char) : List (List Char) :=
  ((cutArguments 0 text).map Text.trim).filter (· ≠ [])

/-- The number of opening parentheses in a text. It bounds the number of calls there. -/
def openings (text : List Char) : Nat :=
  text.count '('

/-- The opening parentheses of two texts side by side add up. -/
@[simp] theorem openings_append (a b : List Char) : openings (a ++ b) = openings a + openings b :=
  List.count_append

/-- A character that is no opening parenthesis is not counted. -/
theorem openings_cons_of_ne {c : Char} (h : c ≠ '(') (text : List Char) :
    openings (c :: text) = openings text := by
  simp [openings, h]

/-- An opening parenthesis counts one. -/
@[simp] theorem openings_cons_self (text : List Char) :
    openings ('(' :: text) = openings text + 1 := by
  simp [openings]

/-- A text from which characters were taken away has no more opening parentheses. -/
theorem openings_le_of_sublist {a b : List Char} (h : a.Sublist b) : openings a ≤ openings b :=
  h.count_le '('

/-- The parts of an opening make up the text that was searched. -/
theorem eq_of_opening? {reversed text before name rest : List Char}
    (h : opening? reversed text = some (before, name, rest)) :
    reversed.reverse ++ text = before ++ name ++ '(' :: rest := by
  induction text generalizing reversed with
  | nil => simp [opening?] at h
  | cons c text ih =>
    rw [opening?] at h
    split at h
    · next hopen =>
      simp only [Option.some.injEq, Prod.mk.injEq] at h
      obtain ⟨rfl, rfl, rfl⟩ := h
      rw [hopen.1, ← List.reverse_append, nameBefore, beforeName,
        List.takeWhile_append_dropWhile]
    · simpa using ih h

/-- The parts of a closing make up the text that was searched. -/
theorem eq_of_closing? {depth : Nat} {text inside after : List Char}
    (h : closing? depth text = some (inside, after)) : text = inside ++ ')' :: after := by
  induction text generalizing depth inside after with
  | nil => simp [closing?] at h
  | cons c text ih =>
    rw [closing?] at h
    split at h
    · next hclose =>
      simp only [Option.some.injEq, Prod.mk.injEq] at h
      obtain ⟨rfl, rfl⟩ := h
      simp [hclose.1]
    · dsimp only at h
      split at h
      · next inside' after' hrest =>
        simp only [Option.some.injEq, Prod.mk.injEq] at h
        obtain ⟨rfl, rfl⟩ := h
        simp [ih hrest]
      · simp at h

/-- A call that is found is a part of the text. -/
theorem source_of_leftmostCall {text : List Char} {site : CallSite}
    (h : leftmostCall text = .ok (some site)) : site.source = text := by
  rw [leftmostCall] at h
  split at h
  · simp at h
  · next before name rest hopen =>
    split at h
    · next arguments after hclose =>
      simp only [Except.ok.injEq, Option.some.injEq] at h
      subst h
      have hrest := eq_of_closing? hclose
      have htext := eq_of_opening? hopen
      simp only [List.reverse_nil, List.nil_append] at htext
      simp [CallSite.source, htext, hrest]
    · simp at h

/-- The arguments of a call hold fewer opening parentheses than the text, which has one
more at least. -/
theorem openings_arguments_lt {text : List Char} {site : CallSite}
    (h : leftmostCall text = .ok (some site)) : openings site.arguments < openings text := by
  rw [← source_of_leftmostCall h]
  simp only [CallSite.source, openings_append, openings_cons_self, List.append_assoc,
    List.cons_append]
  omega

/-- The text around a call holds fewer opening parentheses than the text with the call. -/
theorem openings_around_lt {text : List Char} {site : CallSite}
    (h : leftmostCall text = .ok (some site)) :
    openings site.before + openings site.after < openings text := by
  rw [← source_of_leftmostCall h]
  simp only [CallSite.source, openings_append, openings_cons_self, List.append_assoc,
    List.cons_append, openings_cons_of_ne (show ')' ≠ '(' by decide)]
  omega

/-- Trimming takes characters away. -/
theorem trim_sublist (text : List Char) : (Text.trim text).Sublist text := by
  have hstart (t : List Char) : (Text.trimStart t).Sublist t := List.dropWhile_sublist _
  have hend : (Text.trimEnd (Text.trimStart text)).Sublist (Text.trimStart text) := by
    simpa [Text.trimEnd] using (hstart (Text.trimStart text).reverse).reverse
  exact hend.trans (hstart text)

/-- All opening parentheses of a list of texts together. -/
def openingsOf (texts : List (List Char)) : Nat :=
  openings texts.flatten

/-- The opening parentheses of several texts are those of the first one and of the others. -/
theorem openingsOf_cons (text : List Char) (texts : List (List Char)) :
    openingsOf (text :: texts) = openings text + openingsOf texts := by
  simp [openingsOf]

private theorem openingsOf_extendFirst (c : Char) (texts : List (List Char)) :
    openingsOf (Text.extendFirst c texts) = openings [c] + openingsOf texts := by
  cases texts with
  | nil => simp [openingsOf, Text.extendFirst, openings]
  | cons text texts =>
    rw [Text.extendFirst, openingsOf_cons, openingsOf_cons, ← List.singleton_append,
      openings_append, Nat.add_assoc]

/-- Cutting a text at commas loses no opening parentheses. -/
theorem openingsOf_cutArguments (depth : Nat) (text : List Char) :
    openingsOf (cutArguments depth text) = openings text := by
  induction text generalizing depth with
  | nil => rfl
  | cons c text ih =>
    rw [cutArguments]
    split
    · next hcomma =>
      rw [hcomma.1, openings_cons_of_ne (by decide), openingsOf_cons, ih]
      exact Nat.zero_add _
    · dsimp only
      rw [openingsOf_extendFirst, ih, ← openings_append, List.singleton_append]

private theorem openingsOf_filter_map_le (texts : List (List Char)) :
    openingsOf ((texts.map Text.trim).filter (· ≠ [])) ≤ openingsOf texts := by
  induction texts with
  | nil => simp
  | cons text texts ih =>
    have htrim := openings_le_of_sublist (trim_sublist text)
    simp only [List.map_cons, List.filter_cons]
    split <;> simp only [openingsOf_cons] <;> omega

/-- The arguments hold no more opening parentheses than the text that they come from. -/
theorem openingsOf_argumentTexts_le (text : List Char) :
    openingsOf (argumentTexts text) ≤ openings text := by
  rw [← openingsOf_cutArguments 0 text]
  exact openingsOf_filter_map_le _

/-- The first one of several arguments is smaller than all of them together. -/
theorem lex_first_argument (argument : List Char) (rest : List (List Char)) :
    Prod.Lex (· < ·) (· < ·) (openings argument, 0)
      (openingsOf (argument :: rest), (argument :: rest).length + 1) := by
  simp only [openingsOf_cons, List.length_cons]
  rcases Nat.eq_zero_or_pos (openingsOf rest) with h | h
  · rw [h, Nat.add_zero]
    exact Prod.Lex.right _ (by omega)
  · exact Prod.Lex.left _ _ (by omega)

/-- The other ones of several arguments are smaller than all of them together. -/
theorem lex_other_arguments (argument : List Char) (rest : List (List Char)) :
    Prod.Lex (· < ·) (· < ·) (openingsOf rest, rest.length + 1)
      (openingsOf (argument :: rest), (argument :: rest).length + 1) := by
  simp only [openingsOf_cons, List.length_cons]
  rcases Nat.eq_zero_or_pos (openings argument) with h | h
  · rw [h, Nat.zero_add]
    exact Prod.Lex.right _ (by omega)
  · exact Prod.Lex.left _ _ (by omega)

end DiceNotation.Notation
