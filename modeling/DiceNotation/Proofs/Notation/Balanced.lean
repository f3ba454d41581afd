import DiceNotation.Notation.Call
import DiceNotation.Proofs.Notation.Words

/-!
# Texts with paired parentheses

The scans for the end of a call and for the commas between its arguments count parentheses. A
text in which all parentheses are paired leaves these counts as they are, so that the scans pass
over it.
-/

namespace DiceNotation

/-- Characters in front of the first text stand there in their order. -/
theorem Text.foldr_extendFirst (text first : List Char) (others : List (List Char)) :
    text.foldr extendFirst (first :: others) = (text ++ first) :: others := by
  induction text with
  | nil => rfl
  | cons c text ih => rw [List.foldr_cons, ih, extendFirst, List.cons_append]

namespace Notation

open Text (isBlank extendFirst)

/-- The parentheses of a text are paired. The flag says whether commas may stand outside of
them. -/
inductive Balanced : Bool → List Char → Prop
  | nil {commas : Bool} : Balanced commas []
  | char {commas : Bool} {c : Char} (hopen : c ≠ '(') (hclose : c ≠ ')') (hcomma : c ≠ ',') :
      Balanced commas [c]
  | comma : Balanced true [',']
  | parentheses {commas : Bool} {inside : List Char} (hinside : Balanced true inside) :
      Balanced commas ('(' :: (inside ++ [')']))
  | append {commas : Bool} {first second : List Char} (hfirst : Balanced commas first)
      (hsecond : Balanced commas second) : Balanced commas (first ++ second)

/-- The search for the closing parenthesis goes on after the first character, one deeper or not. -/
theorem closing?_cons (depth : Nat) (c : Char) (rest : List Char) :
    closing? depth (c :: rest) =
      if c = ')' ∧ depth = 0 then some ([], rest)
      else
        (closing? (if c = '(' then depth + 1 else if c = ')' then depth - 1 else depth) rest).map
          fun parts => (c :: parts.1, parts.2) := by
  rw [closing?]
  split
  · rfl
  · dsimp only
    cases closing? (if c = '(' then depth + 1 else if c = ')' then depth - 1 else depth) rest <;>
      rfl

/-- Other characters than parentheses are passed. -/
theorem closing?_cons_of_ne {c : Char} (hopen : c ≠ '(') (hclose : c ≠ ')') (depth : Nat)
    (rest : List Char) :
    closing? depth (c :: rest) =
      (closing? depth rest).map fun parts => (c :: parts.1, parts.2) := by
  rw [closing?_cons, if_neg (fun h => hclose h.1), if_neg hopen, if_neg hclose]

/-- After an opening parenthesis the search is one deeper. -/
theorem closing?_cons_open (depth : Nat) (rest : List Char) :
    closing? depth ('(' :: rest) =
      (closing? (depth + 1) rest).map fun parts => ('(' :: parts.1, parts.2) := by
  rw [closing?_cons, if_neg (fun h => absurd h.1 (by decide)), if_pos rfl]

/-- A closing parenthesis inside of another pair does not end the search. -/
theorem closing?_cons_close (depth : Nat) (rest : List Char) :
    closing? (depth + 1) (')' :: rest) =
      (closing? depth rest).map fun parts => (')' :: parts.1, parts.2) := by
  rw [closing?_cons, if_neg (fun h => Nat.succ_ne_zero depth h.2), if_neg (by decide), if_pos rfl,
    Nat.add_sub_cancel]

/-- Other characters than parentheses and outer commas stay in the first argument. -/
theorem cutArguments_cons_of_ne {c : Char} (hopen : c ≠ '(') (hclose : c ≠ ')') {depth : Nat}
    (hcomma : c = ',' → 0 < depth) (rest : List Char) :
    cutArguments depth (c :: rest) = extendFirst c (cutArguments depth rest) := by
  have hcut : ¬(c = ',' ∧ depth = 0) := fun h => Nat.ne_of_gt (hcomma h.1) h.2
  rw [cutArguments, if_neg hcut, if_neg hopen, if_neg hclose]

private theorem cutArguments_cons_open (depth : Nat) (rest : List Char) :
    cutArguments depth ('(' :: rest) = extendFirst '(' (cutArguments (depth + 1) rest) := by
  rw [cutArguments, if_neg (fun h => absurd h.1 (by decide)), if_pos rfl]

private theorem cutArguments_cons_close (depth : Nat) (rest : List Char) :
    cutArguments (depth + 1) (')' :: rest) = extendFirst ')' (cutArguments depth rest) := by
  rw [cutArguments, if_neg (fun h => Nat.succ_ne_zero depth h.2), if_neg (by decide), if_pos rfl,
    Nat.add_sub_cancel]

namespace Balanced

variable {commas : Bool} {text : List Char}

/-- A text without parentheses and commas is balanced. -/
theorem of_forall (h : ∀ c ∈ text, c ≠ '(' ∧ c ≠ ')' ∧ c ≠ ',') : Balanced commas text := by
  induction text with
  | nil => exact .nil
  | cons c text ih =>
    obtain ⟨hopen, hclose, hcomma⟩ := h c List.mem_cons_self
    have hrest := ih fun d hd => h d (List.mem_cons_of_mem c hd)
    exact .append (.char hopen hclose hcomma) hrest

/-- A balanced text is also one in which commas may stand outside of parentheses. -/
theorem mono (h : Balanced commas text) : Balanced true text := by
  induction h with
  | nil => exact .nil
  | char hopen hclose hcomma => exact .char hopen hclose hcomma
  | comma => exact .comma
  | parentheses hinside => exact .parentheses hinside
  | append _ _ ihfirst ihsecond => exact .append ihfirst ihsecond

/-- Balanced texts with commas and blanks between them are balanced. -/
theorem intercalate {texts : List (List Char)} (h : ∀ text ∈ texts, Balanced false text) :
    Balanced true ([',', ' '].intercalate texts) := by
  induction texts with
  | nil => exact .nil
  | cons text texts ih =>
    have htext := (h text List.mem_cons_self).mono
    have hrest := ih fun other hother => h other (List.mem_cons_of_mem text hother)
    cases texts with
    | nil => rwa [List.intercalate_singleton]
    | cons second texts =>
      have hblank : Balanced true [' '] := .char (by decide) (by decide) (by decide)
      have hseparator : Balanced true [',', ' '] := .append .comma hblank
      rw [List.intercalate_cons_cons]
      exact .append (.append htext hseparator) hrest

/-- The search for the end of a call passes over a balanced text. -/
theorem closing?_append (h : Balanced commas text) (depth : Nat) (rest : List Char) :
    closing? depth (text ++ rest) =
      (closing? depth rest).map fun parts => (text ++ parts.1, parts.2) := by
  induction h generalizing depth rest with
  | nil => simp
  | char hopen hclose _ => exact closing?_cons_of_ne hopen hclose depth rest
  | comma => exact closing?_cons_of_ne (by decide) (by decide) depth rest
  | parentheses _ ih =>
    rw [List.cons_append, closing?_cons_open, List.append_assoc, ih, List.singleton_append,
      closing?_cons_close]
    cases closing? depth rest <;> simp
  | append _ _ ihfirst ihsecond =>
    rw [List.append_assoc, ihfirst, ihsecond]
    cases closing? depth rest <;> simp

/-- A balanced text is not cut at commas. If commas may stand in it outside of parentheses, then
it must stand in parentheses itself. -/
theorem cutArguments_append (h : Balanced commas text) {depth : Nat}
    (hdepth : commas = true → 0 < depth) (rest : List Char) :
    cutArguments depth (text ++ rest) = text.foldr extendFirst (cutArguments depth rest) := by
  induction h generalizing depth rest with
  | nil => rfl
  | char hopen hclose hcomma =>
    exact cutArguments_cons_of_ne hopen hclose (fun h => absurd h hcomma) rest
  | comma => exact cutArguments_cons_of_ne (by decide) (by decide) (fun _ => hdepth rfl) rest
  | parentheses _ ih =>
    have hinside := ih (fun _ => Nat.succ_pos depth) (')' :: rest)
    rw [List.cons_append, cutArguments_cons_open, List.append_assoc, List.singleton_append,
      hinside, cutArguments_cons_close, List.foldr_cons, List.foldr_append]
    rfl
  | append _ _ ihfirst ihsecond =>
    rw [List.append_assoc, ihfirst hdepth, ihsecond hdepth, List.foldr_append]

end Balanced

/-- There is no blank at the two ends of a text, and it is not empty. -/
structure Tight (text : List Char) : Prop where
  first : ∃ c ∈ text.head?, isBlank c = false
  last : ∃ c ∈ text.getLast?, isBlank c = false

namespace Tight

variable {text : List Char}

/-- A tight text is not empty. -/
theorem ne_nil (h : Tight text) : text ≠ [] := by
  obtain ⟨c, hc, -⟩ := h.first
  rintro rfl
  cases hc

/-- A text without blanks is tight unless it is empty. -/
theorem of_forall (hne : text ≠ []) (h : ∀ c ∈ text, isBlank c = false) : Tight text := by
  constructor
  · exact ⟨text.head hne, List.head?_eq_some_head hne, h _ (List.head_mem hne)⟩
  · exact ⟨text.getLast hne, List.getLast?_eq_some_getLast hne, h _ (List.getLast_mem hne)⟩

/-- What stands between two texts does not matter for the ends. -/
theorem append {last : List Char} (h : Tight text) (hlast : Tight last) (between : List Char) :
    Tight (text ++ (between ++ last)) := by
  obtain ⟨c, hc, hcblank⟩ := h.first
  obtain ⟨d, hd, hdblank⟩ := hlast.last
  constructor
  · exact ⟨c, by simp_all, hcblank⟩
  · exact ⟨d, by simp_all, hdblank⟩

private theorem trimStart_eq (h : Tight text) : Text.trimStart text = text := by
  obtain ⟨c, hc, hblank⟩ := h.first
  cases text with
  | nil => cases hc
  | cons d text =>
    obtain rfl := Option.some.inj hc
    exact List.dropWhile_cons_of_neg (by simp [hblank])

/-- A tight text is not trimmed. -/
theorem trim_eq (h : Tight text) : Text.trim text = text := by
  have hreverse : Tight text.reverse := ⟨by simpa using h.last, by simpa using h.first⟩
  rw [Text.trim, h.trimStart_eq, Text.trimEnd, hreverse.trimStart_eq, List.reverse_reverse]

end Tight

end Notation

end DiceNotation
