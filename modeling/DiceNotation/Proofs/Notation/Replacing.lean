import DiceNotation.Proofs.Notation.Fetching
import DiceNotation.Proofs.Notation.Leftmost
import DiceNotation.Proofs.Notation.Words

/-!
# The text after a replacement

Lifting replaces the leftmost call and starts again from the beginning of the text. What
precedes the replaced call has no call in it, so that only the text after the call matters, and
lifting is the same as one pass from left to right.
-/

namespace DiceNotation.Notation

open ReadState

/-- A text with a call that is not closed is not lifted. -/
theorem run?_lift_error {text : List Char} {error : NotationError}
    (h : leftmostCall text = .error error) (state : ReadState) :
    run? (lift text) state = none := by
  rw [lift_of_error h, run?_throw]

/-- A text without a call is lifted as it is. -/
theorem run?_lift_none {text : List Char} (h : leftmostCall text = .ok none)
    (state : ReadState) : run? (lift text) state = some (text, state) := by
  rw [lift_of_none h, run?_pure]

/-- A call is read and put on the shelf, and lifting goes on with its placeholder. -/
theorem run?_lift_replaced {text : List Char} {site : CallSite}
    (h : leftmostCall text = .ok (some site)) (state : ReadState) :
    run? (lift text) state =
      (Builtin.ofName? (String.ofList site.name)).bind fun function =>
        (run? (readArguments (argumentTexts site.arguments)) state).bind fun parameters =>
          run? (lift (site.replaced parameters.2.places))
            (parameters.2.shelved (.call function parameters.1)) := by
  rw [lift_of_some h, run?_bind, run?_builtin]
  cases Builtin.ofName? (String.ofList site.name) with
  | none => rfl
  | some function => simp only [Option.map_some, Option.bind_some, run?_bind, run?_shelve]

/-- The placeholder stands between blanks. -/
theorem replaced_eq (site : CallSite) (place : Nat) :
    site.replaced place = site.before ++ ' ' :: (placeholder place ++ ' ' :: site.after) := by
  simp [CallSite.replaced]

private theorem openings_placeholder_append (place : Nat) (after : List Char) :
    openings (placeholder place ++ ' ' :: after) = openings after := by
  rw [openings_append, openings_placeholder, openings_cons_of_ne (by decide), Nat.zero_add]

/-- A text without a call stays in front of what lifting makes of the text after it. -/
theorem run?_lift_append {first : List Char} (hfirst : leftmostCall first = .ok none)
    (second : List Char) (state : ReadState) :
    run? (lift (first ++ ' ' :: second)) state =
      (run? (lift second) state).map fun lifted => (first ++ ' ' :: lifted.1, lifted.2) := by
  rcases leftmostCall_append_cases hfirst (c := ' ') (by decide) (by decide) second with
    ⟨error, error', hsecond, hboth⟩ | ⟨hsecond, hboth⟩ | ⟨site, hsecond, hboth⟩
  · rw [run?_lift_error hsecond, run?_lift_error hboth, Option.map_none]
  · rw [run?_lift_none hsecond, run?_lift_none hboth, Option.map_some]
  · have hbefore := leftmostCall_before hsecond
    have hsmaller := openings_around_lt hsecond
    rw [run?_lift_replaced hsecond, run?_lift_replaced hboth, CallSite.behind_name,
      CallSite.behind_arguments]
    cases Builtin.ofName? (String.ofList site.name) with
    | none => rfl
    | some function =>
      simp only [Option.bind_some]
      cases run? (readArguments (argumentTexts site.arguments)) state with
      | none => rfl
      | some parameters =>
        -- what follows the new placeholder has fewer parentheses than the text with the call
        have hshort := run?_lift_append hbefore
          (placeholder parameters.2.places ++ ' ' :: site.after)
          (parameters.2.shelved (.call function parameters.1))
        have hlong := run?_lift_append (leftmostCall_before hboth)
          (placeholder parameters.2.places ++ ' ' :: site.after)
          (parameters.2.shelved (.call function parameters.1))
        simp only [Option.bind_some, replaced_eq, CallSite.behind_after, hshort, hlong,
          Option.map_map]
        cases run? (lift (placeholder parameters.2.places ++ ' ' :: site.after))
            (parameters.2.shelved (.call function parameters.1)) with
        | none => rfl
        | some lifted => simp [CallSite.behind]
termination_by openings second
decreasing_by
  all_goals
    rw [openings_placeholder_append]
    omega

/-- Lifting as one pass from left to right: a call with its arguments, then the text after it. -/
theorem run?_lift_some {text : List Char} {site : CallSite}
    (h : leftmostCall text = .ok (some site)) (state : ReadState) :
    run? (lift text) state =
      (Builtin.ofName? (String.ofList site.name)).bind fun function =>
        (run? (readArguments (argumentTexts site.arguments)) state).bind fun parameters =>
          (run? (lift site.after) (parameters.2.shelved (.call function parameters.1))).map
            fun lifted =>
              (site.before ++ ' ' :: (placeholder parameters.2.places ++ ' ' :: lifted.1),
                lifted.2) := by
  rw [run?_lift_replaced h]
  cases Builtin.ofName? (String.ofList site.name) with
  | none => rfl
  | some function =>
    simp only [Option.bind_some]
    cases run? (readArguments (argumentTexts site.arguments)) state with
    | none => rfl
    | some parameters =>
      have hplaceholder : leftmostCall (placeholder parameters.2.places) = .ok none := by
        rw [leftmostCall_eq_none]
        exact opening?_eq_none (openings_placeholder _)
      simp only [Option.bind_some]
      rw [replaced_eq, run?_lift_append (leftmostCall_before h), run?_lift_append hplaceholder,
        Option.map_map]
      rfl

/-- The words of a text that lifting has made: those before the first call, the placeholder of
the call, and those after it. -/
theorem run?_tokens_placed (before after : List Char) (place : Nat) (state : ReadState) :
    run? (tokens (before ++ ' ' :: (placeholder place ++ ' ' :: after))) state =
      (run? (tokensOf (wordsOf before)) state).bind fun first =>
        (first.2.call? place).bind fun call =>
          (run? (tokens after) (first.2.fetched place)).map fun second =>
            (first.1 ++ .operand call :: second.1, second.2) := by
  have hvalue : Text.numeralValue (Text.digits place) = place := Text.numeralValue_digits place
  unfold tokens
  rw [wordsOf_append isBlank_space, wordsOf_append isBlank_space, wordsOf_placeholder,
    run?_tokensOf_append]
  cases run? (tokensOf (wordsOf before)) state with
  | none => rfl
  | some first =>
    simp only [Option.bind_some, List.singleton_append, tokensOf_cons, run?_bind,
      run?_token_placeholder (ofChars_placeholder place), hvalue]
    cases first.2.call? place with
    | none => rfl
    | some call =>
      simp only [Option.map_some, Option.bind_some]
      cases run? (tokensOf (wordsOf after)) (first.2.fetched place) <;> rfl

/-- The first argument is lifted, looked up and bound before the others. -/
theorem run?_readArguments_cons (argument : List Char) (rest : List (List Char))
    (state : ReadState) :
    run? (readArguments (argument :: rest)) state =
      (run? (lift argument) state).bind fun lifted =>
        (run? (tokens lifted.1) lifted.2).bind fun row =>
          (bindTokens row.1).toOption.bind fun exprs =>
            (run? (readArguments rest) (row.2.noted row.1)).map fun others =>
              (exprs ++ others.1, others.2) := by
  rw [readArguments_cons, run?_bind]
  cases run? (lift argument) state with
  | none => rfl
  | some lifted =>
    simp only [Option.bind_some, run?_bind]
    cases run? (tokens lifted.1) lifted.2 with
    | none => rfl
    | some row =>
      simp only [Option.bind_some, run?_bound]
      cases (bindTokens row.1).toOption with
      | none => rfl
      | some exprs =>
        simp only [Option.map_some, Option.bind_some]
        cases run? (readArguments rest) (row.2.noted row.1) <;> rfl

end DiceNotation.Notation
