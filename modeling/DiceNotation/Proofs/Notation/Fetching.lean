import DiceNotation.Proofs.Notation.Shelf

/-!
# Words and the shelf

What the words of a text do to the shelf when their meanings are looked up. A word either has
a meaning on its own and leaves the shelf as it is, or it fetches a call, and then the place
of the call was taken before and is empty afterwards.
-/

namespace DiceNotation.Notation

open ReadState

/-- A call is put on a new place. -/
@[simp] theorem run?_shelve (call : Expr) (state : ReadState) :
    run? (shelve call) state = some (state.places, state.shelved call) :=
  rfl

/-- A function is found by its name, and the state is left as it is. -/
theorem run?_builtin (name : List Char) (state : ReadState) :
    run? (builtin name) state = (Builtin.ofName? (String.ofList name)).map (·, state) := by
  unfold builtin
  cases Builtin.ofName? (String.ofList name) <;> rfl

/-- Fetching gives the call at a place, and leaves the place empty. -/
theorem fetch?_of_some {state : ReadState} {place : Nat} {call : Expr}
    (h : state.call? place = some call) :
    fetch? place state = .ok (some call) (state.fetched place) := by
  have hplace : state.shelf[place]? = some (some call) := Option.join_eq_some_iff.mp h
  have hget : (get : Reading ReadState) state = .ok state state := rfl
  rw [fetch?, Step.bind_of_ok hget, hplace]
  rfl

/-- Fetching from an empty place changes nothing. -/
theorem fetch?_of_none {state : ReadState} {place : Nat} (h : state.call? place = none) :
    fetch? place state = .ok none state := by
  have hget : (get : Reading ReadState) state = .ok state state := rfl
  rw [fetch?, Step.bind_of_ok hget]
  cases hplace : state.shelf[place]? with
  | none => rfl
  | some content =>
    cases content with
    | none => rfl
    | some call => simp [ReadState.call?, hplace] at h

/-- The state with the words noted that binding drops. -/
def ReadState.noted (state : ReadState) (row : List Token) : ReadState :=
  { state with ignored := state.ignored ++ (droppedAfter false row).map String.ofList }

/-- Binding gives the expressions and notes the stray words. -/
theorem bound_of_ok {row : List Token} {exprs : List Expr} (h : bindTokens row = .ok exprs)
    (state : ReadState) : bound row state = .ok exprs (state.noted row) := by
  have hnoted : (modify (·.noted row) : Reading Unit) state = .ok () (state.noted row) := rfl
  refine (Step.bind_of_ok hnoted).trans ?_
  rw [h]
  rfl

/-- Binding that fails notes the stray words up to there. -/
theorem bound_of_error {row : List Token} {error : NotationError}
    (h : bindTokens row = .error error) (state : ReadState) :
    bound row state = .error error (state.noted row) := by
  have hnoted : (modify (·.noted row) : Reading Unit) state = .ok () (state.noted row) := rfl
  refine (Step.bind_of_ok hnoted).trans ?_
  rw [h]
  rfl

/-- Binding does not touch the shelf. -/
theorem run?_bound (row : List Token) (state : ReadState) :
    run? (bound row) state = (bindTokens row).toOption.map (·, state.noted row) := by
  cases h : bindTokens row with
  | ok exprs =>
    rw [run?_of_ok (bound_of_ok h state)]
    rfl
  | error error =>
    rw [run?_of_error (bound_of_error h state)]
    rfl

/-- Noting words leaves the places as they are. -/
@[simp] theorem places_noted (state : ReadState) (row : List Token) :
    (state.noted row).places = state.places :=
  rfl

/-- Noting words leaves the calls as they are. -/
@[simp] theorem call?_noted (state : ReadState) (row : List Token) (place : Nat) :
    (state.noted row).call? place = state.call? place :=
  rfl

/-- Noting words takes no call from the shelf. -/
theorem spent_noted (state : ReadState) (row : List Token) : state.Spent (state.noted row) :=
  ⟨rfl, fun _ => .inl rfl⟩

/-- A placeholder fetches the call at its place. -/
theorem run?_token_placeholder {word numeral : List Char}
    (h : Word.ofChars word = .placeholder numeral) (state : ReadState) :
    run? (token word) state = (state.call? (Text.numeralValue numeral)).map fun call =>
      (.operand call, state.fetched (Text.numeralValue numeral)) := by
  unfold token Shelving.token
  rw [h]
  simp only [run?_bind]
  cases hcall : state.call? (Text.numeralValue numeral) with
  | none =>
    rw [run?_of_ok (fetch?_of_none hcall)]
    rfl
  | some call =>
    rw [run?_of_ok (fetch?_of_some hcall)]
    rfl

/-- A placeholder has no meaning on its own. -/
theorem meaning?_placeholder {word numeral : List Char}
    (h : Word.ofChars word = .placeholder numeral) : meaning? word = none := by
  rw [meaning?, h]

/-- Any other word means what it means on its own, and leaves the shelf as it is. -/
theorem run?_token {word : List Char} (h : ∀ numeral, Word.ofChars word ≠ .placeholder numeral)
    (state : ReadState) : run? (token word) state = (meaning? word).map (·, state) := by
  unfold meaning? token Shelving.token
  cases hword : Word.ofChars word with
  | placeholder numeral => exact absurd hword (h numeral)
  | integer isNegative numeral =>
    dsimp only
    cases integer? isNegative numeral <;> rfl
  | dice count size =>
    dsimp only
    cases pool word count size <;> rfl
  | operator operator => rfl
  | «variable» name => rfl
  | stray => rfl

/-- A word that has a meaning leaves the shelf as it is, or has fetched a call. -/
theorem token_cases {word : List Char} {state next : ReadState} {t : Token}
    (h : run? (token word) state = some (t, next)) :
    (meaning? word = some t ∧ next = state) ∨
      ∃ place call, state.call? place = some call ∧ next = state.fetched place := by
  by_cases hword : ∃ numeral, Word.ofChars word = .placeholder numeral
  · obtain ⟨numeral, hword⟩ := hword
    rw [run?_token_placeholder hword, Option.map_eq_some_iff] at h
    obtain ⟨call, hcall, hnext⟩ := h
    simp only [Prod.mk.injEq] at hnext
    exact .inr ⟨_, call, hcall, hnext.2.symm⟩
  · rw [run?_token (fun numeral heq => hword ⟨numeral, heq⟩), Option.map_eq_some_iff] at h
    obtain ⟨t', ht', hnext⟩ := h
    simp only [Prod.mk.injEq] at hnext
    exact .inl ⟨by rw [ht', hnext.1], hnext.2.symm⟩

/-- Words are looked up from left to right. -/
theorem run?_tokensOf_append (first second : List (List Char)) (state : ReadState) :
    run? (tokensOf (first ++ second)) state =
      (run? (tokensOf first) state).bind fun a =>
        (run? (tokensOf second) a.2).map fun b => (a.1 ++ b.1, b.2) := by
  induction first generalizing state with
  | nil => simp [tokensOf_nil]
  | cons word rest ih =>
    simp only [List.cons_append, tokensOf_cons, run?_bind, ih, run?_pure]
    cases run? (token word) state with
    | none => rfl
    | some a =>
      simp only [Option.bind_some]
      cases run? (tokensOf rest) a.2 with
      | none => rfl
      | some b => cases h : run? (tokensOf second) b.2 <;> simp [h]

/-- Words that have meanings on their own have the same meanings whatever is on the shelf. -/
theorem run?_tokensOf_of_meanings {words : List (List Char)} {row : List Token}
    (h : words.mapM meaning? = some row) (state : ReadState) :
    run? (tokensOf words) state = some (row, state) := by
  induction words generalizing row with
  | nil =>
    simp only [List.mapM_nil, Option.pure_def, Option.some.injEq] at h
    subst h
    rfl
  | cons word rest ih =>
    simp only [List.mapM_cons, Option.pure_def, Option.bind_eq_bind, Option.bind_eq_some_iff,
      Option.some.injEq] at h
    obtain ⟨t, ht, others, hothers, rfl⟩ := h
    have hword : ∀ numeral, Word.ofChars word ≠ .placeholder numeral := by
      intro numeral heq
      simp [meaning?_placeholder heq] at ht
    simp only [tokensOf_cons, run?_bind, run?_token hword, ht, ih hothers, Option.map_some,
      Option.bind_some, run?_pure]

/-- Looking up the meanings of words only takes calls from the shelf. -/
theorem spent_of_run?_tokensOf {words : List (List Char)} {state next : ReadState}
    {row : List Token} (h : run? (tokensOf words) state = some (row, next)) :
    state.Spent next := by
  induction words generalizing state row with
  | nil =>
    simp only [tokensOf_nil, run?_pure, Option.some.injEq, Prod.mk.injEq] at h
    rw [← h.2]
    exact Spent.refl state
  | cons word rest ih =>
    simp only [tokensOf_cons, run?_bind, run?_pure, Option.bind_eq_some_iff, Option.some.injEq,
      Prod.mk.injEq, Prod.exists] at h
    obtain ⟨t, middle, hword, others, last, hrest, -, rfl⟩ := h
    rcases token_cases hword with ⟨-, rfl⟩ | ⟨place, call, -, rfl⟩
    · exact ih hrest
    · exact (spent_fetched state place).trans (ih hrest)

/-- If words have meanings, then they have them on their own, or one of them has taken a call
from the shelf. -/
theorem tokensOf_cases {words : List (List Char)} {state next : ReadState} {row : List Token}
    (h : run? (tokensOf words) state = some (row, next)) :
    (words.mapM meaning? = some row ∧ next = state) ∨
      ∃ place call, state.call? place = some call ∧ next.call? place = none := by
  induction words generalizing state row with
  | nil =>
    simp only [tokensOf_nil, run?_pure, Option.some.injEq, Prod.mk.injEq] at h
    obtain ⟨rfl, rfl⟩ := h
    exact .inl ⟨rfl, rfl⟩
  | cons word rest ih =>
    simp only [tokensOf_cons, run?_bind, run?_pure, Option.bind_eq_some_iff, Option.some.injEq,
      Prod.mk.injEq, Prod.exists] at h
    obtain ⟨t, middle, hword, others, last, hrest, rfl, rfl⟩ := h
    rcases token_cases hword with ⟨hmeaning, rfl⟩ | ⟨place, call, hcall, rfl⟩
    · rcases ih hrest with ⟨hothers, rfl⟩ | htaken
      · exact .inl ⟨by simp [hmeaning, hothers], rfl⟩
      · exact .inr htaken
    · have hempty : (state.fetched place).call? place = none := by simp [call?_fetched]
      exact .inr ⟨place, call, hcall, (spent_of_run?_tokensOf hrest).call?_eq_none hempty⟩

end DiceNotation.Notation
