import DiceNotation.Proofs.Filling.Words
import DiceNotation.Proofs.Notation.Binding
import DiceNotation.Proofs.Notation.Replacing

/-!
# Reading texts with references and with values

A text and the same text with values are read in step: each step fails in both runs with errors
of the same kind, or succeeds in both, and then what was read from the text with values is what
was read from the other one, with values in the place of variables.
-/

namespace DiceNotation

namespace Expr

mutual

/-- The expression with values in the place of the variables that have one. -/
def fill (table : Variables) : Expr → Expr
  | .number value => .number value
  | .variable name =>
    match table.get? name with
    | some value => .number value
    | none => .variable name
  | .dice pool => .dice pool
  | .operation left operator right => .operation (left.fill table) operator (right.fill table)
  | .call function parameters => .call function (fillAll table parameters)

/-- The expressions with values in the place of the variables that have one. -/
def fillAll (table : Variables) : List Expr → List Expr
  | [] => []
  | e :: rest => e.fill table :: fillAll table rest

end

private theorem fillAll_append (table : Variables) (first second : List Expr) :
    fillAll table (first ++ second) = fillAll table first ++ fillAll table second := by
  induction first with
  | nil => rfl
  | cons e rest ih => rw [List.cons_append, fillAll, ih, fillAll, List.cons_append]

private theorem fillAll_toList (table : Variables) (e : Option Expr) :
    fillAll table e.toList = (e.map (fill table)).toList := by
  cases e <;> rfl

end Expr

namespace NotationError

/-- The kinds of faults that a caller can tell apart. -/
inductive Kind where
  | invalidDie
  | unknownFunction
  | malformed
  deriving DecidableEq

/-- The kind of a fault. All faults but two are about a text that is malformed. -/
def kind : NotationError → Kind
  | .invalidDie .. => .invalidDie
  | .unknownFunction .. => .unknownFunction
  | _ => .malformed

end NotationError

namespace Reference

open Notation
open Text (isNameChar integerText)

/-- Two states of reading with the same calls on the shelf, except that the calls of the second
one have values in the place of variables. -/
def FilledState (table : Variables) (state filled : ReadState) : Prop :=
  filled.shelf = state.shelf.map (Option.map (Expr.fill table))

/-- Two steps of reading go together: from related states both fail with errors of the same
kind, or both succeed with related results and leave related states. -/
def Together {α β : Type} (table : Variables) (related : α → β → Prop) (step : Reading α)
    (filledStep : Reading β) : Prop :=
  ∀ state filled, FilledState table state filled →
    (∃ error error' next next', step state = .error error next ∧
      filledStep filled = .error error' next' ∧ error.kind = error'.kind) ∨
    ∃ a b next next', step state = .ok a next ∧ filledStep filled = .ok b next' ∧
      related a b ∧ FilledState table next next'

namespace Together

variable {table : Variables} {α β γ δ : Type}

/-- Steps that give related results without doing anything go together. -/
theorem pure {related : α → β → Prop} {a : α} {b : β} (h : related a b) :
    Together table related (pure a) (pure b) :=
  fun state filled hstate => .inr ⟨a, b, state, filled, rfl, rfl, h, hstate⟩

/-- Steps that fail in the same way go together. -/
theorem throw {related : α → β → Prop} {error error' : NotationError}
    (h : error.kind = error'.kind) :
    Together table related (throw error) (throw error') :=
  fun state filled _ => .inl ⟨error, error', state, filled, rfl, rfl, h⟩

/-- Steps that go together may be followed by steps that go together on related results. -/
theorem bind {related : α → β → Prop} {relatedNext : γ → δ → Prop} {step : Reading α}
    {filledStep : Reading β} {next : α → Reading γ} {filledNext : β → Reading δ}
    (h : Together table related step filledStep)
    (hnext : ∀ a b, related a b → Together table relatedNext (next a) (filledNext b)) :
    Together table relatedNext (step >>= next) (filledStep >>= filledNext) := by
  intro state filled hstate
  rcases h state filled hstate with
    ⟨error, error', last, last', hs, ht, hkind⟩ | ⟨a, b, last, last', hs, ht, hrelated, hlast⟩
  · rw [Step.bind_of_error hs, Step.bind_of_error ht]
    exact .inl ⟨error, error', last, last', rfl, rfl, hkind⟩
  · rw [Step.bind_of_ok hs, Step.bind_of_ok ht]
    exact hnext a b hrelated last last' hlast

end Together

variable {table : Variables}

/-- The states at the start go together. -/
theorem filledState_empty (table : Variables) : FilledState table {} {} := by
  unfold FilledState
  rw [Array.map_empty]

/-- A place holds the call with values if the place of the other state holds the call. -/
theorem FilledState.call? {state filled : ReadState} (h : FilledState table state filled)
    (place : Nat) : filled.call? place = (state.call? place).map (Expr.fill table) := by
  unfold ReadState.call?
  rw [h, Array.getElem?_map]
  cases state.shelf[place]? with
  | none => rfl
  | some content => rfl

/-- Fetching from the same place keeps states together. -/
theorem FilledState.fetched {state filled : ReadState} (h : FilledState table state filled)
    (place : Nat) : FilledState table (state.fetched place) (filled.fetched place) := by
  unfold FilledState ReadState.fetched at *
  rw [h, Array.map_setIfInBounds]
  rfl

/-- Related calls are put on the same place. -/
theorem shelve_together (call : Expr) :
    Together table Eq (shelve call) (shelve (call.fill table)) := by
  intro state filled hstate
  have hplaces : state.shelf.size = filled.shelf.size := by rw [hstate, Array.size_map]
  refine .inr ⟨state.shelf.size, filled.shelf.size, state.shelved call,
    filled.shelved (call.fill table), rfl, rfl, hplaces, ?_⟩
  unfold FilledState ReadState.shelved
  rw [hstate, Array.map_push]
  rfl

/-- Related calls are fetched from the same place. -/
theorem fetch?_together (place : Nat) :
    Together table (fun call filled => filled = call.map (Expr.fill table)) (fetch? place)
      (fetch? place) := by
  intro state filled hstate
  have hcall := hstate.call? place
  cases h : state.call? place with
  | none =>
    rw [h, Option.map_none] at hcall
    exact .inr ⟨none, none, state, filled, fetch?_of_none h, fetch?_of_none hcall, rfl, hstate⟩
  | some call =>
    rw [h, Option.map_some] at hcall
    exact .inr ⟨some call, some (call.fill table), _, _, fetch?_of_some h, fetch?_of_some hcall,
      rfl, hstate.fetched place⟩

/-- A token of a text, and the token of the text with values at the same place. -/
inductive FilledToken (table : Variables) : Token → Token → Prop
  | operand (e : Expr) : FilledToken table (.operand e) (.operand (e.fill table))
  | operator (operator : Operator) : FilledToken table (.operator operator) (.operator operator)
  | stray (word filled : List Char) : FilledToken table (.stray word) (.stray filled)

/-- A word that is not a variable means the same whether variables have values or not. -/
theorem token_together_self {word : List Char} (h : ∀ name, Word.ofChars word ≠ .variable name) :
    Together table (FilledToken table) (token word) (token word) := by
  unfold token Shelving.token
  cases hword : Word.ofChars word with
  | placeholder numeral =>
    refine (fetch?_together (Text.numeralValue numeral)).bind ?_
    rintro call _ rfl
    cases call with
    | none => exact .throw rfl
    | some call => exact .pure (.operand call)
  | integer isNegative numeral =>
    dsimp only
    cases integer? isNegative numeral with
    | none => exact .throw rfl
    | some value => exact .pure (.operand (.number value))
  | dice count size =>
    dsimp only
    cases pool word count size with
    | error error => exact .throw rfl
    | ok pool => exact .pure (.operand (.dice pool))
  | operator operator => exact .pure (.operator operator)
  | «variable» name => exact absurd hword (h name)
  | stray => exact .pure (.stray word word)

/-- The words at the same place have tokens that go together. -/
theorem token_together {word filled : List Char} (h : Filled table true word filled) :
    Together table (FilledToken table) (token word) (token filled) := by
  rcases word_cases h with
    ⟨rfl, hhead⟩ | ⟨name, value, hname, hchars, hvalue, rfl, rfl⟩ | ⟨hword, hfilled⟩
  · exact token_together_self fun name => ofChars_ne_variable hhead
  · rw [token_reference hname hchars, token_integerText]
    have hfill : Expr.fill table (.variable (String.ofList name)) = .number value := by
      rw [Expr.fill, hvalue]
    exact .pure (hfill ▸ .operand _)
  · rw [token, token, Shelving.token, Shelving.token, hword, hfilled]
    exact .pure (.stray word filled)

/-- The words of the two texts have rows of tokens that go together. -/
theorem tokensOf_together {words filled : List (List Char)}
    (h : List.Forall₂ (Filled table true) words filled) :
    Together table (List.Forall₂ (FilledToken table)) (tokensOf words) (tokensOf filled) := by
  induction h with
  | nil => exact .pure .nil
  | cons hword _ ih =>
    exact (token_together hword).bind fun _ _ hfirst =>
      ih.bind fun _ _ hothers => .pure (.cons hfirst hothers)

/-- The two texts without calls have rows of tokens that go together. -/
theorem tokens_together {text filled : List Char} (h : Filled table true text filled) :
    Together table (List.Forall₂ (FilledToken table)) (tokens text) (tokens filled) :=
  tokensOf_together (wordsOf_filled h)

/-- Operators bind the same way whether variables have values or not. -/
theorem bindAfter_filled (left : Option Expr) {row filled : List Token}
    (h : List.Forall₂ (FilledToken table) row filled) :
    bindAfter (left.map (Expr.fill table)) filled =
      (bindAfter left row).map (Expr.fillAll table) := by
  fun_induction bindAfter left row generalizing filled with
  | case1 left =>
    cases h
    rw [bindAfter, Except.map, Expr.fillAll_toList]
  | case2 left e rest result hrest ih
  | case3 left e rest result hrest ih =>
    cases h with
    | cons htoken hothers =>
      cases htoken
      have hnext : bindAfter (some (e.fill table)) _ = _ := ih hothers
      rw [bindAfter_operand, hnext, hrest]
      simp only [Except.map, Expr.fillAll_append, Expr.fillAll_toList]
  | case4 left word rest result hrest ih
  | case5 left word rest result hrest ih =>
    cases h with
    | cons htoken hothers =>
      cases htoken
      have hnext : bindAfter none _ = _ := ih hothers
      rw [bindAfter_stray, hnext, hrest]
      simp only [Except.map, Expr.fillAll_append, Expr.fillAll_toList]
  | case6 operator rest =>
    cases h with
    | cons htoken hothers =>
      cases htoken
      rfl
  | case7 operator l r rest ih =>
    cases h with
    | cons htoken hothers =>
      cases htoken
      cases hothers with
      | cons htoken hothers =>
        cases htoken
        exact ih hothers
  | case8 operator rest l hrest =>
    cases h with
    | cons htoken hothers =>
      cases htoken
      cases hothers with
      | nil => rfl
      | cons htoken hothers =>
        cases htoken with
        | operand e => exact absurd rfl (hrest e _)
        | operator operator => rfl
        | stray word filled => rfl

/-- Binding gives the expressions with values. -/
theorem bound_together {row filled : List Token}
    (h : List.Forall₂ (FilledToken table) row filled) :
    Together table (fun exprs values => values = Expr.fillAll table exprs) (bound row)
      (bound filled) := by
  intro state filledState hstate
  have hbind : bindTokens filled = (bindTokens row).map (Expr.fillAll table) :=
    bindAfter_filled none h
  cases hrow : bindTokens row with
  | ok exprs =>
    rw [hrow] at hbind
    exact .inr ⟨exprs, _, _, _, bound_of_ok hrow state, bound_of_ok hbind filledState, rfl, hstate⟩
  | error error =>
    rw [hrow] at hbind
    exact .inl ⟨error, error, _, _, bound_of_error hrow state, bound_of_error hbind filledState,
      rfl⟩

/-- A name names the same function in both texts. -/
theorem builtin_together (name : List Char) : Together table Eq (builtin name) (builtin name) := by
  unfold builtin
  cases Builtin.ofName? (String.ofList name) with
  | none => exact .throw rfl
  | some function => exact .pure rfl

/-- A text stays related when related calls in it are replaced by one placeholder. -/
theorem FilledSite.replaced {site filled : CallSite} (h : FilledSite table site filled)
    (place : Nat) : Filled table true (site.replaced place) (filled.replaced place) := by
  have hspace : (' ' : Char) ≠ '$' := by decide
  have hafter (mayRefer : Bool) : Filled table mayRefer (' ' :: site.after) (' ' :: filled.after) :=
    .char hspace h.after.mono
  have hplaceholder : Filled table (opens ' ') (placeholder place ++ ' ' :: site.after)
      (placeholder place ++ ' ' :: filled.after) :=
    Filled.plain_append (fun c hc => (toNat_of_mem_placeholder hc).2.2) hafter
  rw [replaced_eq, replaced_eq]
  exact h.before.append (by rfl) (.char hspace hplaceholder)

/-- Lifting the calls out of a text and out of the text with values goes together, and so does
reading arguments. -/
theorem lift_together :
    (∀ text filled, Filled table true text filled →
      Together table (Filled table true) (lift text) (lift filled)) ∧
    (∀ arguments filled, List.Forall₂ (Filled table true) arguments filled →
      Together table (fun exprs values => values = Expr.fillAll table exprs)
        (readArguments arguments) (readArguments filled)) := by
  refine Shelving.lift.mutual_induct _ _ ?error ?none ?call ?nil ?cons
  case error =>
    intro text error herror filled h
    rcases leftmostCall_filled h with ⟨_, _, hs, ht⟩ | ⟨hs, -⟩ | ⟨_, _, hs, -, -⟩
    · rw [lift_of_error hs, lift_of_error ht]
      exact .throw rfl
    · simp [herror] at hs
    · simp [herror] at hs
  case none =>
    intro text hnone filled h
    rcases leftmostCall_filled h with ⟨_, _, hs, -⟩ | ⟨hs, ht⟩ | ⟨_, _, hs, -, -⟩
    · simp [hnone] at hs
    · rw [lift_of_none hs, lift_of_none ht]
      exact .pure h
    · simp [hnone] at hs
  case call =>
    intro text site hsite iharguments ihreplaced filled h
    rcases leftmostCall_filled h with ⟨_, _, hs, -⟩ | ⟨hs, -⟩ | ⟨site', filledSite, hs, ht, hsites⟩
    · simp [hsite] at hs
    · simp [hsite] at hs
    · rw [hsite, Except.ok.injEq, Option.some.injEq] at hs
      subst hs
      rw [lift_of_some hsite, lift_of_some ht, ← hsites.name]
      refine (builtin_together site.name).bind ?_
      rintro function _ rfl
      refine (iharguments _ (argumentTexts_filled hsites.arguments)).bind ?_
      rintro parameters _ rfl
      refine (shelve_together (.call function parameters)).bind ?_
      rintro place _ rfl
      exact ihreplaced place _ (hsites.replaced place)
  case nil =>
    intro filled h
    cases h
    rw [readArguments_nil]
    exact .pure rfl
  case cons =>
    intro argument rest ihargument ihrest filled h
    cases h with
    | cons hargument hrest =>
      rw [readArguments_cons, readArguments_cons]
      refine (ihargument _ hargument).bind fun text filled htext => ?_
      refine (tokens_together htext).bind fun row filled hrow => ?_
      refine (bound_together hrow).bind ?_
      rintro exprs _ rfl
      refine (ihrest _ hrest).bind ?_
      rintro others _ rfl
      exact .pure (Expr.fillAll_append table exprs others).symm

/-- The error about a text without expressions is that the notation is malformed. -/
theorem kind_nothingRead (text : List Char) (row : List Token) :
    (nothingRead text row).kind = .malformed := by
  unfold nothingRead
  split <;> rfl

/-- Reading a text and reading the text with values goes together. -/
theorem readChars_together {text filled : List Char} (h : Filled table true text filled) :
    Together table (fun exprs values => values = Expr.fillAll table exprs) (readChars text)
      (readChars filled) := by
  rw [readChars_eq, readChars_eq]
  refine (lift_together.1 text filled h).bind fun lifted filledLifted hlifted => ?_
  refine (tokens_together hlifted).bind fun row filledRow hrow => ?_
  refine (bound_together hrow).bind ?_
  rintro exprs _ rfl
  cases exprs with
  | nil =>
    exact .throw (by rw [kind_nothingRead, kind_nothingRead])
  | cons e rest => exact .pure rfl

/-- A notation is read if its characters are. -/
theorem read_of_ok {text : String} {exprs : List Expr} {state : ReadState}
    (h : readChars text.toList {} = .ok exprs state) : read text = .ok exprs := by
  unfold Notation.read readNoting
  rw [h]

/-- A notation is refused if its characters are. -/
theorem read_of_error {text : String} {error : NotationError} {state : ReadState}
    (h : readChars text.toList {} = .error error state) : read text = .error error := by
  unfold Notation.read readNoting
  rw [h]

end Reference

end DiceNotation
