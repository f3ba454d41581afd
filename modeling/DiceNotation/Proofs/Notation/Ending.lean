import DiceNotation.Proofs.Notation.Replacing

/-!
# Lifting ends

Lifting starts again after each replacement, does the same for each argument, and a replacement
can make the text longer. What grows smaller from one text to the next is the number of opening
parentheses: a placeholder has none, so that it cannot open a call together with what stands
around it either. The same number bounds the calls that are set aside.
-/

namespace DiceNotation.Notation

open ReadState

/-- Lifting a text goes on with another one (`lift_of_some`): with an argument of its leftmost
call, or with the text in which that call was replaced, whatever its place on the shelf is. -/
inductive GoesOn : List Char → List Char → Prop
  | argument {text argument : List Char} {site : CallSite}
      (hsite : leftmostCall text = .ok (some site))
      (hargument : argument ∈ argumentTexts site.arguments) : GoesOn argument text
  | replaced {text : List Char} {site : CallSite} (hsite : leftmostCall text = .ok (some site))
      (place : Nat) : GoesOn (site.replaced place) text

/-- Each of some texts has no more opening parentheses than all of them. -/
theorem openings_le_openingsOf {text : List Char} {texts : List (List Char)} (h : text ∈ texts) :
    openings text ≤ openingsOf texts :=
  openings_le_of_sublist (List.sublist_flatten_of_mem h)

/-- The text with which lifting goes on has fewer opening parentheses. -/
theorem openings_lt_of_goesOn {next text : List Char} (h : GoesOn next text) :
    openings next < openings text := by
  cases h with
  | argument hsite hargument =>
    calc openings next ≤ openingsOf (argumentTexts _) := openings_le_openingsOf hargument
      _ ≤ openings _ := openingsOf_argumentTexts_le _
      _ < openings text := openings_arguments_lt hsite
  | replaced hsite place =>
    rw [openings_replaced]
    exact openings_around_lt hsite

/-- Lifting does not go on for ever. -/
theorem wellFounded_goesOn : WellFounded GoesOn :=
  Subrelation.wf openings_lt_of_goesOn (measure openings).wf

/-- No call is left in a text that was lifted. -/
theorem leftmostCall_of_lift {text lifted : List Char} {state last : ReadState}
    (h : lift text state = .ok lifted last) : leftmostCall lifted = .ok none := by
  induction text using wellFounded_goesOn.induction generalizing state with
  | _ text ih =>
    cases hcall : leftmostCall text with
    | error error =>
      rw [lift_of_error hcall] at h
      cases h
    | ok found =>
      cases found with
      | none =>
        rw [lift_of_none hcall] at h
        obtain ⟨rfl, rfl⟩ := Step.pure_eq_ok_iff.mp h
        exact hcall
      | some site =>
        rw [lift_of_some hcall] at h
        obtain ⟨function, _, -, hrest⟩ := Step.bind_eq_ok_iff.mp h
        obtain ⟨parameters, _, -, hrest⟩ := Step.bind_eq_ok_iff.mp hrest
        obtain ⟨place, _, -, hrest⟩ := Step.bind_eq_ok_iff.mp hrest
        exact ih _ (.replaced hcall place) hrest

/-- A step that puts no more than so many calls on the shelf, whether it succeeds or fails. -/
def ShelvesAtMost {α : Type} (calls : Nat) (step : Reading α) : Prop :=
  ∀ state, state.places ≤ (Step.stateOf (step state)).places ∧
    (Step.stateOf (step state)).places ≤ state.places + calls

namespace ShelvesAtMost

variable {α β : Type} {calls more : Nat}

/-- A step that puts at most some calls on the shelf puts at most more calls there. -/
theorem mono {step : Reading α} (h : ShelvesAtMost calls step) (hle : calls ≤ more) :
    ShelvesAtMost more step := by
  intro state
  obtain ⟨hlow, hhigh⟩ := h state
  exact ⟨hlow, by omega⟩

/-- A step that does nothing puts nothing on the shelf. -/
theorem pure (a : α) : ShelvesAtMost calls (pure a) :=
  fun _ => ⟨Nat.le_refl _, Nat.le_add_right _ _⟩

/-- A step that fails puts nothing on the shelf. -/
theorem throw (error : NotationError) : ShelvesAtMost calls (throw error : Reading α) :=
  fun _ => ⟨Nat.le_refl _, Nat.le_add_right _ _⟩

/-- Two steps put on the shelf what the first one and the second one do. -/
theorem bind {step : Reading α} {next : α → Reading β} (h : ShelvesAtMost calls step) (more : Nat)
    (hnext : ∀ a, ShelvesAtMost more (next a)) : ShelvesAtMost (calls + more) (step >>= next) := by
  intro state
  obtain ⟨hlow, hhigh⟩ := h state
  cases hstep : step state with
  | error error middle =>
    rw [hstep] at hlow hhigh
    rw [Step.bind_of_error hstep]
    exact ⟨hlow, Nat.le_trans hhigh (by omega)⟩
  | ok a middle =>
    rw [hstep] at hlow hhigh
    rw [Step.bind_of_ok hstep]
    obtain ⟨hlow', hhigh'⟩ := hnext a middle
    exact ⟨Nat.le_trans hlow hlow', by simp only [Step.stateOf] at hhigh; omega⟩

end ShelvesAtMost

private theorem shelvesAtMost_builtin (name : List Char) : ShelvesAtMost 0 (builtin name) := by
  unfold builtin
  split
  · exact .pure _
  · exact .throw _

private theorem shelvesAtMost_shelve (call : Expr) : ShelvesAtMost 1 (shelve call) := by
  intro state
  have hplaces : (Step.stateOf (shelve call state)).places = state.places + 1 :=
    places_shelved state call
  omega

/-- Fetching puts nothing on the shelf. -/
theorem shelvesAtMost_fetch? (place : Nat) : ShelvesAtMost 0 (fetch? place) := by
  intro state
  cases hcall : state.call? place with
  | none =>
    rw [fetch?_of_none hcall]
    exact ⟨Nat.le_refl _, Nat.le_refl _⟩
  | some call =>
    rw [fetch?_of_some hcall]
    have hplaces := places_fetched state place
    exact ⟨Nat.le_of_eq hplaces.symm, Nat.le_of_eq hplaces⟩

private theorem shelvesAtMost_token (word : List Char) : ShelvesAtMost 0 (token word) := by
  unfold token Shelving.token
  split
  · refine (shelvesAtMost_fetch? _).bind 0 fun found => ?_
    cases found with
    | none => exact .throw _
    | some call => exact .pure _
  · split
    · exact .pure _
    · exact .throw _
  · split
    · exact .pure _
    · exact .throw _
  all_goals exact .pure _

/-- Looking up words puts nothing on the shelf. -/
theorem shelvesAtMost_tokensOf (words : List (List Char)) : ShelvesAtMost 0 (tokensOf words) := by
  induction words with
  | nil => exact .pure _
  | cons word rest ih =>
    exact (shelvesAtMost_token word).bind 0 fun first =>
      ih.bind 0 fun others => .pure _

private theorem shelvesAtMost_bound (row : List Token) : ShelvesAtMost 0 (bound row) := by
  intro state
  cases hrow : bindTokens row with
  | ok exprs =>
    rw [bound_of_ok hrow]
    exact ⟨Nat.le_refl _, Nat.le_refl _⟩
  | error error =>
    rw [bound_of_error hrow]
    exact ⟨Nat.le_refl _, Nat.le_refl _⟩

/-- Lifting sets no more calls aside than there are opening parentheses, those in the arguments
included, and so does reading arguments. -/
theorem shelvesAtMost_lift :
    (∀ text, ShelvesAtMost (openings text) (lift text)) ∧
      ∀ arguments, ShelvesAtMost (openingsOf arguments) (readArguments arguments) := by
  refine Shelving.lift.mutual_induct _ _ ?error ?none ?call ?nil ?cons
  case error =>
    intro text error herror
    rw [lift_of_error herror]
    exact .throw error
  case none =>
    intro text hnone
    rw [lift_of_none hnone]
    exact .pure text
  case call =>
    intro text site hsite iharguments ihreplaced
    have hinside := openingsOf_argumentTexts_le site.arguments
    have hsource := source_of_leftmostCall hsite
    -- one parenthesis is that of the call itself, and the other ones stand inside and around it
    have hopenings : openings site.arguments + (1 + (openings site.before + openings site.after)) ≤
        openings text := by
      rw [← hsource]
      simp only [CallSite.source, openings_append, openings_cons_self, List.append_assoc,
        List.cons_append, openings_cons_of_ne (show ')' ≠ '(' by decide)]
      omega
    have hall := (shelvesAtMost_builtin site.name).bind _ fun function =>
      iharguments.bind _ fun parameters =>
        (shelvesAtMost_shelve (.call function parameters)).bind _ fun place =>
          openings_replaced site place ▸ ihreplaced place
    rw [lift_of_some hsite]
    exact hall.mono (by omega)
  case nil =>
    rw [readArguments_nil]
    exact .pure []
  case cons =>
    intro argument rest ihargument ihrest
    have hall := ihargument.bind _ fun lifted =>
      (shelvesAtMost_tokensOf (wordsOf lifted)).bind _ fun row =>
        (shelvesAtMost_bound row).bind _ fun exprs =>
          ihrest.bind 0 fun others => .pure (exprs ++ others)
    rw [readArguments_cons]
    refine hall.mono ?_
    rw [openingsOf_cons]
    omega

/-- Lifting ends for every text and whatever lies on the shelf. The texts with which it goes on
have fewer and fewer opening parentheses, although they can be longer. No call is left in the
text in the end, and no more calls were set aside than there were opening parentheses, also if
lifting has failed. -/
theorem lift_ends (text : List Char) (state : ReadState) :
    (∀ next, GoesOn next text → openings next < openings text) ∧
      WellFounded GoesOn ∧
      (∃ short long, GoesOn long short ∧ short.length < long.length) ∧
      (∀ lifted last, lift text state = .ok lifted last → leftmostCall lifted = .ok none) ∧
      state.places ≤ (Step.stateOf (lift text state)).places ∧
      (Step.stateOf (lift text state)).places ≤ state.places + openings text := by
  refine ⟨fun next => openings_lt_of_goesOn, wellFounded_goesOn, ?_,
    fun lifted last => leftmostCall_of_lift, shelvesAtMost_lift.1 text state⟩
  have hsite : leftmostCall "max()".toList = .ok (some ⟨[], "max".toList, [], []⟩) := rfl
  exact ⟨_, _, .replaced hsite 0, by decide⟩

end DiceNotation.Notation
