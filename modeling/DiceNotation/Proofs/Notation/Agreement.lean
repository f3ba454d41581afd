import DiceNotation.Proofs.Notation.Replacing

/-!
# Reading with a shelf is reading in one piece

Reading sets calls aside and fetches them by words that stand for them, and the shelf is shared
by a text, the arguments in it, and the arguments in those. The calls that a text has set aside
are exactly those that its own words fetch, so that nothing on the shelf is left for words
outside of the text, and nothing from outside is taken. For that reason the result is the one of
the direct reading.
-/

namespace DiceNotation.Notation

open ReadState

/-- Lifting and reading arguments only add places to the shelf and empty some. -/
theorem later_of_lifts :
    (∀ text : List Char, ∀ state next lifted,
      run? (lift text) state = some (lifted, next) → state.Later next) ∧
    (∀ arguments : List (List Char), ∀ state next exprs,
      run? (readArguments arguments) state = some (exprs, next) → state.Later next) := by
  refine row?.mutual_induct _ _ ?error ?none ?call ?nil ?cons
  case error =>
    intro text error herror state next lifted h
    simp [run?_lift_error herror] at h
  case none =>
    intro text hnone state next lifted h
    simp only [run?_lift_none hnone, Option.some.injEq, Prod.mk.injEq] at h
    rw [← h.2]
    exact (Spent.refl state).later
  case call =>
    intro text site hsite iharguments ihafter state next lifted h
    simp only [run?_lift_some hsite, Option.bind_eq_some_iff, Option.map_eq_some_iff,
      Prod.mk.injEq, Prod.exists] at h
    obtain ⟨function, -, exprs, middle, hexprs, rest, last, hrest, -, rfl⟩ := h
    exact ((iharguments _ _ _ hexprs).trans (later_shelved _ _)).trans (ihafter _ _ _ hrest)
  case nil =>
    intro state next exprs h
    rw [readArguments_nil, run?_pure, Option.some.injEq, Prod.mk.injEq] at h
    rw [← h.2]
    exact (Spent.refl state).later
  case cons =>
    intro argument rest ihargument ihrest state next exprs h
    simp only [run?_readArguments_cons, Option.bind_eq_some_iff, Option.map_eq_some_iff,
      Prod.mk.injEq, Prod.exists] at h
    obtain ⟨lifted, s₁, hlift, row, s₂, hrow, first, -, others, s₃, hothers, -, rfl⟩ := h
    have hargument : state.Later s₁ := ihargument _ _ _ hlift
    have hnoted : s₁.Spent (s₂.noted row) := (spent_of_run?_tokensOf hrow).trans (spent_noted _ _)
    exact (hargument.trans hnoted.later).trans (ihrest _ _ _ hothers)

/-- The places from a given one on hold the same calls in two states. -/
def ReadState.Agrees (bound : Nat) (state other : ReadState) : Prop :=
  ∀ place, bound ≤ place → other.call? place = state.call? place

/-- The places from a given one on are empty. -/
def ReadState.Clears (bound : Nat) (state : ReadState) : Prop :=
  ∀ place, bound ≤ place → state.call? place = none

/-- If a text can be lifted and its words have meanings, and no call from before the text was
taken, then the text is read in one piece to the same tokens, and its words have fetched all
calls that lifting has put on the shelf. -/
def ReadsDirectly (text : List Char) : Prop :=
  ∀ start lifted middle late row last,
    run? (lift text) start = some (lifted, middle) → middle.Spent late →
    run? (tokens lifted) late = some (row, last) →
    Keeps start.places start middle → Keeps start.places late last →
    row? text = some row ∧ Agrees start.places middle late ∧ Clears start.places last

/-- If the arguments of a call can be read, and no call from before was taken, then they are
read in one piece to the same parameters, and leave no calls on the shelf. -/
def ReadsParameters (arguments : List (List Char)) : Prop :=
  ∀ start parameters last,
    run? (readArguments arguments) start = some (parameters, last) →
    Keeps start.places start last →
    parameters? arguments = some parameters ∧ Clears start.places last

/-- Words that leave each call on the shelf mean what they mean on their own. -/
theorem meanings_of_kept {words : List (List Char)} {state next : ReadState} {row : List Token}
    (h : run? (tokensOf words) state = some (row, next))
    (hkept : ∀ place, next.call? place = none → state.call? place = none) :
    words.mapM meaning? = some row ∧ next = state := by
  rcases tokensOf_cases h with hmeanings | ⟨place, call, hcall, hempty⟩
  · exact hmeanings
  · rw [hkept place hempty] at hcall
    simp at hcall

/-- A text with a call that is not closed has no tokens. -/
theorem row?_of_error {text : List Char} {error : NotationError}
    (h : leftmostCall text = .error error) : row? text = none := by
  rw [row?]
  split <;> simp_all

/-- Without a call, the tokens of a text are the meanings of its words. -/
theorem row?_of_none {text : List Char} (h : leftmostCall text = .ok none) :
    row? text = (wordsOf text).mapM meaning? := by
  rw [row?]
  split <;> simp_all

/-- With a call, they are those of the words before it, the call, and those of the text after it. -/
theorem row?_of_some {text : List Char} {site : CallSite}
    (h : leftmostCall text = .ok (some site)) :
    row? text =
      ((wordsOf site.before).mapM meaning?).bind fun before =>
        (Builtin.ofName? (String.ofList site.name)).bind fun function =>
          (parameters? (argumentTexts site.arguments)).bind fun parameters =>
            (row? site.after).map fun after =>
              before ++ .operand (.call function parameters) :: after := by
  rw [row?]
  split
  · simp_all
  · simp_all
  · next found hfound =>
    rw [h, Except.ok.injEq, Option.some.injEq] at hfound
    subst hfound
    simp only [Option.bind_eq_bind, Option.pure_def, Option.map_eq_bind]
    rfl

/-- A text without calls takes nothing from the shelf. -/
theorem readsDirectly_none {text : List Char} (hnone : leftmostCall text = .ok none) :
    ReadsDirectly text := by
  intro start lifted middle late row last hlift hlate hrow _ hkeeps
  simp only [run?_lift_none hnone, Option.some.injEq, Prod.mk.injEq] at hlift
  obtain ⟨rfl, rfl⟩ := hlift
  have hkept : ∀ place, last.call? place = none → late.call? place = none := by
    intro place hempty
    by_cases hplace : place < start.places
    · rw [← hkeeps place hplace, hempty]
    · exact call?_eq_none (by rw [hlate.places]; omega)
  obtain ⟨hmeanings, rfl⟩ := meanings_of_kept hrow hkept
  have hclears (state : ReadState) (h : state.places = start.places) : Clears start.places state :=
    fun place hplace => call?_eq_none (by omega)
  refine ⟨?_, ?_, hclears last hlate.places⟩
  · rw [row?_of_none hnone, hmeanings]
  · intro place hplace
    rw [hclears last hlate.places place hplace, hclears start rfl place hplace]

/-- If the arguments of a call have left nothing on the shelf, then the places up to that of the
call are empty. -/
theorem call?_eq_none_before_call {bound place : Nat} {read middle : ReadState} {call : Expr}
    (hclears : Clears bound read) (hlater : (read.shelved call).Later middle)
    (hfrom : bound ≤ place) (hto : place < read.places) : middle.call? place = none := by
  refine hlater.call?_eq_none (by rw [places_shelved]; omega) ?_
  rw [call?_shelved, if_neg (by omega)]
  exact hclears place hfrom

/-- If a call is still on the shelf after the text behind it was lifted, then so is all that was
there when it was put there. -/
theorem keeps_of_shelved {bound : Nat} {read middle : ReadState} {call : Expr}
    (hclears : Clears bound read) (hkeeps : Keeps bound read middle)
    (hlater : (read.shelved call).Later middle) (hbound : bound ≤ read.places)
    (hcall : middle.call? read.places = some call) :
    Keeps (read.places + 1) (read.shelved call) middle := by
  have hold (place : Nat) (hplace : place < read.places) :
      (read.shelved call).call? place = read.call? place := by
    rw [call?_shelved, if_neg (by omega)]
  have hbefore : Keeps bound (read.shelved call) middle := by
    intro place hplace
    rw [hold place (by omega), hkeeps place hplace]
  have hplaces : read.places ≤ (read.shelved call).places := by simp
  have hupto : Keeps read.places (read.shelved call) middle := by
    refine hbefore.extend hlater hplaces fun place hfrom hto => ?_
    rw [hold place hto]
    exact hclears place hfrom
  exact hupto.succ (by rw [hcall, call?_shelved, if_pos rfl])

/-- If all calls from before are kept to the end, and those after a call are as they were set
aside, then the words before the call have taken none. -/
theorem kept_before_call {bound place : Nat} {middle late before last : ReadState} {call : Expr}
    (hlate : middle.Spent late) (hkeeps : Keeps bound late last)
    (hbetween : ∀ other, bound ≤ other → other < place → middle.call? other = none)
    (hcall : before.call? place = some call) (hlast : (before.fetched place).Spent last)
    (hagrees : Agrees (place + 1) middle (before.fetched place)) {other : Nat}
    (htaken : before.call? other = none) : late.call? other = none := by
  have hgone : (before.fetched place).call? other = none :=
    (spent_fetched before place).call?_eq_none htaken
  by_cases hother : other < bound
  · rw [← hkeeps other hother, hlast.call?_eq_none hgone]
  · rcases Nat.lt_trichotomy other place with hlt | rfl | hgt
    · exact hlate.call?_eq_none (hbetween other (by omega) hlt)
    · simp [htaken] at hcall
    · exact hlate.call?_eq_none ((hagrees other hgt).symm.trans hgone)

/-- The words of a text with a call fetch that call and those that the text after it has set
aside. -/
theorem readsDirectly_call {text : List Char} {site : CallSite}
    (hsite : leftmostCall text = .ok (some site))
    (harguments : ReadsParameters (argumentTexts site.arguments))
    (hafter : ReadsDirectly site.after) : ReadsDirectly text := by
  intro start lifted middle late row last hlift hlate hrow hstart hkeeps
  simp only [run?_lift_some hsite, Option.bind_eq_some_iff, Option.map_eq_some_iff,
    Prod.mk.injEq, Prod.exists] at hlift
  obtain ⟨function, hfunction, parameters, read, hread, rest, middle', hrest, rfl, rfl⟩ := hlift
  simp only [run?_tokens_placed, Option.bind_eq_some_iff, Option.map_eq_some_iff,
    Prod.mk.injEq, Prod.exists] at hrow
  obtain ⟨before, t₁, hbefore, call, hcall, after, last', hlast, rfl, rfl⟩ := hrow
  -- how the states follow each other
  have hstartRead : start.Later read := later_of_lifts.2 _ _ _ _ hread
  have hreadMiddle : (read.shelved (.call function parameters)).Later middle' :=
    later_of_lifts.1 _ _ _ _ hrest
  have hreadLater : read.Later middle' := (later_shelved _ _).trans hreadMiddle
  have hlateBefore : late.Spent t₁ := spent_of_run?_tokensOf hbefore
  have hlateFetched : late.Spent (t₁.fetched read.places) :=
    hlateBefore.trans (spent_fetched t₁ read.places)
  have hfetchedLast : (t₁.fetched read.places).Spent last' := spent_of_run?_tokensOf hlast
  have hplaces : start.places ≤ read.places := hstartRead.places
  have hnext : read.places + 1 ≤ (t₁.fetched read.places).places := by
    rw [hlateFetched.places, hlate.places]
    exact Nat.le_trans (by simp) hreadMiddle.places
  -- the arguments leave the places between those from before and that of the call empty
  obtain ⟨hparameters, hclears⟩ := harguments start parameters read hread
    (hstart.left hstartRead hreadLater (Nat.le_refl _))
  have hbetween : ∀ place, start.places ≤ place → place < read.places →
      middle'.call? place = none := fun place => call?_eq_none_before_call hclears hreadMiddle
  -- the placeholder fetches the call itself
  have hmiddle : middle'.call? read.places = some call :=
    hlate.call?_eq_some (hlateBefore.call?_eq_some hcall)
  obtain rfl : call = .call function parameters := hreadMiddle.eq_of_shelved hmiddle
  have hempty : ∀ place, start.places ≤ place → place < read.places + 1 →
      (t₁.fetched read.places).call? place = none := by
    intro place hfrom hto
    rw [call?_fetched]
    by_cases hcallPlace : place = read.places
    · rw [if_pos hcallPlace]
    · rw [if_neg hcallPlace]
      exact (hlate.trans hlateBefore).call?_eq_none (hbetween place hfrom (by omega))
  -- so the text after the call is read from the same shelf on which it was lifted
  have hkeepsMiddle : Keeps (read.places + 1) (read.shelved (.call function parameters)) middle' :=
    keeps_of_shelved hclears (hstart.right hstartRead hreadLater (Nat.le_refl _)) hreadMiddle
      hplaces hmiddle
  have hkeepsLast : Keeps (read.places + 1) (t₁.fetched read.places) last' := by
    have hbound : start.places ≤ late.places := by
      rw [hlate.places]
      exact Nat.le_trans hplaces hreadLater.places
    exact (hkeeps.right hlateFetched.later hfetchedLast.later hbound).extend hfetchedLast.later
      hnext hempty
  rw [← places_shelved read (.call function parameters)] at hkeepsMiddle hkeepsLast
  obtain ⟨hrowAfter, hagrees, hclearsLast⟩ :=
    hafter _ _ _ _ _ _ hrest (hlate.trans hlateFetched) hlast hkeepsMiddle hkeepsLast
  rw [places_shelved] at hagrees hclearsLast
  -- and the words before the call have taken nothing
  obtain ⟨hmeanings, rfl⟩ := meanings_of_kept hbefore fun place =>
    kept_before_call hlate hkeeps hbetween hcall hfetchedLast hagrees
  refine ⟨?_, ?_, ?_⟩
  · rw [row?_of_some hsite, hmeanings, hfunction, hparameters, hrowAfter]
    rfl
  · intro place hplace
    rcases Nat.lt_trichotomy place read.places with hlt | rfl | hgt
    · rw [hbetween place hplace hlt, hlate.call?_eq_none (hbetween place hplace hlt)]
    · rw [hcall, hmiddle]
    · rw [← hagrees place hgt, call?_fetched, if_neg (by omega)]
  · intro place hplace
    by_cases hto : place < read.places + 1
    · exact hfetchedLast.call?_eq_none (hempty place hplace hto)
    · exact hclearsLast place (by omega)

/-- Arguments are read in one piece if the first one and the others are. -/
theorem readsParameters_cons {argument : List Char} {rest : List (List Char)}
    (hargument : ReadsDirectly argument) (hrest : ReadsParameters rest) :
    ReadsParameters (argument :: rest) := by
  intro start parameters last hread hkeeps
  simp only [run?_readArguments_cons, Option.bind_eq_some_iff, Option.map_eq_some_iff,
    Prod.mk.injEq, Prod.exists] at hread
  obtain ⟨lifted, s₁, hlift, row, s₂, hrow, exprs, hexprs, others, s₃, hothers, rfl, rfl⟩ := hread
  have h₁ : start.Later s₁ := later_of_lifts.1 _ _ _ _ hlift
  have h₂ : s₁.Later (s₂.noted row) := ((spent_of_run?_tokensOf hrow).trans (spent_noted _ _)).later
  have h₃ : (s₂.noted row).Later s₃ := later_of_lifts.2 _ _ _ _ hothers
  have hkeeps₁ : Keeps start.places start s₁ := hkeeps.left h₁ (h₂.trans h₃) (Nat.le_refl _)
  have hkeeps₂ : Keeps start.places s₁ (s₂.noted row) :=
    (hkeeps.right h₁ (h₂.trans h₃) (Nat.le_refl _)).left h₂ h₃ h₁.places
  obtain ⟨hrowArgument, -, hclears⟩ :=
    hargument start lifted s₁ s₁ row s₂ hlift (Spent.refl s₁) hrow hkeeps₁ hkeeps₂
  have hkeeps₃ : Keeps (s₂.noted row).places (s₂.noted row) s₃ :=
    (hkeeps.right (h₁.trans h₂) h₃ (Nat.le_refl _)).extend h₃ (Nat.le_refl _)
      fun place hfrom _ => hclears place hfrom
  obtain ⟨hparameters, hclearsLast⟩ := hrest _ _ _ hothers hkeeps₃
  constructor
  · rw [parameters?, hrowArgument, hparameters]
    simp [hexprs]
  · intro place hplace
    by_cases hin : place < (s₂.noted row).places
    · exact h₃.call?_eq_none hin (hclears place hplace)
    · exact hclearsLast place (by omega)

/-- Whatever is read with a shelf is read in one piece. -/
theorem readsDirectly :
    (∀ text, ReadsDirectly text) ∧ ∀ arguments, ReadsParameters arguments := by
  refine row?.mutual_induct _ _ ?error ?none ?call ?nil ?cons
  case error =>
    intro text error herror start lifted middle late row last hlift
    simp [run?_lift_error herror] at hlift
  case none => exact fun text => readsDirectly_none
  case call => exact fun text site => readsDirectly_call
  case nil =>
    intro start parameters last hread _
    simp only [readArguments_nil, run?_pure, Option.some.injEq, Prod.mk.injEq] at hread
    obtain ⟨rfl, rfl⟩ := hread
    exact ⟨by rw [parameters?], fun place hplace => call?_eq_none hplace⟩
  case cons => exact fun argument rest => readsParameters_cons

/-- If a text is read in one piece, then it can be lifted after any start, and its words have
the same meanings from any state that holds the calls which lifting has added. -/
def CanBeLifted (text : List Char) : Prop :=
  ∀ row start, row? text = some row →
    ∃ lifted middle, run? (lift text) start = some (lifted, middle) ∧
      Keeps start.places start middle ∧
      ∀ late, Agrees start.places middle late →
        ∃ last, run? (tokens lifted) late = some (row, last) ∧ Keeps start.places late last

/-- If the arguments of a call are read in one piece, then they can be read after any start. -/
def CanBeRead (arguments : List (List Char)) : Prop :=
  ∀ parameters start, parameters? arguments = some parameters →
    ∃ last, run? (readArguments arguments) start = some (parameters, last) ∧
      Keeps start.places start last

/-- A text without a call can be lifted if it is read in one piece. -/
theorem canBeLifted_none {text : List Char} (hnone : leftmostCall text = .ok none) :
    CanBeLifted text := by
  intro row start hrow
  rw [row?_of_none hnone] at hrow
  refine ⟨text, start, run?_lift_none hnone start, fun _ _ => rfl, fun late _ => ?_⟩
  exact ⟨late, run?_tokensOf_of_meanings hrow late, fun _ _ => rfl⟩

/-- A text with a call can be lifted if its arguments can be read and the text after it lifted. -/
theorem canBeLifted_call {text : List Char} {site : CallSite}
    (hsite : leftmostCall text = .ok (some site))
    (harguments : CanBeRead (argumentTexts site.arguments))
    (hafter : CanBeLifted site.after) : CanBeLifted text := by
  intro row start hrow
  simp only [row?_of_some hsite, Option.bind_eq_some_iff, Option.map_eq_some_iff] at hrow
  obtain ⟨before, hbefore, function, hfunction, parameters, hparameters, after, hrest, rfl⟩ := hrow
  obtain ⟨read, hread, hkeepsRead⟩ := harguments parameters start hparameters
  obtain ⟨lifted, middle, hlift, hkeepsMiddle, htokens⟩ :=
    hafter after (read.shelved (.call function parameters)) hrest
  rw [places_shelved] at hkeepsMiddle htokens
  have hplaces : start.places ≤ read.places := (later_of_lifts.2 _ _ _ _ hread).places
  refine ⟨site.before ++ ' ' :: (placeholder read.places ++ ' ' :: lifted), middle, ?_, ?_, ?_⟩
  · rw [run?_lift_some hsite, hfunction, Option.bind_some, hread, Option.bind_some, hlift]
    rfl
  · intro place hplace
    rw [hkeepsMiddle place (by omega), call?_shelved, if_neg (by omega), hkeepsRead place hplace]
  · intro late hlate
    have hcall : late.call? read.places = some (.call function parameters) := by
      rw [hlate read.places hplaces, hkeepsMiddle read.places (by omega), call?_shelved, if_pos rfl]
    have hagrees : Agrees (read.places + 1) middle (late.fetched read.places) := by
      intro place hplace
      rw [call?_fetched, if_neg (by omega), hlate place (by omega)]
    obtain ⟨last, hlast, hkeepsLast⟩ := htokens _ hagrees
    refine ⟨last, ?_, ?_⟩
    · rw [run?_tokens_placed, run?_tokensOf_of_meanings hbefore, Option.bind_some, hcall,
        Option.bind_some, hlast]
      rfl
    · intro place hplace
      rw [hkeepsLast place (by omega), call?_fetched, if_neg (by omega)]

/-- Arguments can be read if the first one can be lifted and the others can be read. -/
theorem canBeRead_cons {argument : List Char} {rest : List (List Char)}
    (hargument : CanBeLifted argument) (hrest : CanBeRead rest) :
    CanBeRead (argument :: rest) := by
  intro parameters start hparameters
  rw [parameters?] at hparameters
  simp only [Option.bind_eq_bind, Option.pure_def, Option.bind_eq_some_iff,
    Option.some.injEq] at hparameters
  obtain ⟨row, hrow, exprs, hexprs, others, hothers, rfl⟩ := hparameters
  obtain ⟨lifted, middle, hlift, hkeepsMiddle, htokens⟩ := hargument row start hrow
  obtain ⟨next, hnext, hkeepsNext⟩ := htokens middle fun _ _ => rfl
  obtain ⟨last, hlast, hkeepsLast⟩ := hrest others (next.noted row) hothers
  refine ⟨last, ?_, ?_⟩
  · rw [run?_readArguments_cons, hlift, Option.bind_some, hnext, Option.bind_some, hexprs,
      Option.bind_some, hlast]
    rfl
  · intro place hplace
    have hplaces := (later_of_lifts.1 _ _ _ _ hlift).places
    have hspent := (spent_of_run?_tokensOf hnext).places
    rw [hkeepsLast place (by rw [places_noted]; omega), call?_noted, hkeepsNext place hplace,
      hkeepsMiddle place hplace]

/-- Whatever is read in one piece is read with a shelf, whatever is on the shelf before. -/
theorem canBeLifted :
    (∀ text, CanBeLifted text) ∧ ∀ arguments, CanBeRead arguments := by
  refine row?.mutual_induct _ _ ?error ?none ?call ?nil ?cons
  case error =>
    intro text error herror row start hrow
    simp [row?_of_error herror] at hrow
  case none => exact fun text => canBeLifted_none
  case call => exact fun text site => canBeLifted_call
  case nil =>
    intro parameters start hparameters
    rw [parameters?, Option.some.injEq] at hparameters
    subst hparameters
    exact ⟨start, by rw [readArguments_nil, run?_pure], fun _ _ => rfl⟩
  case cons => exact fun argument rest => canBeRead_cons

/-- A text is read by lifting its calls, looking up its words and binding its tokens. -/
theorem run?_readChars (text : List Char) (state : ReadState) :
    run? (readChars text) state =
      (run? (lift text) state).bind fun lifted =>
        (run? (tokens lifted.1) lifted.2).bind fun row =>
          (bindTokens row.1).toOption.bind fun exprs =>
            if exprs.isEmpty then none else some (exprs, row.2.noted row.1) := by
  rw [readChars_eq]
  rw [run?_bind]
  cases run? (lift text) state with
  | none => rfl
  | some lifted =>
    simp only [Option.bind_some, run?_bind]
    cases run? (tokens lifted.1) lifted.2 with
    | none => rfl
    | some row =>
      simp only [Option.bind_some, run?_bound]
      cases (bindTokens row.1).toOption with
      | none => rfl
      | some exprs =>
        simp only [Option.map_some, Option.bind_some]
        cases exprs <;> rfl

/-- What is read from a notation is what is read from its characters. -/
theorem toOption_read (text : String) :
    (read text).toOption = (run? (readChars text.toList) {}).map Prod.fst := by
  unfold read readNoting run?
  cases readChars text.toList {} <;> rfl

/-- A notation is read step by step from an empty shelf. -/
theorem exists_state_of_read_ok {source : String} {exprs : List Expr}
    (h : read source = .ok exprs) : ∃ state, readChars source.toList {} = .ok exprs state := by
  unfold read readNoting at h
  cases hrun : readChars source.toList {} with
  | ok found state =>
    rw [hrun] at h
    cases h
    exact ⟨state, rfl⟩
  | error error state =>
    rw [hrun] at h
    cases h

/-- A notation that is refused leaves a state behind. -/
theorem exists_state_of_read_error {source : String} {error : NotationError}
    (h : read source = .error error) :
    ∃ state, readChars source.toList {} = .error error state := by
  unfold read readNoting at h
  cases hrun : readChars source.toList {} with
  | ok exprs state =>
    rw [hrun] at h
    cases h
  | error found state =>
    rw [hrun] at h
    cases h
    exact ⟨state, rfl⟩

/-- From an empty shelf, the words of a lifted text mean what the text means in one piece. -/
theorem tokens_of_lifted (text : List Char) :
    ((run? (lift text) {}).bind fun lifted => (run? (tokens lifted.1) lifted.2).map Prod.fst) =
      row? text := by
  apply Option.ext
  intro row
  simp only [Option.bind_eq_some_iff, Option.map_eq_some_iff, Prod.exists]
  constructor
  · rintro ⟨lifted, middle, hlift, _, last, hrow, rfl⟩
    have hnothing (state other : ReadState) : Keeps ({} : ReadState).places state other :=
      fun place hplace => absurd hplace (Nat.not_lt_zero place)
    exact (readsDirectly.1 text _ _ _ _ _ _ hlift (Spent.refl middle) hrow (hnothing _ _)
      (hnothing _ _)).1
  · intro hrow
    obtain ⟨lifted, middle, hlift, -, htokens⟩ := canBeLifted.1 text row {} hrow
    obtain ⟨last, hlast, -⟩ := htokens middle fun _ _ => rfl
    exact ⟨lifted, middle, hlift, row, last, hlast, rfl⟩

/-- Reading a notation, with its rewriting of the text and its shelf, gives the same expressions
as the direct reading, and fails if and only if that one does. -/
theorem read_eq_readDirectly? (source : String) :
    (read source).toOption = readDirectly? source := by
  rw [toOption_read, run?_readChars, readDirectly?, ← tokens_of_lifted]
  cases run? (lift source.toList) {} with
  | none => rfl
  | some lifted =>
    simp only [Option.bind_some]
    cases run? (tokens lifted.1) lifted.2 with
    | none => rfl
    | some row =>
      simp only [Option.bind_some, Option.map_some]
      cases h : (bindTokens row.1).toOption with
      | none => simp [h]
      | some exprs => cases exprs <;> simp [h]

end DiceNotation.Notation
