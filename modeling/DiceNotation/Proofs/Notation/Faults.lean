import DiceNotation.Proofs.Filling.Agreement
import DiceNotation.Proofs.Notation.Parts

/-!
# Texts that can only be malformed

There are three kinds of faults, and two of them are about names: the size of a die, and the name
of a function. A text in which all of these are right has no fault but that it is malformed.
Lifting keeps a text so, since it puts nothing but placeholders into it.
-/

namespace DiceNotation.Notation

/-- If a word has the form of dice, then it has the size of a die. -/
def HasDie (word : List Char) : Prop :=
  ∀ count size, Word.ofChars word = .dice count size → ∃ die, Die.ofText size = .ok die

mutual

/-- A text in which all calls are closed, all sizes are those of dice and all calls name a
function, and so in the arguments of the calls. -/
inductive Proper : List Char → Prop
  | of_parts {text : List Char} {parts : List Part} (hparts : parts? text = some parts)
      (hproper : ∀ part ∈ parts, ProperPart part) : Proper text

/-- A part of a text with the size of a die, or with the name of a function and proper
arguments. -/
inductive ProperPart : Part → Prop
  | word {characters : List Char} (hdie : HasDie characters) : ProperPart (.word characters)
  | call {name : List Char} {arguments : List (List Char)}
      (hname : (Builtin.ofName? (String.ofList name)).isSome = true)
      (harguments : ∀ argument ∈ arguments, Proper argument) : ProperPart (.call name arguments)

end

/-- A word of another form has no size that could be wrong. -/
theorem hasDie_of_form {word : List Char} {form : Word} (h : Word.ofChars word = form)
    (hform : ∀ count size, form ≠ .dice count size) : HasDie word :=
  fun count size hdice => absurd (h.symm.trans hdice) (hform count size)

/-- The parts of a text with a placeholder in the place of its leftmost call. -/
theorem parts?_replaced {text : List Char} {site : CallSite}
    (h : leftmostCall text = .ok (some site)) (place : Nat) :
    parts? (site.replaced place) = (parts? site.after).map fun after =>
      (wordsOf site.before).map .word ++ .word (placeholder place) :: after := by
  have hplaceholder : leftmostCall (placeholder place) = .ok none :=
    leftmostCall_eq_none.mpr (opening?_eq_none (openings_placeholder place))
  rw [replaced_eq, parts?_append_of_none isBlank_space (leftmostCall_before h),
    parts?_append_of_none isBlank_space hplaceholder, wordsOf_placeholder, Option.map_map]
  rfl

namespace Proper

variable {text : List Char}

/-- In a proper text the leftmost call is closed. -/
theorem ne_error (h : Proper text) (error : NotationError) : leftmostCall text ≠ .error error := by
  intro herror
  obtain ⟨hparts, -⟩ := h
  rw [parts?_of_error herror] at hparts
  cases hparts

/-- The words of a proper text without calls have the sizes of dice. -/
theorem hasDie (h : Proper text) (hnone : leftmostCall text = .ok none) :
    ∀ word ∈ wordsOf text, HasDie word := by
  obtain ⟨hparts, hproper⟩ := h
  rw [parts?_of_none hnone] at hparts
  cases hparts
  intro word hmem
  cases hproper _ (List.mem_map_of_mem hmem) with
  | word hdie => exact hdie

variable {site : CallSite}

/-- The leftmost call of a proper text is proper, and the text stays so without it. -/
theorem call_and_replaced (h : Proper text) (hsite : leftmostCall text = .ok (some site)) :
    ProperPart (.call site.name (argumentTexts site.arguments)) ∧
      ∀ place, Proper (site.replaced place) := by
  obtain ⟨hparts, hproper⟩ := h
  rw [parts?_of_some hsite, Option.map_eq_some_iff] at hparts
  obtain ⟨after, hafter, rfl⟩ := hparts
  simp only [List.forall_mem_append, List.forall_mem_cons] at hproper
  obtain ⟨hbefore, hcall, hrest⟩ := hproper
  refine ⟨hcall, fun place => ?_⟩
  have hparts := parts?_replaced hsite place
  rw [hafter, Option.map_some] at hparts
  refine .of_parts hparts ?_
  simp only [List.forall_mem_append, List.forall_mem_cons]
  have hplaceholder : HasDie (placeholder place) :=
    hasDie_of_form (ofChars_placeholder place) (by simp)
  exact ⟨hbefore, .word hplaceholder, hrest⟩

end Proper

/-- A step finds no fault but that a text is malformed, and if it finds none, then something holds
of its result. -/
def OnlyMalformed {α : Type} (step : Reading α) (holds : α → Prop) : Prop :=
  ∀ state, (∀ error last, step state = .error error last → error.kind = .malformed) ∧
    ∀ a last, step state = .ok a last → holds a

namespace OnlyMalformed

variable {α β : Type}

/-- A step that does nothing finds no fault. -/
theorem pure {holds : α → Prop} {a : α} (h : holds a) : OnlyMalformed (pure a) holds := by
  refine fun state => ⟨?_, ?_⟩
  · rintro error last ⟨⟩
  · rintro _ last ⟨⟩
    exact h

/-- A step that fails because a text is malformed finds no other fault. -/
theorem throw {holds : α → Prop} {error : NotationError} (h : error.kind = .malformed) :
    OnlyMalformed (throw error) holds := by
  refine fun state => ⟨?_, ?_⟩
  · rintro _ last ⟨⟩
    exact h
  · rintro a last ⟨⟩

/-- Steps that find no other fault find none one after the other. -/
theorem bind {step : Reading α} {next : α → Reading β} {between : α → Prop} {after : β → Prop}
    (h : OnlyMalformed step between) (hnext : ∀ a, between a → OnlyMalformed (next a) after) :
    OnlyMalformed (step >>= next) after := by
  intro state
  cases hstep : step state with
  | error error last =>
    rw [Step.bind_of_error hstep]
    refine ⟨?_, ?_⟩
    · rintro _ _ ⟨⟩
      exact (h state).1 error last hstep
    · rintro b _ ⟨⟩
  | ok a middle =>
    rw [Step.bind_of_ok hstep]
    exact hnext a ((h state).2 a middle hstep) middle

/-- A step that always succeeds. -/
theorem of_ok {step : Reading α} (h : ∀ state, ∃ a last, step state = .ok a last) :
    OnlyMalformed step fun _ => True := by
  refine fun state => ⟨?_, fun _ _ _ => trivial⟩
  intro error last herror
  obtain ⟨a, last', hok⟩ := h state
  rw [hok] at herror
  cases herror

end OnlyMalformed

private theorem onlyMalformed_fetch? (place : Nat) :
    OnlyMalformed (fetch? place) fun _ => True := by
  refine .of_ok fun state => ?_
  cases hcall : state.call? place with
  | none => exact ⟨none, state, fetch?_of_none hcall⟩
  | some call => exact ⟨some call, state.fetched place, fetch?_of_some hcall⟩

/-- A word with the size of a die can only be malformed. -/
theorem onlyMalformed_token {word : List Char} (h : HasDie word) :
    OnlyMalformed (token word) fun _ => True := by
  unfold token Shelving.token
  cases hword : Word.ofChars word with
  | placeholder numeral =>
    refine (onlyMalformed_fetch? _).bind fun found _ => ?_
    cases found with
    | none => exact .throw rfl
    | some call => exact .pure trivial
  | integer isNegative numeral =>
    dsimp only
    cases integer? isNegative numeral with
    | none => exact .throw rfl
    | some value => exact .pure trivial
  | dice count size =>
    obtain ⟨die, hdie⟩ := h count size hword
    simp only [pool, hdie]
    by_cases hcount : Text.numeralValue count < UInt64.size
    · simp only [if_pos hcount]
      exact .pure trivial
    · simp only [if_neg hcount]
      exact .throw rfl
  | operator operator => exact .pure trivial
  | «variable» name => exact .pure trivial
  | stray => exact .pure trivial

/-- Words with the sizes of dice can only be malformed. -/
theorem onlyMalformed_tokensOf {words : List (List Char)} (h : ∀ word ∈ words, HasDie word) :
    OnlyMalformed (tokensOf words) fun _ => True := by
  induction words with
  | nil => exact .pure trivial
  | cons word rest ih =>
    obtain ⟨hword, hrest⟩ := List.forall_mem_cons.mp h
    refine (onlyMalformed_token hword).bind fun first _ => ?_
    exact (ih hrest).bind fun others _ => .pure trivial

/-- An operator without an operand makes a text malformed. -/
theorem kind_of_bindAfter {left : Option Expr} {row : List Token} {error : NotationError}
    (h : bindAfter left row = .error error) : error.kind = .malformed := by
  fun_induction bindAfter left row with
  | case1 left => cases h
  | case2 left e rest found hfound ih => cases h
  | case3 left e rest other hother ih =>
    cases h
    exact ih hother
  | case4 left word rest found hfound ih => cases h
  | case5 left word rest other hother ih =>
    cases h
    exact ih hother
  | case6 operator rest =>
    cases h
    rfl
  | case7 operator l r rest ih => exact ih h
  | case8 operator rest l hrest =>
    cases h
    rfl

/-- Binding fails only for a malformed text. -/
theorem onlyMalformed_bound (row : List Token) : OnlyMalformed (bound row) fun _ => True := by
  refine fun state => ⟨?_, fun _ _ _ => trivial⟩
  intro error last h
  cases hrow : bindTokens row with
  | ok exprs =>
    rw [bound_of_ok hrow] at h
    cases h
  | error other =>
    rw [bound_of_error hrow] at h
    cases h
    exact kind_of_bindAfter hrow

private theorem onlyMalformed_builtin {name : List Char}
    (h : (Builtin.ofName? (String.ofList name)).isSome = true) :
    OnlyMalformed (builtin name) fun _ => True := by
  obtain ⟨function, hfunction⟩ := Option.isSome_iff_exists.mp h
  unfold builtin
  rw [hfunction]
  exact .pure trivial

/-- Lifting a proper text finds no other fault and leaves words with the sizes of dice, and reading
proper arguments finds no other fault. -/
theorem onlyMalformed_lift :
    (∀ text, Proper text →
      OnlyMalformed (lift text) fun lifted => ∀ word ∈ wordsOf lifted, HasDie word) ∧
    ∀ arguments, (∀ argument ∈ arguments, Proper argument) →
      OnlyMalformed (readArguments arguments) fun _ => True := by
  refine Shelving.lift.mutual_induct _ _ ?error ?none ?call ?nil ?cons
  case error =>
    intro text error herror h
    exact absurd herror (h.ne_error error)
  case none =>
    intro text hnone h
    rw [lift_of_none hnone]
    exact .pure (h.hasDie hnone)
  case call =>
    intro text site hsite iharguments ihreplaced h
    obtain ⟨hcall, hreplaced⟩ := h.call_and_replaced hsite
    cases hcall with
    | call hname harguments =>
      rw [lift_of_some hsite]
      refine (onlyMalformed_builtin hname).bind fun function _ => ?_
      refine (iharguments harguments).bind fun parameters _ => ?_
      have hshelve : OnlyMalformed (shelve (.call function parameters)) fun _ => True :=
        .of_ok fun state => ⟨_, _, rfl⟩
      exact hshelve.bind fun place _ => ihreplaced place (hreplaced place)
  case nil =>
    intro _
    rw [readArguments_nil]
    exact .pure trivial
  case cons =>
    intro argument rest ihargument ihrest h
    obtain ⟨hargument, hrest⟩ := List.forall_mem_cons.mp h
    rw [readArguments_cons]
    refine (ihargument hargument).bind fun lifted hlifted => ?_
    refine (onlyMalformed_tokensOf hlifted).bind fun row _ => ?_
    refine (onlyMalformed_bound row).bind fun exprs _ => ?_
    exact (ihrest hrest).bind fun others _ => .pure trivial

/-- A proper text is refused only if it is malformed. -/
theorem onlyMalformed_readChars {text : List Char} (h : Proper text) :
    OnlyMalformed (readChars text) fun _ => True := by
  refine (onlyMalformed_lift.1 text h).bind fun lifted hlifted => ?_
  refine (onlyMalformed_tokensOf hlifted).bind fun row _ => ?_
  refine (onlyMalformed_bound row).bind fun exprs _ => ?_
  cases exprs with
  | nil => exact .throw (Reference.kind_nothingRead text row)
  | cons e rest => exact .pure trivial

/-- The only fault that a proper notation can have is that it is malformed. -/
theorem kind_of_read {source : String} {error : NotationError} (h : Proper source.toList)
    (hread : read source = .error error) : error.kind = .malformed := by
  obtain ⟨state, hrun⟩ := exists_state_of_read_error hread
  exact (onlyMalformed_readChars h {}).1 error state hrun

end DiceNotation.Notation
