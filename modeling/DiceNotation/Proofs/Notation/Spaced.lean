import DiceNotation.Proofs.Notation.MissingOperand
import DiceNotation.Proofs.Notation.Spread

/-!
# Notations with blanks around their signs

A word that means nothing is ignored, and with it each sign of a multiplication or a division in it.
If blanks are written around all these signs, then a notation is read into the same expressions
exactly if no sign is in a word that was ignored without them.
-/

namespace DiceNotation.Notation

open Text (isBlank AllBlank)

private theorem closing?_append_eq_none {depth : Nat} {text : List Char} {c : Char} (hc : c ≠ ')')
    (h : closing? depth text = none) : closing? depth (text ++ [c]) = none := by
  induction text generalizing depth with
  | nil =>
    rw [List.nil_append, closing?_cons, if_neg (fun hclose => hc hclose.1)]
    rfl
  | cons d text ih =>
    rw [closing?_cons] at h
    rw [List.cons_append, closing?_cons]
    by_cases hclose : d = ')' ∧ depth = 0
    · rw [if_pos hclose] at h
      cases h
    · rw [if_neg hclose, Option.map_eq_none_iff] at h ⊢
      exact ih h

/-- A call that is not closed stays so. -/
theorem leftmostCall_append_of_error {text : List Char} {error : NotationError} {c : Char}
    (hc : c ≠ ')') (h : leftmostCall text = .error error) :
    ∃ error', leftmostCall (text ++ [c]) = .error error' := by
  obtain ⟨before, name, rest, hopen, hclose⟩ := leftmostCall_eq_error.mp ⟨error, h⟩
  refine leftmostCall_eq_error.mpr
    ⟨before, name, rest ++ [c], ?_, closing?_append_eq_none hc hclose⟩
  rw [opening?_append, hopen]

/-- A blank at the end of a text does not matter for its parts. -/
theorem parts?_append_blank {c : Char} (hc : isBlank c = true) (text : List Char) :
    parts? (text ++ [c]) = parts? text := by
  cases hfound : leftmostCall text with
  | error error =>
    have hclose : c ≠ ')' := by
      rintro rfl
      exact absurd hc (by decide)
    obtain ⟨error', herror⟩ := leftmostCall_append_of_error hclose hfound
    rw [parts?_of_error hfound, parts?_of_error herror]
  | ok found =>
    cases found with
    | none =>
      have hnil : parts? [] = some [] := parts?_of_none rfl
      rw [parts?_append_of_none hc hfound, parts?_of_none hfound, hnil]
      simp
    | some site =>
      have hsmaller := openings_around_lt hfound
      rw [parts?_of_some hfound, parts?_of_some (leftmostCall_of_first hfound [c]),
        parts?_append_blank hc site.after]
termination_by openings text

/-- Blanks at the end of a text do not matter for its tokens. -/
theorem row?_append_blanks {blanks : List Char} (hblanks : AllBlank blanks) (text : List Char) :
    row? (text ++ blanks) = row? text := by
  induction blanks generalizing text with
  | nil => rw [List.append_nil]
  | cons c blanks ih =>
    obtain ⟨hc, hrest⟩ := List.forall_mem_cons.mp hblanks
    rw [List.append_cons, ih hrest, row?_eq_parts, parts?_append_blank hc, ← row?_eq_parts]

/-- Blanks around a text do not matter. -/
theorem row?_trim (text : List Char) : row? (Text.trim text) = row? text := by
  obtain ⟨before, after, hbefore, hafter, htext⟩ := Text.exists_eq_append_trim text
  conv_rhs => rw [htext, row?_append_blanks hafter, row?_blanks hbefore]

section

variable {words : List (List Char)} {row : List Token}

private theorem exists_of_mapM_cons {word : List Char}
    (h : (word :: words).mapM meaning? = some row) :
    ∃ token others, meaning? word = some token ∧ words.mapM meaning? = some others ∧
      row = token :: others := by
  simp only [List.mapM_cons, Option.pure_def, Option.bind_eq_bind, Option.bind_eq_some_iff,
    Option.some.injEq] at h
  obtain ⟨token, htoken, others, hothers, rfl⟩ := h
  exact ⟨token, others, htoken, hothers, rfl⟩

/-- Words have no more operations than signs. -/
theorem rowFactors_le_of_mapM (h : words.mapM meaning? = some row) :
    rowFactors row ≤ factorSignsOf words := by
  induction words generalizing row with
  | nil =>
    cases h
    exact Nat.le_refl _
  | cons word words ih =>
    obtain ⟨token, others, htoken, hothers, rfl⟩ := exists_of_mapM_cons h
    have hword := factorSigns_of_meaning? htoken
    have hrest := ih hothers
    rw [rowFactors_cons, factorSignsOf_cons]
    omega

/-- A word whose signs all make operations is a sign, or has none. -/
theorem eq_singleton_of_meaning? {word : List Char} {token : Token}
    (h : meaning? word = some token) (hkept : factorSigns word ≤ token.factors)
    (hsigns : factorSigns word ≠ 0) : ∃ c, word = [c] := by
  cases hform : Word.ofChars word with
  | operator operator => exact ⟨operator.symbol, eq_symbol_of_ofChars hform⟩
  | stray =>
    rw [meaning?_stray hform] at h
    cases h
    exact absurd (Nat.le_zero.mp hkept) hsigns
  | _ => exact absurd (factorSigns_of_ofChars (by rw [hform]; simp) (by rw [hform]; simp)) hsigns

/-- If words have as many operations as signs, then each sign is a word on its own. -/
theorem eq_singleton_of_mapM (h : words.mapM meaning? = some row)
    (hkept : factorSignsOf words ≤ rowFactors row) :
    ∀ word ∈ words, factorSigns word ≠ 0 → ∃ c, word = [c] := by
  induction words generalizing row with
  | nil => exact fun word hword => absurd hword List.not_mem_nil
  | cons word words ih =>
    obtain ⟨token, others, htoken, hothers, rfl⟩ := exists_of_mapM_cons h
    have hword := factorSigns_of_meaning? htoken
    have hrest := rowFactors_le_of_mapM hothers
    rw [rowFactors_cons, factorSignsOf_cons] at hkept
    have hfirst : factorSigns word ≤ token.factors := by omega
    have hothersKept : factorSignsOf words ≤ rowFactors others := by omega
    exact List.forall_mem_cons.mpr
      ⟨eq_singleton_of_meaning? htoken hfirst, ih hothers hothersKept⟩

/-- A sign that is a word makes an operation. -/
theorem le_rowFactors_of_mapM (h : words.mapM meaning? = some row)
    (hsingle : ∀ word ∈ words, factorSigns word ≠ 0 → ∃ c, word = [c]) :
    factorSignsOf words ≤ rowFactors row := by
  induction words generalizing row with
  | nil => exact Nat.zero_le _
  | cons word words ih =>
    obtain ⟨token, others, htoken, hothers, rfl⟩ := exists_of_mapM_cons h
    obtain ⟨hword, hwords⟩ := List.forall_mem_cons.mp hsingle
    have hrest := ih hothers hwords
    have hfirst : factorSigns word ≤ token.factors := by
      by_cases hsigns : factorSigns word = 0
      · omega
      · obtain ⟨c, rfl⟩ := hword hsigns
        have hsign : isFactorSign c = true := by simpa [factorSigns_eq_zero_iff] using hsigns
        rcases isFactorSign_iff.mp hsign with rfl | rfl
        · cases htoken
          exact Nat.le_refl _
        · cases htoken
          exact Nat.le_refl _
    rw [rowFactors_cons, factorSignsOf_cons]
    omega

end

/-- A text has no more operations than signs. If it has as many, then it means the same with blanks
around the signs. -/
def KeepsMeaning (text : List Char) : Prop :=
  ∀ row, row? text = some row → rowFactors row ≤ factorSigns text ∧
    (factorSigns text ≤ rowFactors row → row? (spread text) = some row)

/-- The same about the arguments of a call. -/
def KeepsParameters (arguments : List (List Char)) : Prop :=
  ∀ parameters, parameters? arguments = some parameters →
    Expr.factorsOf parameters ≤ factorSignsOf arguments ∧
      (factorSignsOf arguments ≤ Expr.factorsOf parameters →
        parameters? (spreadArguments arguments) = some parameters)

/-- The parts of a text with a call that has a meaning. -/
theorem exists_of_row?_some {text : List Char} {site : CallSite} {row : List Token}
    (hsite : leftmostCall text = .ok (some site)) (h : row? text = some row) :
    ∃ before function parameters after, (wordsOf site.before).mapM meaning? = some before ∧
      Builtin.ofName? (String.ofList site.name) = some function ∧
      parameters? (argumentTexts site.arguments) = some parameters ∧
      row? site.after = some after ∧
      row = before ++ .operand (.call function parameters) :: after := by
  simp only [row?_of_some hsite, Option.bind_eq_some_iff, Option.map_eq_some_iff] at h
  obtain ⟨before, hbefore, function, hfunction, parameters, hparameters, after, hafter, rfl⟩ := h
  exact ⟨before, function, parameters, after, hbefore, hfunction, hparameters, hafter, rfl⟩

private theorem exists_of_parameters?_cons {argument : List Char} {rest : List (List Char)}
    {parameters : List Expr} (h : parameters? (argument :: rest) = some parameters) :
    ∃ row exprs others, row? argument = some row ∧ bindTokens row = .ok exprs ∧
      parameters? rest = some others ∧ parameters = exprs ++ others := by
  rw [parameters?] at h
  simp only [Option.bind_eq_bind, Option.bind_eq_some_iff, Option.pure_def, Option.some.injEq] at h
  obtain ⟨row, hrow, exprs, hexprs, others, hothers, rfl⟩ := h
  exact ⟨row, exprs, others, hrow, eq_ok_iff_toOption.mpr hexprs, hothers, rfl⟩

/-- Binding keeps all multiplications and divisions. -/
theorem factorsOf_bindTokens {row : List Token} {exprs : List Expr}
    (h : bindTokens row = .ok exprs) : Expr.factorsOf exprs = rowFactors row :=
  (factorsOf_bindAfter h).trans (Nat.zero_add _)

/-- A text without a call keeps its meaning with blanks around its signs. -/
theorem keepsMeaning_none {text : List Char} (hnone : leftmostCall text = .ok none) :
    KeepsMeaning text := by
  intro row hrow
  rw [row?_of_none hnone] at hrow
  have hle := rowFactors_le_of_mapM hrow
  rw [factorSignsOf_wordsOf] at hle
  refine ⟨hle, fun hkept => ?_⟩
  rw [← factorSignsOf_wordsOf] at hkept
  rw [row?_of_none (leftmostCall_spread_of_none hnone),
    wordsOf_spread_of_forall (eq_singleton_of_mapM hrow hkept), hrow]

/-- A text with a call keeps its meaning if its arguments and the text after it do. -/
theorem keepsMeaning_call {text : List Char} {site : CallSite}
    (hsite : leftmostCall text = .ok (some site))
    (harguments : KeepsParameters (argumentTexts site.arguments))
    (hafter : KeepsMeaning site.after) : KeepsMeaning text := by
  intro row hrow
  obtain ⟨before, function, parameters, after, hbeforeRow, hfunction, hparameters, hafterRow,
    rfl⟩ := exists_of_row?_some hsite hrow
  have hbeforeLe := rowFactors_le_of_mapM hbeforeRow
  obtain ⟨hparametersLe, hparametersKept⟩ := harguments parameters hparameters
  obtain ⟨hafterLe, hafterKept⟩ := hafter after hafterRow
  have htext := factorSigns_of_leftmostCall hsite
  have hrowFactors : rowFactors (before ++ .operand (.call function parameters) :: after) =
      rowFactors before + Expr.factorsOf parameters + rowFactors after := by
    rw [rowFactors_append, rowFactors_cons, Token.factors, Expr.factors, Nat.add_assoc]
  rw [factorSignsOf_wordsOf] at hbeforeLe
  rw [factorSignsOf_argumentTexts] at hparametersLe hparametersKept
  -- No part has more operations than signs, so that a sign lost in one part cannot be made up for
  -- in another.
  refine ⟨by omega, fun hkept => ?_⟩
  have hwords : wordsOf (spread site.before) = wordsOf site.before := by
    refine wordsOf_spread_of_forall (eq_singleton_of_mapM hbeforeRow ?_)
    rw [factorSignsOf_wordsOf]
    omega
  rw [row?_of_some (leftmostCall_spread_of_some hsite)]
  simp only [CallSite.spread, hwords, hbeforeRow, hfunction, argumentTexts_spread,
    hparametersKept (by omega), hafterKept (by omega), Option.bind_some, Option.map_some]

/-- Arguments keep their meaning if the first one and the others do. -/
theorem keepsParameters_cons {argument : List Char} {rest : List (List Char)}
    (hargument : KeepsMeaning argument) (hrest : KeepsParameters rest) :
    KeepsParameters (argument :: rest) := by
  intro parameters hparameters
  obtain ⟨row, exprs, others, hrow, hexprs, hothers, rfl⟩ := exists_of_parameters?_cons hparameters
  obtain ⟨hfirstLe, hfirstKept⟩ := hargument row hrow
  obtain ⟨hrestLe, hrestKept⟩ := hrest others hothers
  rw [Expr.factorsOf_append, factorsOf_bindTokens hexprs, factorSignsOf_cons]
  refine ⟨by omega, fun hkept => ?_⟩
  have hspread : row? (Text.trim (spread argument)) = some row := by
    rw [row?_trim]
    exact hfirstKept (by omega)
  have hspreadRest : parameters? (spreadArguments rest) = some others := hrestKept (by omega)
  rw [spreadArguments_cons, parameters?_cons, exprs?, hspread, Option.bind_some,
    eq_ok_iff_toOption.mp hexprs, Option.bind_some, hspreadRest, Option.map_some]

/-- A text in which all signs make operations means the same with blanks around the signs. -/
theorem keepsMeaning :
    (∀ text, KeepsMeaning text) ∧ ∀ arguments, KeepsParameters arguments := by
  refine row?.mutual_induct _ _ ?error ?none ?call ?nil ?cons
  case error =>
    intro text error herror row hrow
    rw [row?_of_error herror] at hrow
    cases hrow
  case none => exact fun text => keepsMeaning_none
  case call => exact fun text site => keepsMeaning_call
  case nil =>
    intro parameters hparameters
    rw [parameters?] at hparameters
    cases hparameters
    exact ⟨Nat.le_refl _, fun _ => by rw [spreadArguments, List.map_nil, parameters?]⟩
  case cons => exact fun argument rest => keepsParameters_cons

/-- A text with blanks around its signs has as many operations as signs. -/
def KeepsSigns (text : List Char) : Prop :=
  ∀ row, row? (spread text) = some row → factorSigns text ≤ rowFactors row

/-- The same about the arguments of a call. -/
def KeepsArgumentSigns (arguments : List (List Char)) : Prop :=
  ∀ parameters, parameters? (spreadArguments arguments) = some parameters →
    factorSignsOf arguments ≤ Expr.factorsOf parameters

/-- Words with blanks around their signs have as many operations as signs. -/
theorem le_rowFactors_spread {text : List Char} {row : List Token}
    (h : (wordsOf (spread text)).mapM meaning? = some row) :
    factorSigns text ≤ rowFactors row := by
  have hle := le_rowFactors_of_mapM h fun word => eq_singleton_of_mem_wordsOf_spread
  rwa [factorSignsOf_wordsOf, factorSigns_spread] at hle

/-- A text with a call keeps its signs if its arguments and the text after it do. -/
theorem keepsSigns_call {text : List Char} {site : CallSite}
    (hsite : leftmostCall text = .ok (some site))
    (harguments : KeepsArgumentSigns (argumentTexts site.arguments))
    (hafter : KeepsSigns site.after) : KeepsSigns text := by
  intro row hrow
  obtain ⟨before, function, parameters, after, hbeforeRow, -, hparameters, hafterRow, rfl⟩ :=
    exists_of_row?_some (leftmostCall_spread_of_some hsite) hrow
  have hbeforeLe : factorSigns site.before ≤ rowFactors before := le_rowFactors_spread hbeforeRow
  have hafterLe : factorSigns site.after ≤ rowFactors after := hafter after hafterRow
  have hparametersLe : factorSignsOf (argumentTexts site.arguments) ≤ Expr.factorsOf parameters :=
    harguments parameters (argumentTexts_spread site.arguments ▸ hparameters)
  have htext := factorSigns_of_leftmostCall hsite
  rw [factorSignsOf_argumentTexts] at hparametersLe
  rw [rowFactors_append, rowFactors_cons, Token.factors, Expr.factors]
  omega

/-- Arguments keep their signs if the first one and the others do. -/
theorem keepsArgumentSigns_cons {argument : List Char} {rest : List (List Char)}
    (hargument : KeepsSigns argument) (hrest : KeepsArgumentSigns rest) :
    KeepsArgumentSigns (argument :: rest) := by
  intro parameters hparameters
  rw [spreadArguments_cons] at hparameters
  obtain ⟨row, exprs, others, hrow, hexprs, hothers, rfl⟩ := exists_of_parameters?_cons hparameters
  rw [row?_trim] at hrow
  have hfirstLe := hargument row hrow
  have hrestLe := hrest others hothers
  rw [Expr.factorsOf_append, factorsOf_bindTokens hexprs, factorSignsOf_cons]
  omega

/-- Every text keeps its signs, and so do arguments. -/
theorem keepsSigns :
    (∀ text, KeepsSigns text) ∧ ∀ arguments, KeepsArgumentSigns arguments := by
  refine row?.mutual_induct _ _ ?error ?none ?call ?nil ?cons
  case error =>
    intro text error herror row hrow
    obtain ⟨error', hspread⟩ := leftmostCall_spread_of_error herror
    rw [row?_of_error hspread] at hrow
    cases hrow
  case none =>
    intro text hnone row hrow
    rw [row?_of_none (leftmostCall_spread_of_none hnone)] at hrow
    exact le_rowFactors_spread hrow
  case call => exact fun text site => keepsSigns_call
  case nil => exact fun _ _ => Nat.zero_le _
  case cons => exact fun argument rest => keepsArgumentSigns_cons

/-- Blanks around the signs of multiplications and divisions leave the expressions of a notation as
they are exactly if none of the words that were ignored without these blanks has such a sign. -/
theorem read_spaced_iff {source : String} {exprs : List Expr} {ignored : List String}
    (h : readNoting source = (.ok exprs, ignored)) :
    read (spaced source) = .ok exprs ↔
      ∀ word ∈ ignored, ∀ c ∈ word.toList, c ≠ '*' ∧ c ≠ '/' := by
  have hread : read source = .ok exprs := congrArg Prod.fst h
  obtain ⟨hne, row, hrow, hexprs⟩ := read_eq_ok_iff.mp hread
  have hsigns := factorSigns_of_readNoting h
  have hlost : (∀ word ∈ ignored, ∀ c ∈ word.toList, c ≠ '*' ∧ c ≠ '/') ↔
      (ignored.map fun word => factorSigns word.toList).sum = 0 := by
    simp [List.sum_eq_zero_iff_forall_eq_nat, factorSigns_eq_zero_iff, isFactorSign]
  have htext : (spaced source).toList = spread source.toList := String.toList_ofList
  rw [hlost]
  constructor
  · intro hspaced
    obtain ⟨-, row', hrow', hexprs'⟩ := read_eq_ok_iff.mp hspaced
    rw [htext] at hrow'
    have hle := keepsSigns.1 source.toList row' hrow'
    rw [← factorsOf_bindTokens hexprs'] at hle
    omega
  · intro hzero
    have hkept : factorSigns source.toList ≤ rowFactors row := by
      rw [← factorsOf_bindTokens hexprs]
      omega
    refine read_eq_ok_iff.mpr ⟨hne, row, ?_, hexprs⟩
    rw [htext]
    exact (keepsMeaning.1 source.toList row hrow).2 hkept

/-- The word `x+1` is ignored in an argument, but no sign of a multiplication or a division is. -/
theorem read_spaced_call :
    readNoting "2 *, avg(3 / 2, x+1)" = (.ok [.operation (.number 2) .mul
        (.call .avg [.operation (.number 3) .div (.number 2)])], ["x+1"]) ∧
      read (spaced "2 *, avg(3 / 2, x+1)") = .ok [.operation (.number 2) .mul
        (.call .avg [.operation (.number 3) .div (.number 2)])] := by
  have hread : readNoting "2 *, avg(3 / 2, x+1)" = (.ok [.operation (.number 2) .mul
      (.call .avg [.operation (.number 3) .div (.number 2)])], ["x+1"]) := by
    have hdivision : leftmostCall "3 / 2".toList = .ok none := rfl
    have hstray : leftmostCall "x+1".toList = .ok none := rfl
    have hparameters : readArguments ["3 / 2".toList, "x+1".toList] {} =
        .ok [.operation (.number 3) .div (.number 2)] ⟨#[], #["x+1"]⟩ := by
      have hrow : tokens "3 / 2".toList {} =
          .ok [.operand (.number 3), .operator .div, .operand (.number 2)] {} := rfl
      rw [readArguments_cons, lift_of_none hdivision, pure_bind, readArguments_cons,
        lift_of_none hstray, readArguments_nil, Step.bind_of_ok hrow]
      rfl
    have hcall : leftmostCall "2 *, avg(3 / 2, x+1)".toList =
        .ok (some ⟨"2 *, ".toList, "avg".toList, "3 / 2, x+1".toList, []⟩) := rfl
    have harguments : argumentTexts "3 / 2, x+1".toList = ["3 / 2".toList, "x+1".toList] := rfl
    have hbuiltin : builtin "avg".toList {} = .ok .avg {} := rfl
    have hplaced : leftmostCall "2 *,  fn#0 ".toList = .ok none := rfl
    have hlift : lift "2 *, avg(3 / 2, x+1)".toList {} = .ok "2 *,  fn#0 ".toList
        ⟨#[some (.call .avg [.operation (.number 3) .div (.number 2)])], #["x+1"]⟩ := by
      rw [lift_of_some hcall, harguments, Step.bind_of_ok hbuiltin, Step.bind_of_ok hparameters]
      exact congrFun (lift_of_none hplaced) _
    -- without the words at hand, the text would be cut again for each of them
    have hwords : wordsOf "2 *,  fn#0 ".toList = ["2".toList, "*".toList, "fn#0".toList] := rfl
    rw [readNoting, readChars_eq, Step.bind_of_ok hlift, tokens, hwords]
    rfl
  refine ⟨hread, (read_spaced_iff hread).mpr fun word hword c hc => ?_⟩
  rw [List.mem_singleton.mp hword] at hc
  have hplain : ∀ d ∈ "x+1".toList, d ≠ '*' ∧ d ≠ '/' := by simp
  exact hplain c hc

/-- Blanks around the signs can give a notation other expressions: in `1 2*3` the word `2*3` is
ignored. -/
theorem not_forall_read_spaced :
    ¬∀ (source : String) (exprs others : List Expr),
      read source = .ok exprs → read (spaced source) = .ok others → exprs = others := by
  intro hsame
  have hrow : row? "1 2*3".toList = some [.operand (.number 1), .stray "2*3".toList] :=
    row?_of_none rfl
  have hspacedRow : row? (spaced "1 2*3").toList =
      some [.operand (.number 1), .operand (.number 2), .operator .mul, .operand (.number 3)] :=
    row?_of_none rfl
  have hread : read "1 2*3" = .ok [.number 1] := read_eq_ok_iff.mpr ⟨by simp, _, hrow, rfl⟩
  have hspaced : read (spaced "1 2*3") =
      .ok [.number 1, .operation (.number 2) .mul (.number 3)] :=
    read_eq_ok_iff.mpr ⟨by simp, _, hspacedRow, rfl⟩
  have heq := hsame _ _ _ hread hspaced
  cases heq

end DiceNotation.Notation
