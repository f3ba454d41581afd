import DiceNotation.Proofs.Notation.Paired
import DiceNotation.Proofs.Trimming

/-!
# Lists of arguments

The argument text of a call is cut at the commas that stand in no parentheses. The pieces list the
arguments: each of them has one argument in it, with blanks around, or it is blank. Cutting undoes
such a listing, and whatever it gives for a text with paired parentheses can be listed again.
-/

namespace DiceNotation.Notation

open Text (AllBlank extendFirst)

/-- The pieces list some arguments: there is an argument with blanks around it in a piece, or
nothing but blanks. -/
inductive Lists : List (List Char) → List (List Char) → Prop
  | nil : Lists [] []
  | blank {piece : List Char} {pieces arguments : List (List Char)} (hpiece : AllBlank piece)
      (hrest : Lists pieces arguments) : Lists (piece :: pieces) arguments
  | argument {before argument after : List Char} {pieces arguments : List (List Char)}
      (hbefore : AllBlank before) (hafter : AllBlank after) (hrest : Lists pieces arguments) :
      Lists ((before ++ argument ++ after) :: pieces) (argument :: arguments)

/-- Blanks are balanced. -/
theorem balanced_of_allBlank {commas : Bool} {blanks : List Char} (h : AllBlank blanks) :
    Balanced commas blanks := by
  apply Balanced.of_forall
  intro c hc
  have hne {d : Char} (hd : Text.isBlank d = false) : c ≠ d := by
    rintro rfl
    exact absurd ((h c hc).symm.trans hd) (by decide)
  exact ⟨hne (by decide), hne (by decide), hne (by decide)⟩

/-- A trimmed text has no blanks at its ends if it is not empty. -/
theorem tight_trim {text : List Char} (h : Text.trim text ≠ []) : Tight (Text.trim text) := by
  have hend : Text.trim text = (Text.trimStart text).rdropWhile Text.isBlank := rfl
  have hstart : Text.trim text <+: Text.trimStart text := List.rdropWhile_prefix _ _
  have hne : Text.trimStart text ≠ [] := fun hnil => h (List.prefix_nil.mp (hnil ▸ hstart))
  constructor
  · refine ⟨_, List.head?_eq_some_head h, ?_⟩
    rw [hstart.head h]
    exact List.head_dropWhile_not Text.isBlank hne
  · refine ⟨_, List.getLast?_eq_some_getLast h, ?_⟩
    simpa [hend] using List.rdropWhile_last_not Text.isBlank (Text.trimStart text) (hend ▸ h)

namespace Lists

variable {pieces arguments : List (List Char)}

/-- The arguments are found in the pieces if they can be told from the blanks around them. -/
theorem filter_map_trim (h : Lists pieces arguments)
    (htight : ∀ argument ∈ arguments, Tight argument) :
    (pieces.map Text.trim).filter (· ≠ []) = arguments := by
  induction h with
  | nil => rfl
  | blank hpiece _ ih =>
    rw [List.map_cons, Text.trim_eq_nil_iff.mpr hpiece, List.filter_cons_of_neg (by simp)]
    exact ih htight
  | @argument before argument after pieces arguments hbefore hafter _ ih =>
    obtain ⟨hargument, hothers⟩ := List.forall_mem_cons.mp htight
    have hne : decide (argument ≠ []) = true := decide_eq_true hargument.ne_nil
    rw [List.map_cons, Text.trim_append_blanks hafter, Text.trim_blanks_append hbefore,
      hargument.trim_eq, List.filter_cons, if_pos hne, ih hothers]

/-- Any pieces list what is left of them without the blanks. -/
theorem of_trim (pieces : List (List Char)) :
    Lists pieces ((pieces.map Text.trim).filter (· ≠ [])) := by
  induction pieces with
  | nil => exact .nil
  | cons piece pieces ih =>
    rw [List.map_cons, List.filter_cons]
    split
    · obtain ⟨before, after, hbefore, hafter, hpiece⟩ := Text.exists_eq_append_trim piece
      have hlists : Lists ((before ++ Text.trim piece ++ after) :: pieces) _ :=
        .argument hbefore hafter ih
      rwa [← hpiece] at hlists
    · next hnil => exact .blank (Text.trim_eq_nil_iff.mp (by simpa using hnil)) ih

/-- The pieces that list balanced arguments are balanced. -/
theorem balanced (h : Lists pieces arguments)
    (hbalanced : ∀ argument ∈ arguments, Balanced false argument) :
    ∀ piece ∈ pieces, Balanced false piece := by
  induction h with
  | nil => exact hbalanced
  | blank hpiece _ ih =>
    exact List.forall_mem_cons.mpr ⟨balanced_of_allBlank hpiece, ih hbalanced⟩
  | argument hbefore hafter _ ih =>
    obtain ⟨hargument, hothers⟩ := List.forall_mem_cons.mp hbalanced
    have hpiece := ((balanced_of_allBlank hbefore).append hargument).append
      (balanced_of_allBlank hafter)
    exact List.forall_mem_cons.mpr ⟨hpiece, ih hothers⟩

/-- A comma and a blank are one way to list arguments. -/
theorem comma_blank (text : List Char) (texts : List (List Char)) :
    Lists (text :: texts.map (' ' :: ·)) (text :: texts) := by
  have hnil : AllBlank [] := fun c hc => absurd hc List.not_mem_nil
  have hspace : AllBlank [' '] := by simp [AllBlank, isBlank_space]
  have hothers : Lists (texts.map (' ' :: ·)) texts := by
    induction texts with
    | nil => exact .nil
    | cons first texts ih =>
      have hlists : Lists (([' '] ++ first ++ []) :: _) _ := .argument hspace hnil ih
      simpa using hlists
  have hlists : Lists (([] ++ text ++ []) :: _) _ := .argument hnil hnil hothers
  simpa using hlists

end Lists

/-- Cutting balanced texts that commas join gives the texts again. -/
theorem cutArguments_intercalate {piece : List Char} {pieces : List (List Char)}
    (h : ∀ text ∈ piece :: pieces, Balanced false text) :
    cutArguments 0 ([','].intercalate (piece :: pieces)) = piece :: pieces := by
  induction pieces generalizing piece with
  | nil =>
    have hcut : cutArguments 0 (piece ++ []) = piece.foldr extendFirst (cutArguments 0 []) :=
      (h piece List.mem_cons_self).cutArguments_append (by simp) []
    rw [List.append_nil] at hcut
    rw [List.intercalate_singleton, hcut, cutArguments, Text.foldr_extendFirst, List.append_nil]
  | cons second pieces ih =>
    obtain ⟨hpiece, hothers⟩ := List.forall_mem_cons.mp h
    rw [List.intercalate_cons_cons, List.append_assoc, hpiece.cutArguments_append (by simp),
      List.singleton_append, cutArguments, if_pos ⟨rfl, rfl⟩, ih hothers, Text.foldr_extendFirst,
      List.append_nil]

/-- Arguments that are listed in a text are found again. -/
theorem argumentTexts_of_lists {pieces arguments : List (List Char)} (h : Lists pieces arguments)
    (hbalanced : ∀ argument ∈ arguments, Balanced false argument)
    (htight : ∀ argument ∈ arguments, Tight argument) :
    argumentTexts ([','].intercalate pieces) = arguments := by
  cases pieces with
  | nil =>
    cases h
    rfl
  | cons piece pieces =>
    rw [argumentTexts, cutArguments_intercalate (h.balanced hbalanced), h.filter_map_trim htight]

/-- Commas with blanks behind them are commas before texts that start with a blank. -/
theorem intercalate_comma_blank (text : List Char) (texts : List (List Char)) :
    [',', ' '].intercalate (text :: texts) = [','].intercalate (text :: texts.map (' ' :: ·)) := by
  induction texts generalizing text with
  | nil => rfl
  | cons second texts ih =>
    rw [List.map_cons, List.intercalate_cons_cons, List.intercalate_cons_cons, ih second]
    cases texts <;> simp [List.intercalate_cons_cons]

/-- Arguments with commas and blanks between them are found again in the text of all of them. -/
theorem argumentTexts_intercalate {texts : List (List Char)}
    (hbalanced : ∀ text ∈ texts, Balanced false text) (htight : ∀ text ∈ texts, Tight text) :
    argumentTexts ([',', ' '].intercalate texts) = texts := by
  cases texts with
  | nil => rfl
  | cons text texts =>
    rw [intercalate_comma_blank]
    exact argumentTexts_of_lists (.comma_blank text texts) hbalanced htight

private theorem intercalate_extendFirst (c : Char) {pieces : List (List Char)} (h : pieces ≠ [])
    (separator : List Char) :
    separator.intercalate (extendFirst c pieces) = c :: separator.intercalate pieces := by
  cases pieces with
  | nil => exact absurd rfl h
  | cons piece pieces =>
    cases pieces <;> simp [extendFirst, List.intercalate_cons_cons]

private theorem cutArguments_ne_nil (depth : Nat) (text : List Char) :
    cutArguments depth text ≠ [] := by
  cases text with
  | nil => simp [cutArguments]
  | cons c text =>
    rw [cutArguments]
    split
    · simp
    · dsimp only
      unfold extendFirst
      split <;> simp

/-- Cutting loses nothing but the commas at which it cuts. -/
theorem intercalate_cutArguments (depth : Nat) (text : List Char) :
    [','].intercalate (cutArguments depth text) = text := by
  induction text generalizing depth with
  | nil => rfl
  | cons c text ih =>
    rw [cutArguments]
    split
    · next hcut =>
      rw [hcut.1, List.intercalate_cons_of_ne_nil (cutArguments_ne_nil 0 text), ih]
      rfl
    · dsimp only
      rw [intercalate_extendFirst c (cutArguments_ne_nil _ text), ih]

/-- A text that starts inside of some parentheses and closes them does so in its first piece. Its
other pieces are paired, and no piece has a comma outside of parentheses. -/
theorem exists_cutArguments {depth : Nat} {text : List Char} (h : PairedWithin depth text) :
    ∃ first others, cutArguments depth text = first :: others ∧
      (PairedWithin depth first ∧ CommasWithin depth first) ∧
      ∀ piece ∈ others, Paired piece ∧ CommasWithin 0 piece := by
  induction text generalizing depth with
  | nil => exact ⟨[], [], rfl, ⟨h, commasWithin_nil depth⟩, by simp⟩
  | cons c text ih =>
    obtain ⟨hc, htail⟩ := pairedWithin_cons.mp h
    obtain ⟨first, others, hcut, ⟨hpaired, hcommas⟩, hothers⟩ := ih htail
    by_cases hcomma : c = ',' ∧ depth = 0
    · obtain ⟨rfl, rfl⟩ := hcomma
      have hpieces : cutArguments 0 (',' :: text) = [] :: first :: others := by
        rw [cutArguments, if_pos ⟨rfl, rfl⟩, ← hcut]
        rfl
      refine ⟨[], first :: others, hpieces, ?_, ?_⟩
      · exact ⟨pairedWithin_nil.mpr rfl, commasWithin_nil 0⟩
      · exact List.forall_mem_cons.mpr ⟨⟨hpaired, hcommas⟩, hothers⟩
    · have hpieces : cutArguments depth (c :: text) = (c :: first) :: others := by
        have hextend : cutArguments depth (c :: text) =
            extendFirst c (cutArguments (depthAfter depth c) text) := by
          rw [cutArguments, if_neg hcomma]
          rfl
        rw [hextend, hcut, extendFirst]
      have hinside : c = ',' → 0 < depth := fun heq =>
        Nat.pos_of_ne_zero fun hdepth => hcomma ⟨heq, hdepth⟩
      exact ⟨c :: first, others, hpieces,
        ⟨pairedWithin_cons.mpr ⟨hc, hpaired⟩, (commasWithin_cons hc).mpr ⟨hinside, hcommas⟩⟩,
        hothers⟩

/-- The pieces of a paired text are paired, and their commas stand in parentheses. -/
theorem mem_cutArguments {text piece : List Char} (h : Paired text)
    (hpiece : piece ∈ cutArguments 0 text) : Paired piece ∧ CommasWithin 0 piece := by
  obtain ⟨first, others, hcut, hfirst, hothers⟩ := exists_cutArguments h
  rw [hcut] at hpiece
  rcases List.mem_cons.mp hpiece with rfl | hpiece
  · exact hfirst
  · exact hothers piece hpiece

/-- An argument of a call: it is not empty and has no blanks at its ends, its parentheses are
paired, and its commas stand inside of them. -/
structure IsArgument (text : List Char) : Prop where
  tight : Tight text
  paired : Paired text
  commas : CommasWithin 0 text

instance (text : List Char) : Decidable (Tight text) :=
  decidable_of_iff (text.head?.any (!Text.isBlank ·) ∧ text.getLast?.any (!Text.isBlank ·)) (by
    simp only [Option.any_eq_true, Bool.not_eq_true']
    exact ⟨fun ⟨hfirst, hlast⟩ => ⟨hfirst, hlast⟩, fun ⟨hfirst, hlast⟩ => ⟨hfirst, hlast⟩⟩)

instance (text : List Char) : Decidable (IsArgument text) :=
  decidable_of_iff (Tight text ∧ Paired text ∧ CommasWithin 0 text)
    ⟨fun ⟨htight, hpaired, hcommas⟩ => ⟨htight, hpaired, hcommas⟩,
      fun ⟨htight, hpaired, hcommas⟩ => ⟨htight, hpaired, hcommas⟩⟩

private theorem counts_of_allBlank {blanks : List Char} (h : AllBlank blanks) :
    openings blanks = 0 ∧ closings blanks = 0 := by
  have hcount {c : Char} (hc : Text.isBlank c = false) : blanks.count c = 0 :=
    List.count_eq_zero.mpr fun hmem => absurd ((h c hmem).symm.trans hc) (by decide)
  exact ⟨hcount (by decide), hcount (by decide)⟩

/-- Blanks around a text do not matter for its parentheses. -/
theorem Paired.of_blanks {before text after : List Char} (hbefore : AllBlank before)
    (hafter : AllBlank after) (h : Paired (before ++ text ++ after)) : Paired text := by
  obtain ⟨hopenings, hclosings⟩ := counts_of_allBlank hbefore
  obtain ⟨hopenings', hclosings'⟩ := counts_of_allBlank hafter
  constructor
  · intro start hstart
    have hprefix : before ++ start <+: before ++ text ++ after :=
      ((List.prefix_append_right_inj before).mpr hstart).trans (List.prefix_append _ _)
    have hle := h.closings_le _ hprefix
    rw [closings_append, openings_append] at hle
    omega
  · have heq := h.closings_eq
    simp only [closings_append, openings_append] at heq
    omega

/-- Blanks around a text do not matter for its commas. -/
theorem CommasWithin.of_blanks {before text after : List Char} (hbefore : AllBlank before)
    (h : CommasWithin 0 (before ++ text ++ after)) : CommasWithin 0 text := by
  obtain ⟨hopenings, hclosings⟩ := counts_of_allBlank hbefore
  rintro first second rfl
  have hfirst := h (before ++ first) (second ++ after) (by simp)
  rw [closings_append, openings_append] at hfirst
  omega

/-- What is cut out of a text with paired parentheses is an argument. -/
theorem isArgument_of_mem {text argument : List Char} (h : Paired text)
    (hargument : argument ∈ argumentTexts text) : IsArgument argument := by
  obtain ⟨hmem, hne⟩ := List.mem_filter.mp hargument
  obtain ⟨piece, hpiece, rfl⟩ := List.mem_map.mp hmem
  obtain ⟨hpaired, hcommas⟩ := mem_cutArguments h hpiece
  obtain ⟨before, after, hbefore, hafter, htext⟩ := Text.exists_eq_append_trim piece
  rw [htext] at hpaired hcommas
  exact ⟨tight_trim (of_decide_eq_true hne), hpaired.of_blanks hbefore hafter,
    hcommas.of_blanks hbefore⟩

/-- Cutting an argument text undoes a listing of arguments, whatever blanks stand around the commas
and however many blank pieces stand between the arguments. It gives arguments whenever the
parentheses of the text are paired, and the text lists them. -/
theorem argumentTexts_listed :
    (∀ pieces arguments, Lists pieces arguments → (∀ argument ∈ arguments, IsArgument argument) →
        argumentTexts ([','].intercalate pieces) = arguments) ∧
      ∀ text, Paired text →
        (∀ argument ∈ argumentTexts text, IsArgument argument) ∧
          ∃ pieces, text = [','].intercalate pieces ∧ Lists pieces (argumentTexts text) := by
  constructor
  · intro pieces arguments hlists harguments
    refine argumentTexts_of_lists hlists (fun argument hmem => ?_) fun argument hmem =>
      (harguments argument hmem).tight
    obtain ⟨-, hpaired, hcommas⟩ := harguments argument hmem
    exact .of_paired hpaired fun _ => hcommas
  · intro text hpaired
    refine ⟨fun argument => isArgument_of_mem hpaired, cutArguments 0 text, ?_, .of_trim _⟩
    exact (intercalate_cutArguments 0 text).symm

/-- An argument with commas and blanks in its own parentheses stays in one piece, and blank pieces
beside it are left out. -/
theorem argumentTexts_listed_nested :
    let arguments := ["max(1 , (2))".toList, "é+1".toList]
    let pieces := [[' '] ++ "max(1 , (2))".toList ++ ['\u00a0'], [], ['\t', ' '],
      [] ++ "é+1".toList ++ [' ']]
    Lists pieces arguments ∧ (∀ argument ∈ arguments, IsArgument argument) ∧
      argumentTexts " max(1 , (2))\u00a0,,\t ,é+1 ".toList = arguments ∧
      Paired "2,(, )".toList ∧
      (∀ argument ∈ argumentTexts "2,(, )".toList, IsArgument argument) ∧
        ∃ pieces, "2,(, )".toList = [','].intercalate pieces ∧
          Lists pieces (argumentTexts "2,(, )".toList) := by
  intro arguments pieces
  have hlists : Lists pieces arguments := by
    refine .argument ?_ ?_ (.blank ?_ (.blank ?_ (.argument ?_ ?_ .nil)))
    all_goals decide
  have harguments : ∀ argument ∈ arguments, IsArgument argument := by decide
  have hpaired : Paired "2,(, )".toList := by decide
  exact ⟨hlists, harguments, argumentTexts_listed.1 _ _ hlists harguments, hpaired,
    argumentTexts_listed.2 _ hpaired⟩

end DiceNotation.Notation
