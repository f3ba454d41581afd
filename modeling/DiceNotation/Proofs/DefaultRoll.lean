import DiceNotation.Sheet
import DiceNotation.Proofs.Filling.Pieces
import DiceNotation.Proofs.Filling.Scanning
import DiceNotation.Proofs.Trimming

/-!
# What a blank input stands for

A blank input stands for the default roll as it is, with all blanks around it, whereas an input
with the text of the default roll is trimmed before anything else. The two are the same whatever
is stored if the default roll has no blanks around it, or is blank itself, and only then: filling
keeps the blanks of a notation, and a text that is no notation is named in the error.
-/

namespace DiceNotation

open Text (isBlank isNameChar integerText AllBlank)

namespace Reference

variable {table : Variables} {text filled : List Char} {pieces : List Piece}

private theorem countP_isBlank_eq_zero (h : ∀ c ∈ text, isInert c = true) :
    text.countP isBlank = 0 := by
  rw [List.countP_eq_zero]
  intro c hc hblank
  rw [(ne_of_isInert (h c hc)).1] at hblank
  cases hblank

/-- Filling keeps the blanks of a text. -/
theorem Fills.countP_isBlank (h : Fills table text filled) :
    filled.countP isBlank = text.countP isBlank := by
  induction h with
  | nil => rfl
  | dollar hname hrest ih => rw [List.countP_cons, List.countP_cons, ih]
  | @reference text filled value hname hvalue hrest ih =>
    have hvalueText : (integerText value.toInt).countP isBlank = 0 :=
      countP_isBlank_eq_zero fun c => isInert_of_mem_integerText
    have hreference : ('$' :: text.takeWhile isNameChar).countP isBlank = 0 :=
      countP_isBlank_eq_zero (isInert_of_mem_reference (List.all_eq_true.mp List.all_takeWhile))
    have htext : '$' :: text =
        '$' :: text.takeWhile isNameChar ++ text.dropWhile isNameChar := by
      rw [List.cons_append, List.takeWhile_append_dropWhile]
    rw [htext, List.countP_append, List.countP_append, hvalueText, hreference, ih]
  | char hc hrest ih => rw [List.countP_cons, List.countP_cons, ih]

private theorem marksNotation_eq_false_of_isBlank {c : Char} (h : isBlank c = true) :
    marksNotation c = false := by
  cases hmarks : marksNotation c with
  | false => rfl
  | true =>
    have hrange : 33 ≤ c.toNat ∧ c.toNat ≤ 126 := by
      simp only [marksNotation, Bool.or_eq_true, decide_eq_true_eq, List.mem_cons,
        List.not_mem_nil, or_false] at hmarks
      rcases hmarks with hdigit | rfl | rfl | rfl | rfl | rfl | rfl
      · have hdigits := Text.toNat_of_isDigit hdigit
        omega
      all_goals decide
    rw [Text.isBlank_eq_false hrange] at h
    cases h

/-- Blanks around an input do not make it a notation, and do not keep it from being one. -/
theorem isNotation_trim (input : String) :
    isNotation (String.ofList (Text.trim input.toList)) = isNotation input := by
  obtain ⟨before, after, hbefore, hafter, hinput⟩ := Text.exists_eq_append_trim input.toList
  have hany (holds : Char → Bool) (hholds : ∀ c, isBlank c = true → holds c = false) :
      input.toList.any holds = (Text.trim input.toList).any holds := by
    conv_lhs => rw [hinput]
    rw [List.any_append, List.any_append, Text.any_eq_false_of_allBlank hbefore hholds,
      Text.any_eq_false_of_allBlank hafter hholds, Bool.false_or, Bool.or_false]
  have hdot : ∀ c, isBlank c = true → ('.' == c) = false := by
    intro c hc
    rw [beq_eq_false_iff_ne]
    rintro rfl
    exact absurd hc (by decide)
  unfold isNotation
  rw [String.toList_ofList, List.contains_eq_any_beq, List.contains_eq_any_beq, hany _ hdot,
    hany _ fun c => marksNotation_eq_false_of_isBlank]

/-- A table in which all names in some pieces have the value zero. -/
def zeros : List Piece → Variables
  | [] => []
  | .char _ :: pieces => zeros pieces
  | .reference name :: pieces => (zeros pieces).insert (String.ofList name) 0

/-- The table of zeros has values for all references. -/
theorem haveValues_zeros (pieces : List Piece) : HaveValues (zeros pieces) pieces := by
  intro name hname
  induction pieces with
  | nil => cases hname
  | cons piece pieces ih =>
    cases piece with
    | char c =>
      have hrest : .reference name ∈ pieces := by simpa using hname
      exact ih hrest
    | reference other =>
      rw [zeros, Table.get?_insert]
      split
      · rfl
      · next hne =>
        have hrest : .reference name ∈ pieces := by
          rcases List.mem_cons.mp hname with hfirst | hrest
          · cases hfirst
            exact absurd rfl hne
          · exact hrest
        exact ih hrest

/-- Every notation can be filled from some table. -/
theorem exists_fill_eq_ok (source : String) :
    ∃ table filled, fill table source = .ok filled := by
  obtain ⟨values, hvalues⟩ := exists_mapM_value_iff.mpr (haveValues_zeros (piecesOf source.toList))
  refine ⟨zeros (piecesOf source.toList), String.ofList values.flatten, ?_⟩
  rw [fill_eq_mapM, hvalues]
  rfl

private theorem follow?_nil (path : List String) : Catalog.follow? [] path = none := by
  cases path <;> rfl

/-- Without stored notations, an input stands for itself or for nothing. -/
theorem dereference_nil (table : Variables) (input : String) :
    dereference [] table input =
      if isNotation input then fill table input else .error (.undefinedMapping input) := by
  rw [dereference, sourceOf, follow?_nil]
  by_cases h : isNotation input = true <;> simp [h] <;> rfl

/-- If nothing is stored, then blanks around an input can be told from what it stands for. -/
theorem trim_eq_self_of_dereference {input : String}
    (h : ∀ table, dereference [] table (String.ofList (Text.trim input.toList)) =
      dereference [] table input) : Text.trim input.toList = input.toList := by
  simp only [dereference_nil, isNotation_trim] at h
  cases hmeant : isNotation input with
  | false =>
    have herror := h []
    simp only [hmeant, Bool.false_eq_true, if_false, Except.error.injEq,
      Failure.undefinedMapping.injEq] at herror
    rw [← String.toList_ofList (l := Text.trim input.toList), herror]
  | true =>
    -- With a table that has all values, the two filled texts are equal, and they have kept the
    -- blanks of the texts from which they were made.
    obtain ⟨table, filled, hfilled⟩ := exists_fill_eq_ok input
    have htrimmed : fill table (String.ofList (Text.trim input.toList)) = .ok filled := by
      have hsame := h table
      rwa [hmeant, if_pos rfl, if_pos rfl, hfilled] at hsame
    rw [fill_eq_ok_iff] at hfilled htrimmed
    rw [String.toList_ofList] at htrimmed
    exact Text.trim_eq_self_of_countP
      (hfilled.countP_isBlank.symm.trans htrimmed.countP_isBlank)

end Reference

namespace Sheet

variable {sheet : Sheet} {input : String}

/-- A blank input stands for the default roll. -/
theorem effective_of_allBlank (h : AllBlank input.toList) :
    sheet.effective input = sheet.options.defaultRoll :=
  if_pos (Text.trim_eq_nil_iff.mpr h)

/-- Any other input stands for itself, without the blanks around it. -/
theorem effective_of_not_allBlank (h : ¬AllBlank input.toList) :
    sheet.effective input = String.ofList (Text.trim input.toList) :=
  if_neg fun htrim => h (Text.trim_eq_nil_iff.mp htrim)

/-- The default roll stands for itself if it is blank or has no blanks around it. -/
theorem effective_defaultRoll
    (h : AllBlank sheet.options.defaultRoll.toList ∨
      Text.trim sheet.options.defaultRoll.toList = sheet.options.defaultRoll.toList) :
    sheet.effective sheet.options.defaultRoll = sheet.options.defaultRoll := by
  by_cases hblank : AllBlank sheet.options.defaultRoll.toList
  · exact effective_of_allBlank hblank
  · have htrim := h.resolve_left hblank
    rw [effective_of_not_allBlank hblank, htrim, String.ofList_toList]

/-- What an input stands for, and what rolling it gives, depend on its trimmed text only. -/
theorem sourceFor_congr {other : String} (h : sheet.effective input = sheet.effective other) :
    sheet.sourceFor input = sheet.sourceFor other := by
  rw [sourceFor, sourceFor, h]

/-- What is rolled depends only on what the input stands for. -/
theorem roll_congr {other : String} (h : sheet.effective input = sheet.effective other)
    (samples : Samples) (position : Nat) :
    sheet.roll samples position input = sheet.roll samples position other := by
  simp only [roll, mappingEvents, sourceFor_congr h, h]

/-- Whatever is stored, a blank input stands for what the default roll stands for, and is rolled
like it, exactly if the default roll is blank itself or has no blanks around it. -/
theorem blank_is_default_iff (options : Options) :
    (∀ (catalog : Catalog) (table : Variables) (input : String), AllBlank input.toList →
      let sheet : Sheet := ⟨options, catalog, table⟩
      sheet.sourceFor input = sheet.sourceFor options.defaultRoll ∧
        ∀ samples position,
          sheet.roll samples position input = sheet.rollDefault samples position) ↔
      AllBlank options.defaultRoll.toList ∨
        Text.trim options.defaultRoll.toList = options.defaultRoll.toList := by
  constructor
  · intro h
    by_cases hblank : AllBlank options.defaultRoll.toList
    · exact .inl hblank
    · refine .inr (Reference.trim_eq_self_of_dereference fun table => ?_)
      have hempty : AllBlank "".toList := by simp [AllBlank]
      have hsource := (h [] table "" hempty).1
      rw [sourceFor, sourceFor, effective_of_allBlank hempty,
        effective_of_not_allBlank hblank] at hsource
      exact hsource.symm
  · intro h catalog table input hinput sheet
    have heffective : sheet.effective input = sheet.effective options.defaultRoll :=
      (effective_of_allBlank hinput).trans (effective_defaultRoll h).symm
    exact ⟨sourceFor_congr heffective, roll_congr heffective⟩

/-- A blank before the name of a stored notation is enough: the default roll is found under that
name, but nothing is found for a blank input. -/
theorem not_forall_blank_is_default :
    ¬∀ (sheet : Sheet) (input : String), AllBlank input.toList →
      sheet.sourceFor input = sheet.sourceFor sheet.options.defaultRoll := by
  intro hsame
  let sheet : Sheet :=
    { options := { defaultRoll := " initiative" }, catalog := [("initiative", .roll "1d20 + 2")] }
  have hblank : AllBlank "  ".toList := List.all_eq_true.mp (by decide)
  have hnothing : sheet.catalog.follow? (Catalog.segments " initiative") = none := rfl
  have hmeant : Reference.isNotation " initiative" = false := by decide
  have hinput : sheet.sourceFor "  " = .error (.undefinedMapping " initiative") := by
    rw [sourceFor, effective_of_allBlank hblank, Reference.dereference, Reference.sourceOf,
      hnothing, hmeant]
    rfl
  have hdefault : sheet.sourceFor " initiative" = .ok "1d20 + 2" := by
    have hnotBlank : ¬AllBlank " initiative".toList :=
      fun h => absurd (h 'i' (by decide)) (by decide)
    have htrim : Text.trim " initiative".toList = "initiative".toList := by decide
    have hfilled : Reference.fill [] "1d20 + 2" = .ok "1d20 + 2" :=
      Reference.fill_eq_ok_iff.mpr (Reference.fills_self (by decide))
    rw [sourceFor, effective_of_not_allBlank hnotBlank, htrim, String.ofList_toList]
    exact hfilled
  have heq := hsame sheet "  " hblank
  rw [hinput, hdefault] at heq
  cases heq

end Sheet

end DiceNotation
