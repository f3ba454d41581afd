import DiceNotation.Proofs.Notation.Accounts

/-!
# Calls are used once

Every call that is put on the shelf is fetched once, and stands once in the expressions that are
read: by the accounts of the shelf, since nothing lies there any more when a text has been read. A
word in the form of a placeholder that the text itself has would break this. It makes reading fail,
wherever it stands and whatever place it names.
-/

namespace DiceNotation.Notation

open ReadState

/-- When a text has been read, nothing lies on the shelf. -/
theorem call?_of_readChars {text : List Char} {exprs : List Expr} {state : ReadState}
    (h : readChars text {} = .ok exprs state) (place : Nat) : state.call? place = none := by
  have hrun := run?_of_ok h
  simp only [run?_readChars, Option.bind_eq_some_iff, Prod.exists] at hrun
  obtain ⟨lifted, middle, hlift, row, last, hrow, found, -, hfound⟩ := hrun
  have hnothing (state other : ReadState) : Keeps ({} : ReadState).places state other :=
    fun place hplace => absurd hplace (Nat.not_lt_zero place)
  have hclears := (readsDirectly.1 text _ _ _ _ _ _ hlift (Spent.refl middle) hrow
    (hnothing _ _) (hnothing _ _)).2.2
  split at hfound
  · cases hfound
  · cases hfound
    exact hclears place (Nat.zero_le _)

/-- A word that consists of `fn#` and a numeral. -/
def IsPlaceholder (word : List Char) : Prop :=
  ∃ numeral, Text.isNumeral numeral = true ∧ word = 'f' :: 'n' :: '#' :: numeral

/-- A word in the form of a placeholder stands in a text, outside of all calls or in an argument
of some call. -/
inductive HoldsPlaceholder : List Char → Prop
  | word {text word : List Char} (hcalls : ∀ site, leftmostCall text ≠ .ok (some site))
      (hmem : word ∈ wordsOf text) (hword : IsPlaceholder word) : HoldsPlaceholder text
  | before {text word : List Char} {site : CallSite} (hsite : leftmostCall text = .ok (some site))
      (hmem : word ∈ wordsOf site.before) (hword : IsPlaceholder word) : HoldsPlaceholder text
  | argument {text argument : List Char} {site : CallSite}
      (hsite : leftmostCall text = .ok (some site)) (hmem : argument ∈ argumentTexts site.arguments)
      (hargument : HoldsPlaceholder argument) : HoldsPlaceholder text
  | after {text : List Char} {site : CallSite} (hsite : leftmostCall text = .ok (some site))
      (hafter : HoldsPlaceholder site.after) : HoldsPlaceholder text

/-- A placeholder means nothing on its own. -/
theorem IsPlaceholder.meaning?_eq_none {word : List Char} (h : IsPlaceholder word) :
    meaning? word = none := by
  obtain ⟨numeral, hnumeral, rfl⟩ := h
  have hform : Word.ofChars ('f' :: 'n' :: '#' :: numeral) = .placeholder numeral := by
    simp [Word.ofChars, hnumeral]
  exact meaning?_placeholder hform

/-- Words of which one has no meaning have none together. -/
theorem mapM_meaning?_eq_none {words : List (List Char)} {word : List Char} (hmem : word ∈ words)
    (hword : meaning? word = none) : words.mapM meaning? = none := by
  induction hmem with
  | head rest => simp [List.mapM_cons, hword]
  | tail first _ ih =>
    rw [List.mapM_cons, ih]
    cases meaning? first <;> rfl

/-- Arguments of which one has no meaning give no parameters. -/
theorem parameters?_eq_none {arguments : List (List Char)} {argument : List Char}
    (hmem : argument ∈ arguments) (hargument : row? argument = none) :
    parameters? arguments = none := by
  induction hmem with
  | head rest => simp [parameters?, hargument]
  | tail first _ ih => simp [parameters?, ih]

/-- A text with a word in the form of a placeholder has no meaning. -/
theorem HoldsPlaceholder.row?_eq_none {text : List Char} (h : HoldsPlaceholder text) :
    row? text = none := by
  induction h with
  | @word text word hcalls hmem hword =>
    cases hfound : leftmostCall text with
    | error error => exact row?_of_error hfound
    | ok found =>
      cases found with
      | none => rw [row?_of_none hfound, mapM_meaning?_eq_none hmem hword.meaning?_eq_none]
      | some site => exact absurd hfound (hcalls site)
  | before hsite hmem hword =>
    rw [row?_of_some hsite, mapM_meaning?_eq_none hmem hword.meaning?_eq_none, Option.bind_none]
  | argument hsite hmem _ ih => simp [row?_of_some hsite, parameters?_eq_none hmem ih]
  | after hsite _ ih => simp [row?_of_some hsite, ih]

/-- All calls that were put on the shelf have been fetched, each one once and from its place, and
each stands once in some expressions. -/
structure Journal.Settled (journal : Journal) (exprs : List Expr) : Prop where
  places : journal.shelved.length = journal.state.places
  empty : ∀ place, journal.state.call? place = none
  fetched : journal.fetched.Perm journal.shelved.zipIdx
  standing : journal.shelved.Perm (Expr.callsOf exprs)

/-- The journal of a text that has been read is settled. -/
theorem settled_of_readChars {text : List Char} {exprs : List Expr} {journal : Journal}
    (h : Journaled.readChars text {} = .ok exprs journal) : journal.Settled exprs := by
  have hrun : readChars text {} = .ok exprs journal.state := by
    rw [← Journaled.follows_readChars text {}, h]
    rfl
  have hempty : ∀ place, journal.state.call? place = none := call?_of_readChars hrun
  obtain ⟨hplaces, hfetched, hshelved⟩ :=
    Journaled.balances_readChars text {} 0 exprs journal h Journal.balanced_empty
  rw [total_eq_zero _ hempty, add_zero] at hfetched
  rw [total_eq_zero _ hempty, zero_add, zero_add] at hshelved
  exact ⟨hplaces, hempty, (Multiset.coe_eq_coe.mp hfetched).symm, Multiset.coe_eq_coe.mp hshelved⟩

/-- When a notation is read, each call that is put on the shelf is fetched once, and each stands
once in the expressions. A notation with a word in the form of a placeholder is refused. -/
theorem read_linear (source : String) :
    (∀ exprs, read source = .ok exprs → ∃ journal : Journal,
      Journaled.readChars source.toList {} = .ok exprs journal ∧
        readChars source.toList {} = .ok exprs journal.state ∧ journal.Settled exprs) ∧
      (HoldsPlaceholder source.toList → ∃ error, read source = .error error) := by
  constructor
  · intro exprs hread
    obtain ⟨state, hrun⟩ := exists_state_of_read_ok hread
    obtain ⟨journal, hjournal, rfl⟩ :=
      (Journaled.follows_readChars source.toList).exists_journal {} hrun
    exact ⟨journal, hjournal, hrun, settled_of_readChars hjournal⟩
  · intro hholds
    cases hread : read source with
    | error error => exact ⟨error, rfl⟩
    | ok exprs =>
      obtain ⟨-, row, hrow, -⟩ := read_eq_ok_iff.mp hread
      rw [hholds.row?_eq_none] at hrow
      cases hrow

/-- Two calls inside of another one are read. The word `fn#00` would fetch the call behind it, and
so no notation with it is read. -/
theorem read_linear_nested :
    read "max(min(1), min(2)) + 1" = .ok [.operation
        (.call .max [.call .min [.number 1], .call .min [.number 2]]) .add (.number 1)] ∧
      (∃ journal : Journal,
        Journaled.readChars "max(min(1), min(2)) + 1".toList {} = .ok [.operation
            (.call .max [.call .min [.number 1], .call .min [.number 2]]) .add (.number 1)]
          journal ∧
        readChars "max(min(1), min(2)) + 1".toList {} = .ok [.operation
            (.call .max [.call .min [.number 1], .call .min [.number 2]]) .add (.number 1)]
          journal.state ∧
        journal.Settled [.operation
          (.call .max [.call .min [.number 1], .call .min [.number 2]]) .add (.number 1)]) ∧
      HoldsPlaceholder "max(fn#00 + min(1))".toList ∧
        ∃ error, read "max(fn#00 + min(1))" = .error error := by
  have hread : read "max(min(1), min(2)) + 1" = .ok [.operation
      (.call .max [.call .min [.number 1], .call .min [.number 2]]) .add (.number 1)] := by
    have hcall : leftmostCall "max(min(1), min(2)) + 1".toList =
        .ok (some ⟨[], "max".toList, "min(1), min(2)".toList, " + 1".toList⟩) := rfl
    have harguments : argumentTexts "min(1), min(2)".toList =
        ["min(1)".toList, "min(2)".toList] := rfl
    have hmin {digit : Char} {value : Int64}
        (hinside : leftmostCall ['m', 'i', 'n', '(', digit, ')'] =
          .ok (some ⟨[], "min".toList, [digit], []⟩))
        (hdigit : argumentTexts [digit] = [[digit]])
        (hvalue : row? [digit] = some [.operand (.number value)]) :
        row? ['m', 'i', 'n', '(', digit, ')'] = some [.operand (.call .min [.number value])] := by
      rw [row?_of_some hinside, hdigit, parameters?, hvalue, parameters?, row?_nil]
      rfl
    have hfirst : row? "min(1)".toList = some [.operand (.call .min [.number 1])] :=
      hmin rfl rfl (row?_of_none rfl)
    have hsecond : row? "min(2)".toList = some [.operand (.call .min [.number 2])] :=
      hmin rfl rfl (row?_of_none rfl)
    have hafter : row? " + 1".toList = some [.operator .add, .operand (.number 1)] :=
      row?_of_none rfl
    have hrow : row? "max(min(1), min(2)) + 1".toList =
        some [.operand (.call .max [.call .min [.number 1], .call .min [.number 2]]),
          .operator .add, .operand (.number 1)] := by
      rw [row?_of_some hcall, harguments, parameters?, hfirst, parameters?, hsecond, parameters?,
        hafter]
      rfl
    exact read_eq_ok_iff.mpr ⟨by simp, _, hrow, rfl⟩
  have houter : leftmostCall "max(fn#00 + min(1))".toList =
      .ok (some ⟨[], "max".toList, "fn#00 + min(1)".toList, []⟩) := rfl
  have hinner : leftmostCall "fn#00 + min(1)".toList =
      .ok (some ⟨"fn#00 + ".toList, "min".toList, ['1'], []⟩) := rfl
  have hmem : "fn#00".toList ∈ wordsOf "fn#00 + ".toList := by decide
  have hargument : HoldsPlaceholder "fn#00 + min(1)".toList :=
    .before hinner hmem ⟨['0', '0'], by decide, rfl⟩
  have hholds : HoldsPlaceholder "max(fn#00 + min(1))".toList :=
    .argument houter (by decide) hargument
  exact ⟨hread, (read_linear _).1 _ hread, hholds, (read_linear _).2 hholds⟩

end DiceNotation.Notation
