import DiceNotation.Proofs.Notation.Binding
import DiceNotation.Proofs.Notation.Parts

/-!
# Texts side by side

If a text has a meaning, then another text can be written behind it, with a blank between, and
both keep their meanings. All calls of the first text are closed in it, so that none reaches into
the second one, and the blank parts the words and the names on its two sides. The expressions of
two notations side by side are therefore those of the first one and then those of the second one.
-/

namespace DiceNotation.Notation

open Text (isBlank)

/-- A text that has a meaning stays in front of whatever is written behind it, with a blank
between. -/
theorem row?_append {c : Char} (hc : isBlank c = true) {first : List Char} {row : List Token}
    (h : row? first = some row) (second : List Char) :
    row? (first ++ c :: second) = (row? second).map (row ++ ·) := by
  rw [row?_eq_parts, Option.bind_eq_some_iff] at h
  obtain ⟨parts, hparts, hrow⟩ := h
  rw [row?_eq_parts, row?_eq_parts, parts?_append hc hparts]
  cases parts? second with
  | none => rfl
  | some others =>
    simp only [Option.map_some, Option.bind_some, List.mapM_append, hrow]
    cases others.mapM Part.token? <;> rfl

/-- The empty text has no tokens. -/
theorem row?_nil : row? [] = some [] :=
  row?_of_none rfl

/-- Blanks in front of a text do not matter. -/
theorem row?_blanks {blanks : List Char} (hblanks : ∀ c ∈ blanks, isBlank c = true)
    (text : List Char) : row? (blanks ++ text) = row? text := by
  induction blanks with
  | nil => rfl
  | cons c blanks ih =>
    have hfirst : row? (c :: (blanks ++ text)) = _ :=
      row?_append (hblanks c List.mem_cons_self) row?_nil (blanks ++ text)
    rw [List.cons_append, hfirst, ih fun d hd => hblanks d (List.mem_cons_of_mem c hd)]
    simp

/-- A computation has a result exactly if its option is this result. -/
theorem eq_ok_iff_toOption {ε α : Type} {result : Except ε α} {a : α} :
    result = .ok a ↔ result.toOption = some a := by
  cases result <;> simp [Except.toOption]

/-- A notation is read into some expressions exactly if its tokens are bound to them and there is
one of them at least. -/
theorem read_eq_ok_iff {source : String} {exprs : List Expr} :
    read source = .ok exprs ↔
      exprs ≠ [] ∧ ∃ row, row? source.toList = some row ∧ bindTokens row = .ok exprs := by
  rw [eq_ok_iff_toOption, toOption_read, run?_readChars, ← tokens_of_lifted]
  simp only [eq_ok_iff_toOption, Option.map_eq_some_iff, Option.bind_eq_some_iff, Prod.exists]
  constructor
  · rintro ⟨_, _, ⟨lifted, middle, hlift, row, last, hrow, bound, hbound, hnonempty⟩, rfl⟩
    cases bound with
    | nil => cases hnonempty
    | cons e rest =>
      cases hnonempty
      exact ⟨by simp, row, ⟨lifted, middle, hlift, row, last, hrow, rfl⟩, hbound⟩
  · rintro ⟨hne, _, ⟨lifted, middle, hlift, row, last, hrow, rfl⟩, hbound⟩
    refine ⟨exprs, last.noted row, ⟨lifted, middle, hlift, row, last, hrow, exprs, hbound, ?_⟩, rfl⟩
    rw [if_neg (by simpa using hne)]

/-- Two notations with blanks between them are read into the expressions of the first one and then
those of the second one. -/
theorem read_append {first blanks second : String} {exprs others : List Expr}
    (hne : blanks ≠ "") (hblanks : ∀ c ∈ blanks.toList, isBlank c = true)
    (hfirst : read first = .ok exprs) (hsecond : read second = .ok others) :
    read (first ++ blanks ++ second) = .ok (exprs ++ others) := by
  obtain ⟨hexprs, row, hrow, hbound⟩ := read_eq_ok_iff.mp hfirst
  obtain ⟨-, next, hnext, hboundNext⟩ := read_eq_ok_iff.mp hsecond
  have hboth : row? (first ++ blanks ++ second).toList = some (row ++ next) := by
    cases htext : blanks.toList with
    | nil => exact absurd (String.toList_eq_nil_iff.mp htext) hne
    | cons c rest =>
      rw [htext] at hblanks
      have hc : isBlank c = true := hblanks c List.mem_cons_self
      have hrest : row? (rest ++ second.toList) = some next := by
        rw [row?_blanks fun d hd => hblanks d (List.mem_cons_of_mem c hd), hnext]
      rw [String.toList_append, String.toList_append, htext, List.append_assoc, List.cons_append,
        row?_append hc hrow, hrest, Option.map_some]
  exact read_eq_ok_iff.mpr
    ⟨by simp [hexprs], row ++ next, hboth, bindAfter_append hbound hboundNext⟩

/-- A call and an operation stand before a tabulator and an ideographic space, a variable after a
comma and another operation behind them; parentheses that open no call stand on either side. -/
theorem read_append_calls :
    read "max(2d6, 3) + 1 (" = .ok [.operation
        (.call .max [.dice ⟨2, .sided 6 (by decide)⟩, .number 3]) .add (.number 1)] ∧
      read ") $x, 2 * 3" = .ok [.variable "x", .operation (.number 2) .mul (.number 3)] ∧
      read ("max(2d6, 3) + 1 (" ++ "\t\u3000" ++ ") $x, 2 * 3") = .ok ([.operation
        (.call .max [.dice ⟨2, .sided 6 (by decide)⟩, .number 3]) .add (.number 1)] ++
        [.variable "x", .operation (.number 2) .mul (.number 3)]) := by
  let pool : Expr := .dice ⟨2, .sided 6 (by decide)⟩
  have hfirst : read "max(2d6, 3) + 1 (" =
      .ok [.operation (.call .max [pool, .number 3]) .add (.number 1)] := by
    have hcall : leftmostCall "max(2d6, 3) + 1 (".toList =
        .ok (some ⟨[], "max".toList, "2d6, 3".toList, " + 1 (".toList⟩) := rfl
    have harguments : argumentTexts "2d6, 3".toList = ["2d6".toList, "3".toList] := rfl
    have hpool : row? "2d6".toList = some [.operand pool] := row?_of_none rfl
    have hnumber : row? "3".toList = some [.operand (.number 3)] := row?_of_none rfl
    have hafter : row? " + 1 (".toList =
        some [.operator .add, .operand (.number 1), .stray ['(']] := row?_of_none rfl
    have hrow : row? "max(2d6, 3) + 1 (".toList =
        some [.operand (.call .max [pool, .number 3]), .operator .add, .operand (.number 1),
          .stray ['(']] := by
      rw [row?_of_some hcall, harguments, parameters?, hpool, parameters?, hnumber, parameters?,
        hafter]
      rfl
    exact read_eq_ok_iff.mpr ⟨by simp, _, hrow, rfl⟩
  have hsecond : read ") $x, 2 * 3" =
      .ok [.variable "x", .operation (.number 2) .mul (.number 3)] := by
    have hrow : row? ") $x, 2 * 3".toList =
        some [.stray [')'], .operand (.variable "x"), .operand (.number 2), .operator .mul,
          .operand (.number 3)] := row?_of_none rfl
    exact read_eq_ok_iff.mpr ⟨by simp, _, hrow, rfl⟩
  have hblanks : ∀ c ∈ "\t\u3000".toList, isBlank c = true := List.all_eq_true.mp (by decide)
  exact ⟨hfirst, hsecond, read_append (by decide) hblanks hfirst hsecond⟩

end DiceNotation.Notation
