import DiceNotation.Outcome
import DiceNotation.Proofs.Filling.Agreement

/-!
# Early and late values of variables

The values of variables can be put into a notation before it is read, or looked up when it is
evaluated. If all references stand alone, then the results are the same.
-/

namespace DiceNotation

/-- Whether the first parameter of a call is a pool does not depend on the values of variables,
and a call looks at nothing else of its parameters. -/
theorem callValues_fillAll (setting : Setting) (function : Builtin) (parameters : List Expr)
    (sets : List (List Value)) :
    callValues setting function (Expr.fillAll setting.variables parameters) sets =
      callValues setting function parameters sets := by
  cases parameters with
  | nil => rfl
  | cons e rest =>
    rw [Expr.fillAll]
    cases e with
    | «variable» name =>
      rw [Expr.fill]
      cases setting.variables.get? name <;> cases sets <;> cases function <;> rfl
    | number value => cases sets <;> cases function <;> rfl
    | dice pool => cases sets <;> cases function <;> rfl
    | operation left operator right => cases sets <;> cases function <;> rfl
    | call inner parameters => cases sets <;> cases function <;> rfl

namespace Expr

mutual

/-- An expression has the same values when the values of variables were put into it before. -/
theorem evaluate_fill (setting : Setting) (e : Expr) :
    (e.fill setting.variables).evaluate setting = e.evaluate setting := by
  cases e with
  | number value => rfl
  | «variable» name =>
    rw [fill]
    cases hvalue : setting.variables.get? name with
    | none => rfl
    | some value =>
      simp only [evaluate, variableValue, hvalue]
      rfl
  | dice pool => rfl
  | operation left operator right =>
    rw [fill, evaluate, evaluate, evaluate_fill setting left, evaluate_fill setting right]
  | call function parameters =>
    simp only [fill, evaluate, evaluateAll_fillAll setting parameters, callValues_fillAll]

/-- Several expressions and the expressions with values are evaluated in the same way. -/
theorem evaluateAll_fillAll (setting : Setting) (exprs : List Expr) :
    evaluateAll setting (fillAll setting.variables exprs) = evaluateAll setting exprs := by
  cases exprs with
  | nil => rfl
  | cons e rest =>
    rw [fillAll, evaluateAll, evaluateAll, evaluate_fill setting e,
      evaluateAll_fillAll setting rest]

end

end Expr

/-- Rolling expressions and rolling the expressions with values is the same. -/
theorem rollAll_fillAll (setting : Setting) (name : String) (exprs : List Expr) :
    rollAll setting name (Expr.fillAll setting.variables exprs) = rollAll setting name exprs := by
  rw [rollAll, rollAll, Expr.evaluateAll_fillAll]

open Reference in
/-- If all references in a notation stand alone and have values, then it does not matter whether
the values are put into the notation before it is read, or looked up when it is evaluated: the
notation is refused with the same kind of error in both cases, or it is rolled with the same
outcome or failure, the same dice and the same samples, whatever the options and the samples
are. -/
theorem rollAll_read_fill {table : Variables} {source : String}
    (halone : AllAlone source.toList) (hdefined : AllDefined table source.toList) :
    ∃ filled, Reference.fill table source = .ok filled ∧
      ((∃ error error', Notation.read filled = .error error ∧
          Notation.read source = .error error' ∧ error.kind = error'.kind) ∨
        ∃ early late, Notation.read filled = .ok early ∧ Notation.read source = .ok late ∧
          ∀ options samples name tray,
            rollAll ⟨options, table, samples⟩ name early tray =
              rollAll ⟨options, table, samples⟩ name late tray) := by
  obtain ⟨filled, hfilled, hrelated⟩ := exists_filled halone hdefined
  refine ⟨String.ofList filled, by rw [fill, hfilled]; rfl, ?_⟩
  rcases readChars_together hrelated {} {} (filledState_empty table) with
    ⟨error, error', _, _, hs, ht, hkind⟩ | ⟨exprs, _, _, _, hs, ht, rfl, -⟩
  · rw [← String.toList_ofList (l := filled)] at ht
    exact .inl ⟨error', error, read_of_error ht, read_of_error hs, hkind.symm⟩
  · rw [← String.toList_ofList (l := filled)] at ht
    refine .inr ⟨_, exprs, read_of_ok ht, read_of_ok hs, fun options samples name tray => ?_⟩
    exact congrFun (rollAll_fillAll ⟨options, table, samples⟩ name exprs) tray

/-- A reference among the arguments of a call and one beside an operator can be filled early,
also when the value of one is negative. -/
theorem rollAll_read_fill_call :
    let table : Variables := [("x", 3), ("y", -2)]
    ∃ filled, Reference.fill table "sum($x, 1d6) - $y" = .ok filled ∧
      ((∃ error error', Notation.read filled = .error error ∧
          Notation.read "sum($x, 1d6) - $y" = .error error' ∧ error.kind = error'.kind) ∨
        ∃ early late, Notation.read filled = .ok early ∧
          Notation.read "sum($x, 1d6) - $y" = .ok late ∧
          ∀ options samples name tray,
            rollAll ⟨options, table, samples⟩ name early tray =
              rollAll ⟨options, table, samples⟩ name late tray) :=
  rollAll_read_fill (by decide) (by decide)

end DiceNotation
