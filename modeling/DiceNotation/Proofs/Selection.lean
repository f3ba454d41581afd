import DiceNotation.Proofs.SameDice
import DiceNotation.Proofs.Sets
import Mathlib.Algebra.Order.Group.Multiset

/-!
# Choices conserve values

The functions that choose make no values. Of the values that an expression is made of, numbers,
variables and dice, a choice lets some through as they are and leaves the others out, and so does
a choice among choices: no value comes out more often than it went in.
-/

namespace DiceNotation

/-- Whether a function chooses among the values of its sets. -/
def Builtin.chooses : Builtin → Bool
  | .max | .min | .drop => true
  | .avg | .sum | .count => false

namespace Expr

/-- An expression made of numbers, variables, pools and functions that choose. -/
inductive OnlyChooses : Expr → Prop
  | number (value : Int64) : OnlyChooses (.number value)
  | «variable» (name : String) : OnlyChooses (.variable name)
  | dice (pool : Pool) : OnlyChooses (.dice pool)
  | call {function : Builtin} {parameters : List Expr} (hfunction : function.chooses = true)
      (hparameters : ∀ e ∈ parameters, OnlyChooses e) : OnlyChooses (.call function parameters)

mutual

/-- The values of the numbers and of the variables in an expression. -/
def constants (table : Variables) : Expr → Multiset Value
  | .number value => {.ofInt value.toInt}
  | .variable name => ((table.get? name).map fun value => Value.ofInt value.toInt).toList
  | .dice _ => 0
  | .operation left _ right => left.constants table + right.constants table
  | .call _ parameters => constantsOf table parameters

/-- The values of the numbers and of the variables in a list of expressions. -/
def constantsOf (table : Variables) : List Expr → Multiset Value
  | [] => 0
  | e :: rest => e.constants table + constantsOf table rest

end

end Expr

/-- The values that dice count. -/
def countedValues (shown : List Int64) : Multiset Value :=
  shown.map fun value => Value.ofInt value.toInt

private theorem countedValues_append (first second : List Int64) :
    countedValues (first ++ second) = countedValues first + countedValues second := by
  simp [countedValues]

/-- A function that chooses has no values but those of its sets. -/
theorem values_le_of_chooses {function : Builtin} (hfunction : function.chooses = true)
    (target : Value) {sets : List (List Value)} (h : sets ≠ []) :
    (function.onSets target sets : Multiset Value) ≤ sets.flatten := by
  have hperm := Sets.withoutLeast_append_least_perm h
  rw [Multiset.coe_le]
  cases function with
  | max => exact Sets.greatest_subperm sets
  | min => exact (List.sublist_append_right _ _).subperm.trans hperm.subperm
  | drop => exact (List.sublist_append_left _ _).subperm.trans hperm.subperm
  | avg => cases hfunction
  | sum => cases hfunction
  | count => cases hfunction

section

variable {setting : Setting}

/-- A call of a function that chooses gives values of its sets. -/
theorem values_le_of_callValues {function : Builtin} (hfunction : function.chooses = true)
    {parameters : List Expr} {sets : List (List Value)} {tray tray' : Tray} {values : List Value}
    (h : callValues setting function parameters sets tray = .ok values tray') :
    (values : Multiset Value) ≤ sets.flatten := by
  cases sets with
  | nil => cases h
  | cons first rest =>
    have hvalues : values = function.onSets (Value.ofInt setting.options.defaultCount.toInt)
        (first :: rest) := by
      cases function with
      | count => cases hfunction
      | _ => exact (Step.pure_eq_ok_iff.mp h).1.symm
    rw [hvalues]
    exact values_le_of_chooses hfunction _ (by simp)

mutual

/-- The values of an expression that only chooses are among its numbers and variables and the dice
that are added for it. -/
theorem values_le_of_evaluate {e : Expr} (hchooses : e.OnlyChooses) {tray tray' : Tray}
    {values : List Value} (h : e.evaluate setting tray = .ok values tray') :
    ∃ added, tray'.shown = tray.shown ++ added ∧
      (values : Multiset Value) ≤ e.constants setting.variables + countedValues added := by
  cases hchooses with
  | number value =>
    obtain ⟨rfl, rfl⟩ := Step.pure_eq_ok_iff.mp h
    exact ⟨[], by simp, by simp [Expr.constants, countedValues]⟩
  | «variable» name =>
    obtain ⟨value, hvalue, rfl, rfl⟩ := parts_of_variable h
    exact ⟨[], by simp, by simp [Expr.constants, countedValues, hvalue]⟩
  | dice pool =>
    obtain ⟨added, -, hadded⟩ := Tray.adds_of_evaluate h
    refine ⟨added, hadded, ?_⟩
    rw [values_of_rollPool h hadded, Expr.constants, zero_add, countedValues]
  | call hfunction hparameters =>
    obtain ⟨sets, hsets, hvalues⟩ := parts_of_call h
    obtain ⟨added, hadded, hle⟩ := values_le_of_evaluateAll hparameters hsets
    exact ⟨added, hadded, (values_le_of_callValues hfunction hvalues).trans hle⟩

/-- Expressions that only choose give values of their constants and dice. -/
theorem values_le_of_evaluateAll {exprs : List Expr} (hchoose : ∀ e ∈ exprs, e.OnlyChooses)
    {tray tray' : Tray} {sets : List (List Value)}
    (h : Expr.evaluateAll setting exprs tray = .ok sets tray') :
    ∃ added, tray'.shown = tray.shown ++ added ∧
      (sets.flatten : Multiset Value) ≤
        Expr.constantsOf setting.variables exprs + countedValues added := by
  cases exprs with
  | nil =>
    obtain ⟨rfl, rfl⟩ := Step.pure_eq_ok_iff.mp h
    exact ⟨[], by simp, Multiset.zero_le _⟩
  | cons e rest =>
    obtain ⟨values, middle, others, hfirst, hothers, rfl⟩ := parts_of_cons h
    obtain ⟨added, hadded, hle⟩ := values_le_of_evaluate (hchoose e (by simp)) hfirst
    obtain ⟨more, hmore, hleothers⟩ :=
      values_le_of_evaluateAll (fun d hd => hchoose d (by simp [hd])) hothers
    refine ⟨added ++ more, by rw [hmore, hadded, List.append_assoc], ?_⟩
    rw [List.flatten_cons, ← Multiset.coe_add, Expr.constantsOf, countedValues_append,
      add_add_add_comm]
    exact add_le_add hle hleothers

end

/-- A roll that only chooses conserves values. If a notation is made of numbers, variables and dice
and of functions that choose, in any nesting, then all values that are left in the end are, with
their bits and no more often, among the values of the numbers, the variables and the dice. -/
theorem values_le_of_rollAll {source : String} {exprs : List Expr} {start tray : Tray}
    {outcome : Outcome} (hchoose : ∀ e ∈ exprs, e.OnlyChooses)
    (h : rollAll setting source exprs start = .ok outcome tray) :
    (outcome.values : Multiset Value) ≤
      Expr.constantsOf setting.variables exprs + countedValues outcome.diceValues := by
  obtain ⟨sets, hsets, rfl⟩ := rollAll_eq_ok_iff.mp h
  obtain ⟨added, hadded, hle⟩ := values_le_of_evaluateAll hchoose hsets
  have hdice : countedValues tray.shown = countedValues start.shown + countedValues added := by
    rw [hadded, countedValues_append]
  refine hle.trans (add_le_add_right ?_ _)
  change countedValues added ≤ countedValues tray.shown
  rw [hdice]
  exact Multiset.le_add_left _ _

/-- Dice and a variable pass through two choices of several sets and one of a single set. -/
theorem values_le_of_rollAll_nested :
    let setting : Setting :=
      { «variables» := [("bonus", 3)], samples := fun position => UInt32.ofNat position }
    let d6 : Die := .sided 6 (by decide)
    let exprs : List Expr :=
      [.call .drop [.call .max [.dice ⟨2, d6⟩, .dice ⟨1, .fate⟩], .variable "bonus", .number 4],
        .call .min [.dice ⟨3, d6⟩]]
    let source := "drop(max(2d6, 1dF), $bonus, 4) min(3d6)"
    (∀ e ∈ exprs, e.OnlyChooses) ∧
      ∃ outcome tray, rollAll setting source exprs {} = .ok outcome tray ∧
        outcome.diceValues = [1, 2, 0, 4, 5, 6] ∧
        (outcome.values : Multiset Value) ≤
          Expr.constantsOf setting.variables exprs + countedValues [1, 2, 0, 4, 5, 6] := by
  intro setting d6 exprs source
  have hchoose : ∀ e ∈ exprs, e.OnlyChooses := by
    have hmax : (Expr.call .max [.dice ⟨2, d6⟩, .dice ⟨1, .fate⟩]).OnlyChooses :=
      .call rfl (by simp [Expr.OnlyChooses.dice])
    have hdrop : (Expr.call .drop [.call .max [.dice ⟨2, d6⟩, .dice ⟨1, .fate⟩],
        .variable "bonus", .number 4]).OnlyChooses :=
      .call rfl (by simp [hmax, Expr.OnlyChooses.variable, Expr.OnlyChooses.number])
    have hmin : (Expr.call .min [.dice ⟨3, d6⟩]).OnlyChooses :=
      .call rfl (by simp [Expr.OnlyChooses.dice])
    simp [exprs, hdrop, hmin]
  have hroll : ∃ outcome tray, rollAll setting source exprs {} = .ok outcome tray ∧
      outcome.diceValues = [1, 2, 0, 4, 5, 6] := ⟨_, _, rfl, by decide⟩
  obtain ⟨outcome, tray, hroll, hdice⟩ := hroll
  have hle := values_le_of_rollAll hchoose hroll
  rw [hdice] at hle
  exact ⟨hchoose, outcome, tray, hroll, hdice, hle⟩

end

end DiceNotation
