import DiceNotation.Outcome
import DiceNotation.Proofs.Step
import Mathlib.Logic.Relation

/-!
# Rolling pools

What rolling a pool does to the tray, and what evaluating an expression does to it: an
evaluation that succeeds rolls each pool of the expression once, in the order in which the
pools stand in it, and an evaluation that fails has rolled pools only.
-/

namespace DiceNotation

/-- Whether a pool is refused by a tray in which its dice were counted already. -/
def Tray.refuses (setting : Setting) (pool : Pool) (tray : Tray) : Bool :=
  setting.options.exceeded tray.counted || !tray.hasRoom pool.count.toNat

/-- The tray after all dice of a pool were counted and cast. -/
def Tray.afterPool (setting : Setting) (pool : Pool) (tray : Tray) : Tray :=
  (tray.count pool.count.toNat).castMany setting pool pool.count.toNat

/-- The tray after several pools, one after the other. -/
def Tray.afterPools (setting : Setting) : List Pool → Tray → Tray
  | [], tray => tray
  | pool :: rest, tray => afterPools setting rest (tray.afterPool setting pool)

/-- Two rows of pools are rolled one after the other. -/
theorem Tray.afterPools_append (setting : Setting) (first second : List Pool) (tray : Tray) :
    tray.afterPools setting (first ++ second) =
      (tray.afterPools setting first).afterPools setting second := by
  induction first generalizing tray with
  | nil => rfl
  | cons pool rest ih => exact ih _

/-- A refused pool leaves nothing but its count. -/
theorem rollPool_of_refuses {setting : Setting} {pool : Pool} {tray : Tray}
    (h : (tray.count pool.count.toNat).refuses setting pool = true) :
    rollPool setting pool tray = .error .tooManyDice (tray.count pool.count.toNat) := by
  unfold Tray.refuses at h
  change (if _ then _ else _ : Casting (List Value)) (tray.count pool.count.toNat) = _
  rw [if_pos h]
  rfl

/-- A pool that is not refused is rolled, and gives the values of its dice. -/
theorem rollPool_of_not_refuses {setting : Setting} {pool : Pool} {tray : Tray}
    (h : (tray.count pool.count.toNat).refuses setting pool = false) :
    rollPool setting pool tray =
      .ok ((tray.afterPool setting pool).valuesFrom tray.dice.size)
        (tray.afterPool setting pool) := by
  unfold Tray.refuses at h
  change (if _ then _ else _ : Casting (List Value)) (tray.count pool.count.toNat) = _
  rw [if_neg (by rw [h]; decide)]
  rfl

/-- Rolling a pool succeeds exactly if the pool is not refused. Then all its dice were cast, and
its values are those of these dice. -/
theorem rollPool_eq_ok_iff {setting : Setting} {pool : Pool} {tray tray' : Tray}
    {values : List Value} :
    rollPool setting pool tray = .ok values tray' ↔
      (tray.count pool.count.toNat).refuses setting pool = false ∧
        tray' = tray.afterPool setting pool ∧ values = tray'.valuesFrom tray.dice.size := by
  cases hrefuses : (tray.count pool.count.toNat).refuses setting pool with
  | true => simp [rollPool_of_refuses hrefuses]
  | false =>
    rw [rollPool_of_not_refuses hrefuses]
    constructor
    · intro h
      obtain ⟨rfl, rfl⟩ := EStateM.Result.ok.inj h
      exact ⟨rfl, rfl, rfl⟩
    · rintro ⟨-, rfl, rfl⟩
      rfl

/-- If rolling a pool succeeds, then all its dice were cast. -/
theorem tray_of_rollPool {setting : Setting} {pool : Pool} {tray tray' : Tray}
    {values : List Value} (h : rollPool setting pool tray = .ok values tray') :
    tray' = tray.afterPool setting pool :=
  (rollPool_eq_ok_iff.mp h).2.1

/-- Looking up a variable does not touch the tray, also when the variable has no value. -/
theorem variableValue_eq (setting : Setting) (name : String) (tray : Tray) :
    variableValue setting name tray =
      match setting.variables.get? name with
      | some value => .ok value tray
      | none => .error (.undefinedVariable name) tray := by
  unfold variableValue
  cases setting.variables.get? name <;> rfl

/-- The value of an operation that succeeds is the result of its operator. It does not touch the
tray. -/
theorem operate_eq_ok {l r : Value} {operator : Operator} {tray tray' : Tray}
    {values : List Value} (h : operate l operator r tray = .ok values tray') :
    values = [operator.apply l r] ∧ tray' = tray := by
  unfold operate at h
  split at h
  · cases h
  · obtain ⟨rfl, rfl⟩ := Step.pure_eq_ok_iff.mp h
    exact ⟨rfl, rfl⟩

/-- The values of a call do not depend on the tray: they are there, or the call fails. -/
theorem callValues_cases (setting : Setting) (function : Builtin) (parameters : List Expr)
    (sets : List (List Value)) :
    (∃ values, callValues setting function parameters sets = pure values) ∨
      ∃ failure, callValues setting function parameters sets = throw failure := by
  unfold callValues
  split
  · exact .inr ⟨_, rfl⟩
  · split
    all_goals exact .inl ⟨_, rfl⟩

/-- The values of a call do not touch the tray. -/
theorem tray_of_callValues {setting : Setting} {function : Builtin} {parameters : List Expr}
    {sets : List (List Value)} {tray tray' : Tray} {values : List Value}
    (h : callValues setting function parameters sets tray = .ok values tray') : tray' = tray := by
  rcases callValues_cases setting function parameters sets with ⟨found, hpure⟩ | ⟨_, hthrow⟩
  · rw [hpure] at h
    exact (Step.pure_eq_ok_iff.mp h).2.symm
  · rw [hthrow] at h
    cases h

section

variable {setting : Setting} {tray tray' : Tray} {values : List Value} {sets : List (List Value)}

/-- A variable has the value of the table. -/
theorem parts_of_variable {name : String}
    (h : (Expr.variable name).evaluate setting tray = .ok values tray') :
    ∃ value, setting.variables.get? name = some value ∧ values = [Value.ofInt value.toInt] ∧
      tray' = tray := by
  obtain ⟨value, middle, hvalue, hpure⟩ := Step.bind_eq_ok_iff.mp h
  rw [variableValue_eq] at hvalue
  cases hget : setting.variables.get? name with
  | none => simp [hget] at hvalue
  | some found =>
    simp only [hget, EStateM.Result.ok.injEq] at hvalue
    obtain ⟨rfl, rfl⟩ := hvalue
    obtain ⟨rfl, rfl⟩ := Step.pure_eq_ok_iff.mp hpure
    exact ⟨found, rfl, rfl, rfl⟩

/-- The operands of an operation are evaluated from left to right. -/
theorem parts_of_operation {left right : Expr} {operator : Operator}
    (h : (Expr.operation left operator right).evaluate setting tray = .ok values tray') :
    ∃ l middle r, left.evaluate setting tray = .ok l middle ∧
      right.evaluate setting middle = .ok r tray' ∧
      values = [operator.apply (Value.sum l) (Value.sum r)] := by
  obtain ⟨l, middle, hleft, hrest⟩ := Step.bind_eq_ok_iff.mp h
  obtain ⟨r, last, hright, hvalue⟩ := Step.bind_eq_ok_iff.mp hrest
  obtain ⟨hvalues, rfl⟩ := operate_eq_ok hvalue
  exact ⟨l, middle, r, hleft, hright, hvalues⟩

/-- The parameters of a call are evaluated before the call. -/
theorem parts_of_call {function : Builtin} {parameters : List Expr}
    (h : (Expr.call function parameters).evaluate setting tray = .ok values tray') :
    ∃ sets, Expr.evaluateAll setting parameters tray = .ok sets tray' ∧
      callValues setting function parameters sets tray' = .ok values tray' := by
  obtain ⟨sets, middle, hsets, hvalues⟩ := Step.bind_eq_ok_iff.mp h
  obtain rfl := tray_of_callValues hvalues
  exact ⟨sets, hsets, hvalues⟩

/-- Several expressions are evaluated one after the other. -/
theorem parts_of_cons {e : Expr} {rest : List Expr}
    (h : Expr.evaluateAll setting (e :: rest) tray = .ok sets tray') :
    ∃ values middle others, e.evaluate setting tray = .ok values middle ∧
      Expr.evaluateAll setting rest middle = .ok others tray' ∧ sets = values :: others := by
  obtain ⟨values, middle, hfirst, hrest⟩ := Step.bind_eq_ok_iff.mp h
  obtain ⟨others, last, hothers, hpure⟩ := Step.bind_eq_ok_iff.mp hrest
  obtain ⟨rfl, rfl⟩ := Step.pure_eq_ok_iff.mp hpure
  exact ⟨values, middle, others, hfirst, hothers, rfl⟩

end

mutual

/-- An evaluation that succeeds rolls each pool of the expression once, in order. -/
theorem tray_of_evaluate {setting : Setting} (e : Expr) {tray tray' : Tray}
    {values : List Value} (h : e.evaluate setting tray = .ok values tray') :
    tray' = tray.afterPools setting e.pools := by
  cases e with
  | number value => exact (Step.pure_eq_ok_iff.mp h).2.symm
  | «variable» name =>
    obtain ⟨_, -, -, rfl⟩ := parts_of_variable h
    rfl
  | dice pool => exact tray_of_rollPool h
  | operation left operator right =>
    obtain ⟨l, middle, r, hleft, hright, -⟩ := parts_of_operation h
    rw [tray_of_evaluate right hright, tray_of_evaluate left hleft, Expr.pools,
      Tray.afterPools_append]
  | call function parameters =>
    obtain ⟨sets, hsets, -⟩ := parts_of_call h
    rw [tray_of_evaluateAll parameters hsets, Expr.pools]

/-- Evaluating a list of expressions rolls their pools, one expression after the other. -/
theorem tray_of_evaluateAll {setting : Setting} (exprs : List Expr) {tray tray' : Tray}
    {sets : List (List Value)} (h : Expr.evaluateAll setting exprs tray = .ok sets tray') :
    tray' = tray.afterPools setting (Expr.poolsOf exprs) := by
  cases exprs with
  | nil => exact (Step.pure_eq_ok_iff.mp h).2.symm
  | cons e rest =>
    obtain ⟨values, middle, others, hfirst, hothers, -⟩ := parts_of_cons h
    rw [tray_of_evaluateAll rest hothers, tray_of_evaluate e hfirst, Expr.poolsOf,
      Tray.afterPools_append]

end

/-- The parts of a roll that succeeds: the values are those of the expressions, the dice are those
that the tray shows in the end. -/
theorem rollAll_eq_ok_iff {setting : Setting} {source : String} {exprs : List Expr}
    {start tray : Tray} {outcome : Outcome} :
    rollAll setting source exprs start = .ok outcome tray ↔
      ∃ sets, Expr.evaluateAll setting exprs start = .ok sets tray ∧
        outcome = ⟨Value.total sets.flatten, source, sets.flatten, tray.dice.toList⟩ := by
  constructor
  · intro h
    obtain ⟨sets, last, hsets, hrest⟩ := Step.bind_eq_ok_iff.mp h
    obtain ⟨_, _, hget, hpure⟩ := Step.bind_eq_ok_iff.mp hrest
    cases hget
    obtain ⟨rfl, rfl⟩ := Step.pure_eq_ok_iff.mp hpure
    exact ⟨sets, hsets, rfl⟩
  · rintro ⟨sets, hsets, rfl⟩
    exact Step.bind_of_ok hsets

/-- A tray changes in one step: a pool is rolled, with success or not. -/
def Tray.Next (setting : Setting) (tray tray' : Tray) : Prop :=
  ∃ pool, tray' = Step.stateOf (rollPool setting pool tray)

/-- A tray changes in any number of steps. -/
def Tray.Reaches (setting : Setting) : Tray → Tray → Prop :=
  Relation.ReflTransGen (Tray.Next setting)

/-- An operation reaches a tray by rolling no pool. -/
theorem operate_reaches (setting : Setting) (l r : Value) (operator : Operator) (tray : Tray) :
    tray.Reaches setting (Step.stateOf (operate l operator r tray)) := by
  unfold operate
  split <;> exact Relation.ReflTransGen.refl

/-- A call reaches a tray by rolling no more than one pool. -/
theorem callValues_reaches (setting : Setting) (function : Builtin) (parameters : List Expr)
    (sets : List (List Value)) (tray : Tray) :
    tray.Reaches setting (Step.stateOf (callValues setting function parameters sets tray)) := by
  rcases callValues_cases setting function parameters sets with ⟨_, hpure⟩ | ⟨_, hthrow⟩
  · rw [hpure]
    exact Relation.ReflTransGen.refl
  · rw [hthrow]
    exact Relation.ReflTransGen.refl

mutual

/-- An evaluation, also one that fails, changes the tray by rolling pools only. -/
theorem evaluate_reaches (setting : Setting) (e : Expr) (tray : Tray) :
    tray.Reaches setting (Step.stateOf (e.evaluate setting tray)) := by
  cases e with
  | number value => exact Relation.ReflTransGen.refl
  | «variable» name =>
    refine Step.stateOf_bind Relation.ReflTransGen.trans ?_ fun _ _ => Relation.ReflTransGen.refl
    rw [variableValue_eq]
    split <;> exact Relation.ReflTransGen.refl
  | dice pool => exact Relation.ReflTransGen.single ⟨pool, rfl⟩
  | operation left operator right =>
    refine Step.stateOf_bind Relation.ReflTransGen.trans (evaluate_reaches setting left tray) ?_
    intro l middle
    refine Step.stateOf_bind Relation.ReflTransGen.trans (evaluate_reaches setting right middle) ?_
    intro r last
    exact operate_reaches setting _ _ operator last
  | call function parameters =>
    refine Step.stateOf_bind Relation.ReflTransGen.trans
      (evaluateAll_reaches setting parameters tray) ?_
    intro sets middle
    exact callValues_reaches setting function parameters sets middle

/-- Evaluating a list of expressions changes the tray by rolling pools only. -/
theorem evaluateAll_reaches (setting : Setting) (exprs : List Expr) (tray : Tray) :
    tray.Reaches setting (Step.stateOf (Expr.evaluateAll setting exprs tray)) := by
  cases exprs with
  | nil => exact Relation.ReflTransGen.refl
  | cons e rest =>
    refine Step.stateOf_bind Relation.ReflTransGen.trans (evaluate_reaches setting e tray) ?_
    intro values middle
    refine Step.stateOf_bind Relation.ReflTransGen.trans
      (evaluateAll_reaches setting rest middle) ?_
    exact fun _ _ => Relation.ReflTransGen.refl

end

end DiceNotation
