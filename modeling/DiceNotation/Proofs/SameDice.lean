import DiceNotation.Proofs.Counting

/-!
# Rolls with the same dice

Samples, the lowest value of a die and the limit on dice decide which dice are rolled, and
nothing else. If two rolls of the same expressions show the same dice, then they have the same
values: both have rolled the same number of dice for each part of an expression, so that each
part has the same dice in both of them.
-/

namespace DiceNotation

namespace Tray

/-- The values of the dice in a tray. -/
def shown (tray : Tray) : List Int64 :=
  tray.dice.toList.map (·.value)

/-- A tray becomes another one by so many more dice. -/
def Adds (dice : Nat) (tray tray' : Tray) : Prop :=
  ∃ added : List Int64, added.length = dice ∧ tray'.shown = tray.shown ++ added

/-- The first tray becomes the second one, and the third one becomes the fourth one, by dice
that show the same values. -/
def AddAlike (first first' second second' : Tray) : Prop :=
  ∃ added, first'.shown = first.shown ++ added ∧ second'.shown = second.shown ++ added

private theorem shown_length (tray : Tray) : tray.shown.length = tray.dice.size := by
  simp [shown]

/-- The values of the dice from a place on are those that the tray shows from there on. -/
theorem valuesFrom_eq (tray : Tray) (place : Nat) :
    tray.valuesFrom place = (tray.shown.drop place).map fun value => Value.ofInt value.toInt := by
  have hdrop : (tray.dice.extract place).toList = tray.dice.toList.drop place := by
    rw [Array.toList_extract, List.extract_eq_drop_take', List.take_of_length_le]
    exact Nat.le_of_eq Array.length_toList
  rw [valuesFrom, hdrop, shown, ← List.map_drop, List.map_map]
  rfl

/-- Pools add their dice to those that a tray shows. -/
theorem adds_afterPools (setting : Setting) (pools : List Pool) (tray : Tray) :
    tray.Adds (diceIn pools) (tray.afterPools setting pools) := by
  have hprefix : tray.dice.toList <+: (tray.afterPools setting pools).dice.toList := by
    induction pools generalizing tray with
    | nil => exact List.prefix_rfl
    | cons pool rest ih =>
      have hpool : tray.dice.toList <+: (tray.afterPool setting pool).dice.toList :=
        prefix_castMany setting pool _ (tray.count pool.count.toNat)
      exact hpool.trans (ih _)
  obtain ⟨added, hadded⟩ := hprefix
  have hsize := size_afterPools setting pools tray
  refine ⟨added.map (·.value), ?_, ?_⟩
  · have hlength := congrArg List.length hadded
    simp only [List.length_append, Array.length_toList] at hlength
    rw [List.length_map]
    omega
  · rw [shown, shown, ← hadded, List.map_append]

/-- An expression that has values adds the dice of its pools. -/
theorem adds_of_evaluate {setting : Setting} {e : Expr} {tray tray' : Tray}
    {values : List Value} (h : e.evaluate setting tray = .ok values tray') :
    tray.Adds (diceIn e.pools) tray' := by
  rw [tray_of_evaluate e h]
  exact adds_afterPools setting e.pools tray

/-- Expressions that have values add the dice of their pools. -/
theorem adds_of_evaluateAll {setting : Setting} {exprs : List Expr} {tray tray' : Tray}
    {sets : List (List Value)} (h : Expr.evaluateAll setting exprs tray = .ok sets tray') :
    tray.Adds (diceIn (Expr.poolsOf exprs)) tray' := by
  rw [tray_of_evaluateAll exprs h]
  exact adds_afterPools setting (Expr.poolsOf exprs) tray

/-- If two rolls of two parts each add the same dice, and as many for each part, then both parts
add the same dice. -/
theorem AddAlike.parts {dice others : Nat} {first middle last first' middle' last' : Tray}
    (h : AddAlike first last first' last') (hfirst : first.Adds dice middle)
    (hfirst' : first'.Adds dice middle') (hlast : middle.Adds others last)
    (hlast' : middle'.Adds others last') :
    AddAlike first middle first' middle' ∧ AddAlike middle last middle' last' := by
  obtain ⟨added, hadded, hadded'⟩ := h
  obtain ⟨a, ha, hmiddle⟩ := hfirst
  obtain ⟨a', ha', hmiddle'⟩ := hfirst'
  obtain ⟨b, hb, hlast⟩ := hlast
  obtain ⟨b', hb', hlast'⟩ := hlast'
  have hab : added = a ++ b := by
    rw [hlast, hmiddle, List.append_assoc] at hadded
    exact (List.append_cancel_left hadded).symm
  have hab' : added = a' ++ b' := by
    rw [hlast', hmiddle', List.append_assoc] at hadded'
    exact (List.append_cancel_left hadded').symm
  obtain ⟨rfl, rfl⟩ := List.append_inj (hab.symm.trans hab') (ha.trans ha'.symm)
  exact ⟨⟨a, hmiddle, hmiddle'⟩, ⟨b, hlast, hlast'⟩⟩

/-- Two trays that show the same dice, the last so many of which were added, had dice of the
same values added. -/
theorem AddAlike.of_shown_eq {dice : Nat} {first first' second second' : Tray}
    (hfirst : first.Adds dice first') (hsecond : second.Adds dice second')
    (h : first'.shown = second'.shown) : AddAlike first first' second second' := by
  obtain ⟨added, hlength, hfirst⟩ := hfirst
  obtain ⟨added', hlength', hsecond⟩ := hsecond
  have happend : first.shown ++ added = second.shown ++ added' := by
    rw [← hfirst, ← hsecond, h]
  have hadded := (List.append_inj' happend (hlength.trans hlength'.symm)).2
  exact ⟨added, hfirst, hadded ▸ hsecond⟩

end Tray

/-- The values of a call depend on the default for `count` and on the sets of its parameters. -/
theorem values_of_callValues {setting setting' : Setting} {function : Builtin}
    {parameters : List Expr} {sets : List (List Value)} {tray last tray' last' : Tray}
    {values values' : List Value}
    (hcount : setting.options.defaultCount = setting'.options.defaultCount)
    (h : callValues setting function parameters sets tray = .ok values last)
    (h' : callValues setting' function parameters sets tray' = .ok values' last') :
    values = values' := by
  have hsame : callValues setting function parameters sets =
      callValues setting' function parameters sets := by
    unfold callValues
    rw [hcount]
  rw [hsame] at h
  rcases callValues_cases setting' function parameters sets with ⟨found, hpure⟩ | ⟨_, hthrow⟩
  · rw [hpure] at h h'
    rw [← (Step.pure_eq_ok_iff.mp h).1, ← (Step.pure_eq_ok_iff.mp h').1]
  · rw [hthrow] at h
    cases h

/-- The values of a pool are those of the dice that it adds. -/
theorem values_of_rollPool {setting : Setting} {pool : Pool} {tray tray' : Tray}
    {values : List Value} {added : List Int64}
    (h : rollPool setting pool tray = .ok values tray')
    (hadded : tray'.shown = tray.shown ++ added) :
    values = added.map fun value => Value.ofInt value.toInt := by
  obtain ⟨-, -, hvalues⟩ := rollPool_eq_ok_iff.mp h
  rw [hvalues, Tray.valuesFrom_eq, hadded, ← Tray.shown_length, List.drop_left]

variable {setting setting' : Setting}

mutual

/-- Two evaluations of an expression that add the same dice give the same values. -/
theorem values_of_addAlike (hvariables : setting.variables = setting'.variables)
    (hcount : setting.options.defaultCount = setting'.options.defaultCount) (e : Expr)
    {tray last tray' last' : Tray} {values values' : List Value}
    (h : e.evaluate setting tray = .ok values last)
    (h' : e.evaluate setting' tray' = .ok values' last')
    (halike : Tray.AddAlike tray last tray' last') : values = values' := by
  cases e with
  | number value =>
    exact (Step.pure_eq_ok_iff.mp h).1.symm.trans (Step.pure_eq_ok_iff.mp h').1
  | «variable» name =>
    obtain ⟨value, hvalue, rfl, -⟩ := parts_of_variable h
    obtain ⟨value', hvalue', rfl, -⟩ := parts_of_variable h'
    rw [hvariables, hvalue'] at hvalue
    obtain rfl := Option.some.inj hvalue
    rfl
  | dice pool =>
    obtain ⟨added, hadded, hadded'⟩ := halike
    rw [values_of_rollPool h hadded, values_of_rollPool h' hadded']
  | operation left operator right =>
    obtain ⟨l, middle, r, hleft, hright, rfl⟩ := parts_of_operation h
    obtain ⟨l', middle', r', hleft', hright', rfl⟩ := parts_of_operation h'
    -- Both evaluations roll as many dice for the left operand, so they part in the same place.
    obtain ⟨hl, hr⟩ := halike.parts (Tray.adds_of_evaluate hleft) (Tray.adds_of_evaluate hleft')
      (Tray.adds_of_evaluate hright) (Tray.adds_of_evaluate hright')
    rw [values_of_addAlike hvariables hcount left hleft hleft' hl,
      values_of_addAlike hvariables hcount right hright hright' hr]
  | call function parameters =>
    obtain ⟨sets, hsets, hvalues⟩ := parts_of_call h
    obtain ⟨sets', hsets', hvalues'⟩ := parts_of_call h'
    have hsame := sets_of_addAlike hvariables hcount parameters hsets hsets' halike
    rw [hsame] at hvalues
    exact values_of_callValues hcount hvalues hvalues'

/-- Two evaluations of a list of expressions that add the same dice give the same sets. -/
theorem sets_of_addAlike (hvariables : setting.variables = setting'.variables)
    (hcount : setting.options.defaultCount = setting'.options.defaultCount) (exprs : List Expr)
    {tray last tray' last' : Tray} {sets sets' : List (List Value)}
    (h : Expr.evaluateAll setting exprs tray = .ok sets last)
    (h' : Expr.evaluateAll setting' exprs tray' = .ok sets' last')
    (halike : Tray.AddAlike tray last tray' last') : sets = sets' := by
  cases exprs with
  | nil => exact (Step.pure_eq_ok_iff.mp h).1.symm.trans (Step.pure_eq_ok_iff.mp h').1
  | cons e rest =>
    obtain ⟨values, middle, others, hfirst, hothers, rfl⟩ := parts_of_cons h
    obtain ⟨values', middle', others', hfirst', hothers', rfl⟩ := parts_of_cons h'
    obtain ⟨hvalues, hsets⟩ := halike.parts (Tray.adds_of_evaluate hfirst)
      (Tray.adds_of_evaluate hfirst') (Tray.adds_of_evaluateAll hothers)
      (Tray.adds_of_evaluateAll hothers')
    rw [values_of_addAlike hvariables hcount e hfirst hfirst' hvalues,
      sets_of_addAlike hvariables hcount rest hothers hothers' hsets]

end

/-- The dice determine the outcome. Two rolls of the same expressions with the same variables and
the same default for `count` that show the same dice have the same values and the same total,
whatever the samples and the other options are. -/
theorem outcome_of_diceValues_eq {source source' : String}
    {exprs : List Expr} {start start' tray tray' : Tray} {outcome outcome' : Outcome}
    (hvariables : setting.variables = setting'.variables)
    (hcount : setting.options.defaultCount = setting'.options.defaultCount)
    (h : rollAll setting source exprs start = .ok outcome tray)
    (h' : rollAll setting' source' exprs start' = .ok outcome' tray')
    (hdice : outcome.diceValues = outcome'.diceValues) :
    outcome.values = outcome'.values ∧ outcome.total = outcome'.total := by
  obtain ⟨sets, hsets, rfl⟩ := rollAll_eq_ok_iff.mp h
  obtain ⟨sets', hsets', rfl⟩ := rollAll_eq_ok_iff.mp h'
  have halike : Tray.AddAlike start tray start' tray' :=
    Tray.AddAlike.of_shown_eq (Tray.adds_of_evaluateAll hsets) (Tray.adds_of_evaluateAll hsets')
      hdice
  have hsame := sets_of_addAlike hvariables hcount exprs hsets hsets' halike
  subst hsame
  exact ⟨rfl, rfl⟩

/-- Other samples and another lowest value can show the same dice. -/
theorem outcome_of_diceValues_eq_samples :
    let setting : Setting := { samples := fun position => UInt32.ofNat (position + 2) }
    let setting' : Setting :=
      { options := { minRoll := 2, maxDice := none }
        samples := fun position => UInt32.ofNat (position + 1) }
    let exprs : List Expr :=
      [.call .count [.number 4, .dice ⟨2, .sided 6 (by decide)⟩], .dice ⟨1, .sided 6 (by decide)⟩]
    ∃ outcome outcome' tray tray',
      rollAll setting "count(4, 2d6) 1d6" exprs {} = .ok outcome tray ∧
      rollAll setting' "count(4, 2d6) 1d6" exprs {} = .ok outcome' tray' ∧
      outcome.diceValues = [3, 4, 5] ∧ outcome'.diceValues = [3, 4, 5] ∧
      outcome.values = outcome'.values ∧ outcome.total = outcome'.total := by
  intro setting setting' exprs
  have hroll : ∃ outcome tray, rollAll setting "count(4, 2d6) 1d6" exprs {} = .ok outcome tray ∧
      outcome.diceValues = [3, 4, 5] := ⟨_, _, rfl, by decide⟩
  have hroll' : ∃ outcome tray, rollAll setting' "count(4, 2d6) 1d6" exprs {} = .ok outcome tray ∧
      outcome.diceValues = [3, 4, 5] := ⟨_, _, rfl, by decide⟩
  obtain ⟨outcome, tray, hroll, hdice⟩ := hroll
  obtain ⟨outcome', tray', hroll', hdice'⟩ := hroll'
  have hvariables : setting.variables = setting'.variables := rfl
  have hcount : setting.options.defaultCount = setting'.options.defaultCount := rfl
  have hsame := outcome_of_diceValues_eq hvariables hcount hroll hroll' (hdice.trans hdice'.symm)
  exact ⟨outcome, outcome', tray, tray', hroll, hroll', hdice, hdice', hsame⟩

end DiceNotation
