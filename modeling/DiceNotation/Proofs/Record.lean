import DiceNotation.Proofs.Rolling

/-!
# The record of a roll

Which dice are recorded, and under which labels, is known before any of them is rolled. A
successful roll records every pool of the notation once, from left to right, with all of its
dice side by side; samples and options decide nothing but the values.
-/

namespace DiceNotation

/-- What a record says about a die apart from its value. -/
def Rolled.mark (rolled : Rolled) : String × Die :=
  (rolled.label, rolled.die)

/-- What a record says about a die of a pool at a place, apart from its value. -/
def Pool.markAt (place : Nat) (pool : Pool) : String × Die :=
  (Rolled.labelAt pool place, pool.die)

/-- The dice of a list of expressions in the order in which they are rolled, each one given by
the pool to which it belongs. -/
def Expr.casts (exprs : List Expr) : List Pool :=
  (poolsOf exprs).flatMap fun pool => List.replicate pool.count.toNat pool

namespace Tray

/-- What a tray records apart from the values. -/
def marks (tray : Tray) : List (String × Die) :=
  tray.dice.toList.map Rolled.mark

/-- Each die of the record has a mark. -/
@[simp] theorem marks_length (tray : Tray) : tray.marks.length = tray.dice.size := by
  simp [marks]

/-- Counting dice leaves the marks as they are. -/
@[simp] theorem marks_count (tray : Tray) (dice : Nat) : (tray.count dice).marks = tray.marks :=
  rfl

/-- The mark of a die that is cast comes last. -/
theorem marks_cast (setting : Setting) (pool : Pool) (tray : Tray) :
    (tray.cast setting pool).marks = tray.marks ++ [pool.markAt tray.dice.size] := by
  simp [marks, cast, Rolled.mark, Pool.markAt]

/-- A pool adds a mark for each of its dice, numbered on from the record so far. -/
theorem marks_castMany (setting : Setting) (pool : Pool) (count : Nat) (tray : Tray) :
    (tray.castMany setting pool count).marks =
      tray.marks ++ (List.replicate count pool).mapIdx fun i pool =>
        pool.markAt (tray.marks.length + i) := by
  induction count generalizing tray with
  | zero => simp [castMany]
  | succ count ih =>
    rw [castMany, ih, marks_cast, List.replicate_succ, List.mapIdx_cons, List.append_assoc,
      List.singleton_append, List.length_append, List.length_singleton, marks_length]
    congr 3
    funext i pool
    congr 1
    omega

/-- Several pools add the marks of all their dice, one pool after the other. -/
theorem marks_afterPools (setting : Setting) (pools : List Pool) (tray : Tray) :
    (tray.afterPools setting pools).marks =
      tray.marks ++ (pools.flatMap fun pool => List.replicate pool.count.toNat pool).mapIdx
        fun i pool => pool.markAt (tray.marks.length + i) := by
  induction pools generalizing tray with
  | nil => simp [afterPools]
  | cons pool rest ih =>
    have hpool : (tray.afterPool setting pool).marks = _ :=
      marks_castMany setting pool pool.count.toNat (tray.count pool.count.toNat)
    rw [afterPools, ih, hpool, List.flatMap_cons, List.mapIdx_append, marks_count,
      List.append_assoc]
    simp only [List.length_append, List.length_mapIdx, List.length_replicate]
    congr 3
    funext i pool
    congr 1
    omega

end Tray

/-- The number of dice to be rolled is the number of dice in all pools. -/
theorem Expr.length_casts (exprs : List Expr) : (casts exprs).length = diceCount exprs := by
  unfold casts diceCount
  induction poolsOf exprs with
  | nil => rfl
  | cons pool rest ih =>
    rw [List.flatMap_cons, List.length_append, List.length_replicate, ih]
    rfl

/-- A roll that succeeds on an empty tray records exactly the dice of the notation: each pool
once, in order, all its dice with consecutive numbers, and no others. -/
theorem record_of_rollAll {setting : Setting} {source : String} {exprs : List Expr}
    {position : Nat} {outcome : Outcome} {tray : Tray}
    (h : rollAll setting source exprs { position := position } = .ok outcome tray) :
    outcome.dice.map Rolled.mark =
        (Expr.casts exprs).mapIdx (fun place pool => pool.markAt place) ∧
      outcome.dice.length = Expr.diceCount exprs := by
  obtain ⟨sets, last, hsets, hrest⟩ := Step.bind_eq_ok_iff.mp h
  obtain ⟨_, _, hget, hpure⟩ := Step.bind_eq_ok_iff.mp hrest
  cases hget
  have hdice : outcome.dice = last.dice.toList := by
    rw [← (Step.pure_eq_ok_iff.mp hpure).1]
  have hmarks : outcome.dice.map Rolled.mark =
      (Expr.casts exprs).mapIdx (fun place pool => pool.markAt place) := by
    have hall := Tray.marks_afterPools setting (Expr.poolsOf exprs) { position := position }
    rw [← tray_of_evaluateAll exprs hsets] at hall
    rw [hdice]
    simpa [Tray.marks, Expr.casts] using hall
  refine ⟨hmarks, ?_⟩
  rw [← Expr.length_casts, ← List.length_map (f := Rolled.mark), hmarks, List.length_mapIdx]

/-- The pools of an operation and of a call inside of it are recorded from left to right. -/
theorem record_of_rollAll_nested :
    let setting : Setting := { samples := fun position => UInt32.ofNat position }
    let d6 : Die := .sided 6 (by decide)
    let exprs : List Expr :=
      [.operation (.dice ⟨1, .fate⟩) .add (.call .max [.dice ⟨2, d6⟩, .number 3])]
    ∃ outcome tray, rollAll setting "1dF + max(2d6, 3)" exprs { position := 0 } = .ok outcome tray ∧
      outcome.dice.map Rolled.mark = [("1dF: 0", .fate), ("2d6: 1", d6), ("2d6: 2", d6)] ∧
      outcome.dice.length = 3 := by
  intro setting d6 exprs
  have hroll : ∃ outcome tray,
      rollAll setting "1dF + max(2d6, 3)" exprs { position := 0 } = .ok outcome tray := ⟨_, _, rfl⟩
  obtain ⟨outcome, tray, hroll⟩ := hroll
  have hrecord := record_of_rollAll hroll
  have hcasts : (Expr.casts exprs).mapIdx (fun place pool => pool.markAt place) =
      [("1dF: 0", .fate), ("2d6: 1", d6), ("2d6: 2", d6)] := by decide
  rw [hcasts] at hrecord
  exact ⟨outcome, tray, hroll, hrecord⟩

end DiceNotation
