import DiceNotation.Proofs.Reachable

/-!
# How many dice are rolled

An evaluation that succeeds has rolled every pool of the expression and was refused none. So the
number of dice by which the record and the counter grow is the number of dice in the expression,
whatever the samples show.
-/

namespace DiceNotation

/-- The number of dice in several pools. -/
def diceIn (pools : List Pool) : Nat :=
  pools.foldr (fun pool others => pool.count.toNat + others) 0

/-- No pools have no dice. -/
@[simp] theorem diceIn_nil : diceIn [] = 0 :=
  rfl

/-- The dice of the first pool are added to those of the others. -/
@[simp] theorem diceIn_cons (pool : Pool) (pools : List Pool) :
    diceIn (pool :: pools) = pool.count.toNat + diceIn pools :=
  rfl

/-- The dice of two rows of pools add up. -/
@[simp] theorem diceIn_append (first second : List Pool) :
    diceIn (first ++ second) = diceIn first + diceIn second := by
  induction first with
  | nil => simp
  | cons pool first ih =>
    simp only [List.cons_append, diceIn_cons, ih]
    omega

/-- The dice of some expressions are those of their pools. -/
theorem Expr.diceCount_eq (exprs : List Expr) : diceCount exprs = diceIn (poolsOf exprs) :=
  rfl

namespace Tray

/-- Each die of the pools is recorded. -/
theorem size_afterPools (setting : Setting) (pools : List Pool) (tray : Tray) :
    (tray.afterPools setting pools).dice.size = tray.dice.size + diceIn pools := by
  induction pools generalizing tray with
  | nil => rfl
  | cons pool rest ih =>
    have hpool : (tray.afterPool setting pool).dice.size = tray.dice.size + pool.count.toNat :=
      size_castMany setting pool _ _
    rw [afterPools, ih, hpool, diceIn_cons]
    omega

/-- The dice of a pool are counted, as far as the counter goes. -/
theorem counted_afterPool (setting : Setting) (pool : Pool) (tray : Tray) :
    (tray.afterPool setting pool).counted = min (tray.counted + pool.count.toNat) maxCounted :=
  counted_castMany setting pool _ _

/-- The counter grows by the number of dice, up to the largest number that it can hold. -/
theorem counted_afterPools (setting : Setting) (pools : List Pool) {tray : Tray}
    (h : tray.counted ≤ maxCounted) :
    (tray.afterPools setting pools).counted = min (tray.counted + diceIn pools) maxCounted := by
  induction pools generalizing tray with
  | nil => exact (Nat.min_eq_left h).symm
  | cons pool rest ih =>
    have hpool := counted_afterPool setting pool tray
    have hnext : (tray.afterPool setting pool).counted ≤ maxCounted := by omega
    rw [afterPools, ih hnext, hpool, diceIn_cons]
    omega

/-- The counter never grows by more than the number of dice. -/
theorem counted_afterPools_le (setting : Setting) (pools : List Pool) (tray : Tray) :
    (tray.afterPools setting pools).counted ≤ tray.counted + diceIn pools := by
  induction pools generalizing tray with
  | nil => exact Nat.le_refl _
  | cons pool rest ih =>
    have hpool := counted_afterPool setting pool tray
    have hrest := ih (tray.afterPool setting pool)
    rw [afterPools, diceIn_cons]
    omega

/-- None of several pools is refused when they are rolled one after the other. -/
def Accepts (setting : Setting) : List Pool → Tray → Prop
  | [], _ => True
  | pool :: rest, tray =>
    (tray.count pool.count.toNat).refuses setting pool = false ∧
      Accepts setting rest (tray.afterPool setting pool)

/-- Pools are accepted one row after the other. -/
theorem accepts_append {setting : Setting} {first second : List Pool} {tray : Tray}
    (hfirst : tray.Accepts setting first)
    (hsecond : (tray.afterPools setting first).Accepts setting second) :
    tray.Accepts setting (first ++ second) := by
  induction first generalizing tray with
  | nil => exact hsecond
  | cons pool rest ih => exact ⟨hfirst.1, ih hfirst.2 hsecond⟩

/-- As long as no pool is refused, the counter stays within the limit. -/
theorem counted_le_of_accepts {setting : Setting} {limit : UInt64}
    (hmax : setting.options.maxDice = some limit) {pools : List Pool} {tray : Tray}
    (hstart : tray.counted ≤ limit.toNat) (h : tray.Accepts setting pools) :
    (tray.afterPools setting pools).counted ≤ limit.toNat := by
  induction pools generalizing tray with
  | nil => exact hstart
  | cons pool rest ih =>
    obtain ⟨hpool, hrest⟩ := h
    have hwithin : setting.options.exceeded (tray.count pool.count.toNat).counted = false :=
      (Bool.or_eq_false_iff.mp hpool).1
    simp only [Options.exceeded, hmax, decide_eq_false_iff_not, Nat.not_lt] at hwithin
    have hnext : (tray.afterPool setting pool).counted ≤ limit.toNat :=
      Nat.le_trans (Nat.le_of_eq (counted_afterPool setting pool tray)) hwithin
    exact ih hnext hrest

end Tray

mutual

/-- An evaluation that succeeds was refused no pool. -/
theorem accepts_of_evaluate {setting : Setting} (e : Expr) {tray tray' : Tray}
    {values : List Value} (h : e.evaluate setting tray = .ok values tray') :
    tray.Accepts setting e.pools := by
  cases e with
  | number value => trivial
  | «variable» name => trivial
  | dice pool => exact ⟨(rollPool_eq_ok_iff.mp h).1, trivial⟩
  | operation left operator right =>
    obtain ⟨l, middle, r, hleft, hright, -⟩ := parts_of_operation h
    have hmiddle := tray_of_evaluate left hleft
    have hsecond := accepts_of_evaluate right hright
    rw [hmiddle] at hsecond
    exact Tray.accepts_append (accepts_of_evaluate left hleft) hsecond
  | call function parameters =>
    obtain ⟨sets, hsets, -⟩ := parts_of_call h
    exact accepts_of_evaluateAll parameters hsets

/-- The pools of expressions that have values were accepted. -/
theorem accepts_of_evaluateAll {setting : Setting} (exprs : List Expr) {tray tray' : Tray}
    {sets : List (List Value)} (h : Expr.evaluateAll setting exprs tray = .ok sets tray') :
    tray.Accepts setting (Expr.poolsOf exprs) := by
  cases exprs with
  | nil => trivial
  | cons e rest =>
    obtain ⟨values, middle, others, hfirst, hothers, -⟩ := parts_of_cons h
    have hmiddle := tray_of_evaluate e hfirst
    have hsecond := accepts_of_evaluateAll rest hothers
    rw [hmiddle] at hsecond
    exact Tray.accepts_append (accepts_of_evaluate e hfirst) hsecond

end

end DiceNotation
