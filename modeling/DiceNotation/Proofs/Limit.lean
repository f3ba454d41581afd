import DiceNotation.Proofs.Counting

/-!
# The limit on dice

The limit is looked at with each pool, when its dice were counted on top of those before it. It
comes to the same as to look once, before the roll, at the number of dice in the notation: as long
as that number is within the limit an evaluation does not notice that there is one, and above the
limit no evaluation succeeds.
-/

namespace DiceNotation

/-- The setting with another limit on dice. -/
def Setting.withLimit (setting : Setting) (limit : Option UInt64) : Setting :=
  { setting with options := { setting.options with maxDice := limit } }

variable {setting : Setting} {limit : UInt64}

/-- The limit does not matter for casting dice. -/
theorem Tray.castMany_withLimit (limit : Option UInt64) (pool : Pool) (count : Nat) (tray : Tray) :
    tray.castMany (setting.withLimit limit) pool count = tray.castMany setting pool count := by
  induction count generalizing tray with
  | zero => rfl
  | succ count ih => exact ih _

/-- The limit does not matter for a pool that is not refused. -/
theorem Tray.afterPool_withLimit (limit : Option UInt64) (pool : Pool) (tray : Tray) :
    tray.afterPool (setting.withLimit limit) pool = tray.afterPool setting pool :=
  castMany_withLimit limit pool _ _

/-- A limit that the counter does not exceed refuses no pool. -/
theorem Tray.refuses_withLimit {tray : Tray} (pool : Pool) (h : tray.counted ≤ limit.toNat) :
    tray.refuses (setting.withLimit (some limit)) pool =
      tray.refuses (setting.withLimit none) pool := by
  have hexceeded : (setting.withLimit (some limit)).options.exceeded tray.counted = false :=
    decide_eq_false (Nat.not_lt.mpr h)
  unfold Tray.refuses
  rw [hexceeded]
  rfl

/-- A pool within the limit is rolled as without a limit. -/
theorem rollPool_withLimit (pool : Pool) {tray : Tray}
    (h : tray.counted + pool.count.toNat ≤ limit.toNat) :
    rollPool (setting.withLimit (some limit)) pool tray =
      rollPool (setting.withLimit none) pool tray := by
  have hcounted : (tray.count pool.count.toNat).counted ≤ limit.toNat :=
    Nat.le_trans (Nat.min_le_left _ _) h
  have hsame : (tray.count pool.count.toNat).refuses (setting.withLimit (some limit)) pool =
      (tray.count pool.count.toNat).refuses (setting.withLimit none) pool :=
    Tray.refuses_withLimit pool hcounted
  cases hrefuses : (tray.count pool.count.toNat).refuses (setting.withLimit none) pool with
  | true => rw [rollPool_of_refuses hrefuses, rollPool_of_refuses (hsame.trans hrefuses)]
  | false =>
    rw [rollPool_of_not_refuses hrefuses, rollPool_of_not_refuses (hsame.trans hrefuses)]
    simp only [Tray.afterPool_withLimit]

mutual

/-- An expression whose dice are within the limit is evaluated as without a limit. -/
theorem evaluate_withLimit (e : Expr) {tray : Tray}
    (h : tray.counted + diceIn e.pools ≤ limit.toNat) :
    e.evaluate (setting.withLimit (some limit)) tray =
      e.evaluate (setting.withLimit none) tray := by
  cases e with
  | number value => rfl
  | «variable» name => rfl
  | dice pool => exact rollPool_withLimit pool h
  | operation left operator right =>
    rw [Expr.pools, diceIn_append] at h
    have hleft : tray.counted + diceIn left.pools ≤ limit.toNat := by omega
    apply Step.bind_congr_of_ok (evaluate_withLimit left hleft)
    intro l middle hl
    -- The dice that are left to the right operand are those that the left one did not use.
    have hused := Tray.counted_afterPools_le (setting.withLimit (some limit)) left.pools tray
    rw [← tray_of_evaluate left hl] at hused
    have hright : middle.counted + diceIn right.pools ≤ limit.toNat := by omega
    apply Step.bind_congr_of_ok (evaluate_withLimit right hright)
    intro r last _
    rfl
  | call function parameters =>
    apply Step.bind_congr_of_ok (evaluateAll_withLimit parameters h)
    intro sets last _
    rfl

/-- Expressions whose dice are within the limit are evaluated as without a limit. -/
theorem evaluateAll_withLimit (exprs : List Expr) {tray : Tray}
    (h : tray.counted + diceIn (Expr.poolsOf exprs) ≤ limit.toNat) :
    Expr.evaluateAll (setting.withLimit (some limit)) exprs tray =
      Expr.evaluateAll (setting.withLimit none) exprs tray := by
  cases exprs with
  | nil => rfl
  | cons e rest =>
    rw [Expr.poolsOf, diceIn_append] at h
    have hfirst : tray.counted + diceIn e.pools ≤ limit.toNat := by omega
    apply Step.bind_congr_of_ok (evaluate_withLimit e hfirst)
    intro values middle hvalues
    have hused := Tray.counted_afterPools_le (setting.withLimit (some limit)) e.pools tray
    rw [← tray_of_evaluate e hvalues] at hused
    have hrest : middle.counted + diceIn (Expr.poolsOf rest) ≤ limit.toNat := by omega
    apply Step.bind_congr_of_ok (evaluateAll_withLimit rest hrest)
    intro others last _
    rfl

end

/-- Expressions that were evaluated under a limit have no more dice than it allows. -/
theorem diceCount_le_of_evaluateAll {exprs : List Expr} {position : Nat} {tray : Tray}
    {sets : List (List Value)} (hlimit : limit.toNat < maxCounted)
    (h : Expr.evaluateAll (setting.withLimit (some limit)) exprs { position := position } =
      .ok sets tray) : Expr.diceCount exprs ≤ limit.toNat := by
  have haccepts := accepts_of_evaluateAll exprs h
  have hwithin : (Tray.afterPools (setting.withLimit (some limit)) (Expr.poolsOf exprs)
      { position := position }).counted ≤ limit.toNat :=
    Tray.counted_le_of_accepts rfl (Nat.zero_le _) haccepts
  rw [Tray.counted_afterPools _ _ (Nat.zero_le _)] at hwithin
  rw [Expr.diceCount_eq]
  -- The counter stops at its largest number, but that is above the limit.
  change min (0 + diceIn (Expr.poolsOf exprs)) maxCounted ≤ limit.toNat at hwithin
  omega

/-- The limit is exact and otherwise not noticed. A roll of as many dice as it allows, or
fewer, ends as without a limit, with success or not, and leaves the same tray; a roll of more
dice fails. -/
theorem rollAll_withLimit (setting : Setting) (source : String) (exprs : List Expr)
    (position : Nat) {limit : UInt64} (hlimit : limit.toNat < maxCounted) :
    (Expr.diceCount exprs ≤ limit.toNat →
        rollAll (setting.withLimit (some limit)) source exprs { position := position } =
          rollAll (setting.withLimit none) source exprs { position := position }) ∧
      (limit.toNat < Expr.diceCount exprs → ∃ failure tray,
        rollAll (setting.withLimit (some limit)) source exprs { position := position } =
          .error failure tray) := by
  constructor
  · intro hdice
    rw [Expr.diceCount_eq] at hdice
    have hwithin : 0 + diceIn (Expr.poolsOf exprs) ≤ limit.toNat := by omega
    apply Step.bind_congr_of_ok (evaluateAll_withLimit exprs hwithin)
    intro sets last _
    rfl
  · intro hdice
    cases hroll : rollAll (setting.withLimit (some limit)) source exprs
        { position := position } with
    | error failure tray => exact ⟨failure, tray, rfl⟩
    | ok outcome tray =>
      obtain ⟨sets, hsets, -⟩ := rollAll_eq_ok_iff.mp hroll
      have hle := diceCount_le_of_evaluateAll hlimit hsets
      omega

/-- Three dice, two of them inside of a call: a limit of three is not noticed, and a limit of
two is enforced. -/
theorem rollAll_withLimit_call :
    let setting : Setting := { samples := fun position => UInt32.ofNat position }
    let exprs : List Expr :=
      [.call .sum [.dice ⟨2, .sided 6 (by decide)⟩, .number 3], .dice ⟨1, .fate⟩]
    (3 : UInt64).toNat < maxCounted ∧ (2 : UInt64).toNat < maxCounted ∧
      Expr.diceCount exprs = 3 ∧
      rollAll (setting.withLimit (some 3)) "sum(2d6, 3) 1dF" exprs { position := 0 } =
        rollAll (setting.withLimit none) "sum(2d6, 3) 1dF" exprs { position := 0 } ∧
      ∃ failure tray,
        rollAll (setting.withLimit (some 2)) "sum(2d6, 3) 1dF" exprs { position := 0 } =
          .error failure tray := by
  intro setting exprs
  have hthree : (3 : UInt64).toNat < maxCounted := by decide
  have htwo : (2 : UInt64).toNat < maxCounted := by decide
  have hcount : Expr.diceCount exprs = 3 := by decide
  refine ⟨hthree, htwo, hcount, ?_, ?_⟩
  · exact (rollAll_withLimit setting _ exprs 0 hthree).1 (Nat.le_of_eq hcount)
  · exact (rollAll_withLimit setting _ exprs 0 htwo).2 (hcount ▸ Nat.lt_succ_self 2)

end DiceNotation
