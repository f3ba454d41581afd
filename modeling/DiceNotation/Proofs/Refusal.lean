import DiceNotation.Proofs.Counting

/-!
# Refused rolls

A roll that is refused leaves nothing in the tray but its count. Counts are never taken back, so a
tray in which more dice were counted than the limit allows is exhausted for good: whatever is
asked of it later, no die falls into it, no sample is drawn, and no expression with dice in it has
a value.
-/

namespace DiceNotation

/-- The roll of a pool at some time of an evaluation, when the tray is as given. -/
structure Roll where
  pool : Pool
  tray : Tray

namespace Roll

/-- The tray after the roll, whether it succeeds or not. -/
def after (setting : Setting) (roll : Roll) : Tray :=
  Step.stateOf (rollPool setting roll.pool roll.tray)

/-- Whether the roll fails for the limit: with its dice, more were asked for than it allows. -/
def exceedsLimit (setting : Setting) (roll : Roll) : Bool :=
  setting.options.exceeded (roll.tray.count roll.pool.count.toNat).counted

end Roll

/-- The rolls of a second step, which is made only if the first one succeeds. -/
def rollsAfter {α : Type} (first : EStateM.Result Failure Tray α) (second : Tray → List Roll) :
    List Roll :=
  match first with
  | .ok _ middle => second middle
  | .error _ _ => []

namespace Expr

mutual

/-- The rolls that are made when an expression is evaluated. -/
def rolls (setting : Setting) (tray : Tray) : Expr → List Roll
  | .number _ => []
  | .variable _ => []
  | .dice pool => [⟨pool, tray⟩]
  | .operation left _ right =>
    left.rolls setting tray ++
      rollsAfter (left.evaluate setting tray) fun middle => right.rolls setting middle
  | .call _ parameters => rollsOf setting tray parameters

/-- The rolls that are made when a list of expressions is evaluated. -/
def rollsOf (setting : Setting) (tray : Tray) : List Expr → List Roll
  | [] => []
  | e :: rest =>
    e.rolls setting tray ++
      rollsAfter (e.evaluate setting tray) fun middle => rollsOf setting middle rest

end

end Expr

namespace Request

/-- The rolls that are made for a request. -/
def rolls (setting : Setting) (tray : Tray) : Request → List Roll
  | .roll pool => [⟨pool, tray⟩]
  | .execute exprs => Expr.rollsOf setting tray exprs

/-- The rolls that are made for several requests, one after the other. -/
def rollsOfAll (setting : Setting) (tray : Tray) : List Request → List Roll
  | [] => []
  | request :: rest =>
    request.rolls setting tray ++ rollsOfAll setting (request.perform setting tray) rest

end Request

/-- More dice are above the limit if fewer are. -/
theorem Options.exceeded_of_le {options : Options} {dice more : Nat}
    (h : options.exceeded dice = true) (hle : dice ≤ more) : options.exceeded more = true := by
  unfold exceeded at h ⊢
  split at h
  · next limit hlimit =>
    rw [decide_eq_true_eq] at h ⊢
    omega
  · cases h

/-- A roll that fails was refused, and changes the counter only. -/
theorem tray_of_rollPool_error {setting : Setting} {pool : Pool} {tray after : Tray}
    {failure : Failure} (h : rollPool setting pool tray = .error failure after) :
    failure = .tooManyDice ∧ after = tray.count pool.count.toNat := by
  cases hrefuses : (tray.count pool.count.toNat).refuses setting pool with
  | true =>
    rw [rollPool_of_refuses hrefuses] at h
    obtain ⟨rfl, rfl⟩ := EStateM.Result.error.inj h
    exact ⟨rfl, rfl⟩
  | false =>
    rw [rollPool_of_not_refuses hrefuses] at h
    cases h

namespace Tray

/-- More dice were asked for than the limit allows, and the counter still holds their number. -/
structure Exhausted (setting : Setting) (tray : Tray) : Prop where
  counter : tray.counted ≤ maxCounted
  exceeded : setting.options.exceeded tray.counted = true

/-- The two trays differ in nothing but their counters. -/
def SameButCounted (tray tray' : Tray) : Prop :=
  tray' = { tray with counted := tray'.counted }

private theorem sameButCounted_count (tray : Tray) (dice : Nat) :
    tray.SameButCounted (tray.count dice) :=
  rfl

/-- Two changes of the counter are one. -/
theorem SameButCounted.trans {a b c : Tray} (h : a.SameButCounted b) (h' : b.SameButCounted c) :
    a.SameButCounted c := by
  unfold SameButCounted at *
  rw [h', h]

/-- Counting more dice does not end the exhaustion. -/
theorem Exhausted.count {setting : Setting} {tray : Tray} (h : tray.Exhausted setting)
    (dice : Nat) : (tray.count dice).Exhausted setting := by
  have hcounter := h.counter
  constructor
  · exact Nat.min_le_right _ _
  · refine Options.exceeded_of_le h.exceeded ?_
    change tray.counted ≤ min (tray.counted + dice) maxCounted
    omega

/-- An exhausted tray refuses every pool, also one without dice. -/
theorem Exhausted.rollPool_eq {setting : Setting} {tray : Tray} (h : tray.Exhausted setting)
    (pool : Pool) :
    rollPool setting pool tray = .error .tooManyDice (tray.count pool.count.toNat) := by
  refine rollPool_of_refuses ?_
  rw [refuses, (h.count _).exceeded, Bool.true_or]

/-- A roll changes nothing in an exhausted tray but its counter. -/
theorem Exhausted.next {setting : Setting} {tray tray' : Tray} (h : tray.Exhausted setting)
    (hnext : tray.Next setting tray') : tray'.Exhausted setting ∧ tray.SameButCounted tray' := by
  obtain ⟨pool, rfl⟩ := hnext
  rw [h.rollPool_eq pool]
  exact ⟨h.count _, sameButCounted_count tray _⟩

/-- An exhausted tray stays so, and nothing in it changes any more but its counter. -/
theorem Exhausted.reaches {setting : Setting} {tray tray' : Tray} (h : tray.Exhausted setting)
    (hreaches : tray.Reaches setting tray') :
    tray'.Exhausted setting ∧ tray.SameButCounted tray' := by
  induction hreaches with
  | refl => exact ⟨h, rfl⟩
  | tail _ hnext ih =>
    obtain ⟨hexhausted, hsame⟩ := ih
    obtain ⟨hexhausted', hsame'⟩ := hexhausted.next hnext
    exact ⟨hexhausted', hsame.trans hsame'⟩

/-- Nothing that has dice in it can be evaluated with an exhausted tray. -/
theorem Exhausted.evaluateAll_fails {setting : Setting} {tray : Tray}
    (h : tray.Exhausted setting) {exprs : List Expr} (hpools : Expr.poolsOf exprs ≠ []) :
    ∃ failure last, Expr.evaluateAll setting exprs tray = .error failure last := by
  cases hresult : Expr.evaluateAll setting exprs tray with
  | error failure last => exact ⟨failure, last, rfl⟩
  | ok sets last =>
    have haccepts := accepts_of_evaluateAll exprs hresult
    cases hfirst : Expr.poolsOf exprs with
    | nil => exact absurd hfirst hpools
    | cons pool rest =>
      -- the first pool would not have been refused
      rw [hfirst] at haccepts
      have hnot := haccepts.1
      rw [refuses, (h.count _).exceeded, Bool.true_or] at hnot
      cases hnot

end Tray

namespace Roll

variable {setting : Setting} {roll : Roll}

/-- A roll above the limit fails. -/
theorem rollPool_of_exceedsLimit (h : roll.exceedsLimit setting = true) :
    rollPool setting roll.pool roll.tray =
      .error .tooManyDice (roll.tray.count roll.pool.count.toNat) := by
  unfold exceedsLimit at h
  refine rollPool_of_refuses ?_
  rw [Tray.refuses, h, Bool.true_or]

/-- A roll above the limit exhausts the tray. -/
theorem exhausted_after (h : roll.exceedsLimit setting = true) :
    (roll.after setting).Exhausted setting := by
  rw [after, rollPool_of_exceedsLimit h]
  exact ⟨Nat.min_le_right _ _, h⟩

end Roll

/-- What a second step reaches is reached after the first step, whether that succeeds or not. -/
theorem stateOf_reaches_bind {setting : Setting} {α β : Type} {x : Casting α} {f : α → Casting β}
    {tray : Tray} (h : ∀ a middle, Tray.Reaches setting middle (Step.stateOf (f a middle))) :
    (Step.stateOf (x tray)).Reaches setting (Step.stateOf ((x >>= f) tray)) := by
  cases hx : x tray with
  | ok a middle =>
    rw [Step.bind_of_ok hx]
    exact h a middle
  | error failure middle =>
    rw [Step.bind_of_error hx]
    exact Relation.ReflTransGen.refl

/-- If what comes after a roll in the first or in the second of two steps are more rolls of pools,
then so it is in both together. -/
theorem reaches_of_mem_bind {setting : Setting} {α β : Type} {x : Casting α} {f : α → Casting β}
    {tray : Tray} {roll : Roll} {first : List Roll} {second : Tray → List Roll}
    (hroll : roll ∈ first ++ rollsAfter (x tray) second)
    (hfirst : roll ∈ first → (roll.after setting).Reaches setting (Step.stateOf (x tray)))
    (hsecond : ∀ a middle, roll ∈ second middle →
      (roll.after setting).Reaches setting (Step.stateOf (f a middle)))
    (hreaches : ∀ a middle, Tray.Reaches setting middle (Step.stateOf (f a middle))) :
    (roll.after setting).Reaches setting (Step.stateOf ((x >>= f) tray)) := by
  rcases List.mem_append.mp hroll with hroll | hroll
  · exact (hfirst hroll).trans (stateOf_reaches_bind hreaches)
  · cases hx : x tray with
    | error failure middle => simp [rollsAfter, hx] at hroll
    | ok a middle =>
      rw [hx] at hroll
      rw [Step.bind_of_ok hx]
      exact hsecond a middle hroll

/-- A roll in the first or in the second of two steps finds a tray that pools were rolled into. -/
theorem reaches_tray_of_mem_bind {setting : Setting} {α : Type} {x : Casting α} {tray : Tray}
    {roll : Roll} {first : List Roll} {second : Tray → List Roll}
    (hroll : roll ∈ first ++ rollsAfter (x tray) second)
    (hfirst : roll ∈ first → tray.Reaches setting roll.tray)
    (hreaches : tray.Reaches setting (Step.stateOf (x tray)))
    (hsecond : ∀ middle, roll ∈ second middle → Tray.Reaches setting middle roll.tray) :
    tray.Reaches setting roll.tray := by
  rcases List.mem_append.mp hroll with hroll | hroll
  · exact hfirst hroll
  · cases hx : x tray with
    | error failure middle => simp [rollsAfter, hx] at hroll
    | ok a middle =>
      rw [hx] at hroll hreaches
      exact hreaches.trans (hsecond middle hroll)

mutual

/-- Before a roll in an evaluation, only pools are rolled. -/
theorem reaches_tray_of_mem_rolls {setting : Setting} (e : Expr) {tray : Tray} {roll : Roll}
    (h : roll ∈ e.rolls setting tray) : tray.Reaches setting roll.tray := by
  cases e with
  | number value => simp [Expr.rolls] at h
  | «variable» name => simp [Expr.rolls] at h
  | dice pool =>
    obtain rfl := List.mem_singleton.mp h
    exact Relation.ReflTransGen.refl
  | operation left operator right =>
    exact reaches_tray_of_mem_bind h (reaches_tray_of_mem_rolls left)
      (evaluate_reaches setting left tray) fun middle => reaches_tray_of_mem_rolls right
  | call function parameters => exact reaches_tray_of_mem_rollsOf parameters h

/-- Before a roll in the evaluation of a list of expressions, only pools are rolled. -/
theorem reaches_tray_of_mem_rollsOf {setting : Setting} (exprs : List Expr) {tray : Tray}
    {roll : Roll} (h : roll ∈ Expr.rollsOf setting tray exprs) :
    tray.Reaches setting roll.tray := by
  cases exprs with
  | nil => simp [Expr.rollsOf] at h
  | cons e rest =>
    exact reaches_tray_of_mem_bind h (reaches_tray_of_mem_rolls e)
      (evaluate_reaches setting e tray) fun middle => reaches_tray_of_mem_rollsOf rest

end

mutual

/-- What comes after a roll in an evaluation are more rolls of pools. -/
theorem reaches_of_mem_rolls {setting : Setting} (e : Expr) {tray : Tray} {roll : Roll}
    (h : roll ∈ e.rolls setting tray) :
    (roll.after setting).Reaches setting (Step.stateOf (e.evaluate setting tray)) := by
  cases e with
  | number value => simp [Expr.rolls] at h
  | «variable» name => simp [Expr.rolls] at h
  | dice pool =>
    obtain rfl := List.mem_singleton.mp h
    exact Relation.ReflTransGen.refl
  | operation left operator right =>
    refine reaches_of_mem_bind h (reaches_of_mem_rolls left) ?_ ?_
    · intro l middle hroll
      exact (reaches_of_mem_rolls right hroll).trans
        (stateOf_reaches_bind fun r last => operate_reaches setting _ _ operator last)
    · intro l middle
      exact (evaluate_reaches setting right middle).trans
        (stateOf_reaches_bind fun r last => operate_reaches setting _ _ operator last)
  | call function parameters =>
    refine (reaches_of_mem_rollsOf parameters h).trans (stateOf_reaches_bind fun sets last => ?_)
    exact callValues_reaches setting function parameters sets last

/-- What comes after a roll in the evaluation of a list of expressions are more rolls of pools. -/
theorem reaches_of_mem_rollsOf {setting : Setting} (exprs : List Expr) {tray : Tray} {roll : Roll}
    (h : roll ∈ Expr.rollsOf setting tray exprs) :
    (roll.after setting).Reaches setting
      (Step.stateOf (Expr.evaluateAll setting exprs tray)) := by
  cases exprs with
  | nil => simp [Expr.rollsOf] at h
  | cons e rest =>
    refine reaches_of_mem_bind h (reaches_of_mem_rolls e) ?_ ?_
    · intro values middle hroll
      exact (reaches_of_mem_rollsOf rest hroll).trans
        (stateOf_reaches_bind fun _ _ => Relation.ReflTransGen.refl)
    · intro values middle
      exact (evaluateAll_reaches setting rest middle).trans
        (stateOf_reaches_bind fun _ _ => Relation.ReflTransGen.refl)

end

namespace Request

/-- Before a roll in a request, only pools are rolled. -/
theorem reaches_tray_of_mem_rolls {setting : Setting} {request : Request} {tray : Tray}
    {roll : Roll} (h : roll ∈ request.rolls setting tray) : tray.Reaches setting roll.tray := by
  cases request with
  | roll pool =>
    obtain rfl := List.mem_singleton.mp h
    exact Relation.ReflTransGen.refl
  | execute exprs => exact reaches_tray_of_mem_rollsOf exprs h

/-- What comes after a roll in a request are more rolls of pools. -/
theorem reaches_of_mem_rolls {setting : Setting} {request : Request} {tray : Tray} {roll : Roll}
    (h : roll ∈ request.rolls setting tray) :
    (roll.after setting).Reaches setting (request.perform setting tray) := by
  cases request with
  | roll pool =>
    obtain rfl := List.mem_singleton.mp h
    exact Relation.ReflTransGen.refl
  | execute exprs => exact reaches_of_mem_rollsOf exprs h

/-- What comes after a roll in several requests are more rolls of pools. -/
theorem reaches_of_mem_rollsOfAll {setting : Setting} {requests : List Request} {tray : Tray}
    {roll : Roll} (h : roll ∈ rollsOfAll setting tray requests) :
    (roll.after setting).Reaches setting (performAll setting requests tray) := by
  induction requests generalizing tray with
  | nil => simp [rollsOfAll] at h
  | cons request rest ih =>
    rcases List.mem_append.mp h with hroll | hroll
    · exact (reaches_of_mem_rolls hroll).trans (performAll_reaches setting rest _)
    · exact ih hroll

end Request

/-- A roll fails as if it had not been made, but for the counter, which is advanced by the number
of dice and stops at its largest number. And once a roll, be it asked for or deep inside of an
expression, went above the limit, then after all requests that follow every roll fails, even one of
no dice and one inside of an expression, no expressions with dice in them have values, and no
request adds to the record or draws a sample. -/
theorem refused_for_good (setting : Setting) :
    (∀ (tray after : Tray) (pool : Pool) (failure : Failure),
        rollPool setting pool tray = .error failure after →
          failure = .tooManyDice ∧
            after = { tray with counted := min (tray.counted + pool.count.toNat) maxCounted }) ∧
      ∀ (start : Tray) (requests : List Request),
        ∀ roll ∈ Request.rollsOfAll setting start requests, roll.exceedsLimit setting = true →
          let tray := Request.performAll setting requests start
          (∀ pool, rollPool setting pool tray = .error .tooManyDice
            { tray with counted := min (tray.counted + pool.count.toNat) maxCounted }) ∧
          (∀ request : Request, ∀ later ∈ request.rolls setting tray,
            rollPool setting later.pool later.tray = .error .tooManyDice
              { later.tray with
                counted := min (later.tray.counted + later.pool.count.toNat) maxCounted }) ∧
          (∀ exprs, Expr.poolsOf exprs ≠ [] → ∃ failure last,
            Expr.evaluateAll setting exprs tray = .error failure last) ∧
          ∀ request : Request, ∃ counted,
            request.perform setting tray = { tray with counted := counted } := by
  constructor
  · intro tray after pool failure h
    exact tray_of_rollPool_error h
  · intro start requests roll hroll hlimit tray
    obtain ⟨hexhausted, -⟩ :=
      (roll.exhausted_after hlimit).reaches (Request.reaches_of_mem_rollsOfAll hroll)
    refine ⟨fun pool => hexhausted.rollPool_eq pool, fun request later hlater => ?_,
      fun exprs hpools => hexhausted.evaluateAll_fails hpools, fun request => ?_⟩
    · obtain ⟨hlater', -⟩ := hexhausted.reaches (Request.reaches_tray_of_mem_rolls hlater)
      exact hlater'.rollPool_eq later.pool
    · obtain ⟨-, hsame⟩ := hexhausted.reaches (request.perform_reaches setting tray)
      exact ⟨_, hsame⟩

/-- Two dice and then two more inside of a call, of which the limit allows three: after that no
dice can be rolled, and numbers can still be evaluated. -/
theorem refused_for_good_call :
    let setting : Setting :=
      { options := { maxDice := some 3 }, samples := fun position => UInt32.ofNat position }
    let twoDice : Pool := ⟨2, .sided 6 (by decide)⟩
    let requests : List Request :=
      [.execute [.operation (.dice twoDice) .add (.call .sum [.number 1, .dice twoDice])],
        .execute [.number 1]]
    let tray := Request.performAll setting requests {}
    (∃ roll ∈ Request.rollsOfAll setting {} requests, roll.exceedsLimit setting = true) ∧
      tray.counted = 4 ∧ tray.dice.size = 2 ∧ tray.position = 2 ∧
      (∃ last, rollPool setting ⟨0, .fate⟩ tray = .error .tooManyDice last) ∧
      ∃ failure last, Expr.evaluateAll setting [.call .max [.dice ⟨0, .fate⟩]] tray =
        .error failure last := by
  intro setting twoDice requests tray
  have hlimit : ∃ roll ∈ Request.rollsOfAll setting {} requests,
      roll.exceedsLimit setting = true := List.any_eq_true.mp (by decide)
  obtain ⟨roll, hroll, hexceeds⟩ := hlimit
  obtain ⟨hrolls, -, hexprs, -⟩ := (refused_for_good setting).2 {} requests roll hroll hexceeds
  exact ⟨⟨roll, hroll, hexceeds⟩, by decide, by decide, by decide, ⟨_, hrolls _⟩,
    hexprs _ (by decide)⟩

end DiceNotation
