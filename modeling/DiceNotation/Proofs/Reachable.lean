import DiceNotation.Proofs.Draw
import DiceNotation.Proofs.Rolling

/-!
# Trays in reach

What holds of every tray that an evaluation can reach from an empty one, whatever is asked
of it and whichever of the requests fail on the way: the record only grows, its dice are
numbered and in range, and the record, the counter, the limit and the position in the stream
of samples keep step with one another.
-/

namespace DiceNotation

/-- A request to an evaluation that is under way. -/
inductive Request where
  /-- To roll a pool. -/
  | roll (pool : Pool)
  /-- To evaluate some expressions. -/
  | execute (exprs : List Expr)

namespace Request

/-- The tray after a request, whether it could be met or not. -/
def perform (setting : Setting) : Request → Tray → Tray
  | .roll pool, tray => Step.stateOf (rollPool setting pool tray)
  | .execute exprs, tray => Step.stateOf (Expr.evaluateAll setting exprs tray)

/-- The tray after several requests, one after the other. -/
def performAll (setting : Setting) (requests : List Request) (tray : Tray) : Tray :=
  requests.foldl (fun tray request => request.perform setting tray) tray

/-- A request changes the tray by rolling pools only. -/
theorem perform_reaches (setting : Setting) (request : Request) (tray : Tray) :
    tray.Reaches setting (request.perform setting tray) := by
  cases request with
  | roll pool => exact Relation.ReflTransGen.single ⟨pool, rfl⟩
  | execute exprs => exact evaluateAll_reaches setting exprs tray

/-- Several requests change the tray by rolling pools only. -/
theorem performAll_reaches (setting : Setting) (requests : List Request) (tray : Tray) :
    tray.Reaches setting (performAll setting requests tray) := by
  induction requests generalizing tray with
  | nil => exact Relation.ReflTransGen.refl
  | cons request rest ih => exact (request.perform_reaches setting tray).trans (ih _)

end Request

namespace Tray

/-- The record of a tray is in order: every label names a pool of its own die and the place
of the die, every value lies between the lowest and the highest one of its die, and no die took
more samples than one and its redraws. -/
structure Recorded (setting : Setting) (tray : Tray) : Prop where
  label : ∀ place (h : place < tray.dice.size), ∃ count,
    tray.dice[place].label = Rolled.labelAt ⟨count, tray.dice[place].die⟩ place
  value : ∀ rolled ∈ tray.dice, rolled.die.lowestValue setting.options.minRoll ≤ rolled.value ∧
    rolled.value ≤ rolled.die.highestValue
  drawn : tray.position ≤ 101 * tray.dice.size

/-- A tray holds no more dice than were asked for, as far as the counter goes, and no more
than the limit if there is one. -/
structure Bounded (setting : Setting) (tray : Tray) : Prop where
  counter : tray.counted ≤ maxCounted
  counted : tray.dice.size ≤ tray.counted
  limited : ∀ limit, setting.options.maxDice = some limit → tray.dice.size ≤ limit.toNat

/-- The tray is in order, in its record and in its bounds. -/
structure Sound (setting : Setting) (tray : Tray) : Prop extends
  Recorded setting tray, Bounded setting tray

/-- Casting a die puts one die more into the record. -/
@[simp] theorem size_cast (setting : Setting) (pool : Pool) (tray : Tray) :
    (tray.cast setting pool).dice.size = tray.dice.size + 1 := by
  simp [cast]

/-- Casting dice puts as many into the record. -/
@[simp] theorem size_castMany (setting : Setting) (pool : Pool) (count : Nat) (tray : Tray) :
    (tray.castMany setting pool count).dice.size = tray.dice.size + count := by
  induction count generalizing tray with
  | zero => rfl
  | succ count ih =>
    rw [castMany, ih, size_cast]
    omega

/-- Casting dice does not count them. -/
@[simp] theorem counted_castMany (setting : Setting) (pool : Pool) (count : Nat) (tray : Tray) :
    (tray.castMany setting pool count).counted = tray.counted := by
  induction count generalizing tray with
  | zero => rfl
  | succ count ih => rw [castMany, ih, cast]

/-- Casting dice only adds to the record. -/
theorem prefix_castMany (setting : Setting) (pool : Pool) (count : Nat) (tray : Tray) :
    tray.dice.toList <+: (tray.castMany setting pool count).dice.toList := by
  induction count generalizing tray with
  | zero => exact List.prefix_rfl
  | succ count ih =>
    have hcast : tray.dice.toList <+: (tray.cast setting pool).dice.toList := by simp [cast]
    exact hcast.trans (ih _)

/-- One more die keeps the record in order. -/
theorem Recorded.cast {setting : Setting} {tray : Tray} (h : tray.Recorded setting)
    (pool : Pool) : (tray.cast setting pool).Recorded setting := by
  constructor
  · intro place hplace
    rw [size_cast] at hplace
    by_cases hold : place < tray.dice.size
    · simpa [Tray.cast, Array.getElem_push, hold] using h.label place hold
    · have hlast : place = tray.dice.size := by omega
      subst hlast
      exact ⟨pool.count, by simp [Tray.cast]⟩
  · intro rolled hrolled
    rcases Array.mem_push.mp hrolled with hold | rfl
    · exact h.value rolled hold
    · exact pool.die.valueOf_drawSide_mem setting.samples tray.position setting.options.minRoll
  · have hnext : (tray.cast setting pool).position ≤ tray.position + (maxRedraws + 1) :=
      Draw.between_next_le _ _ _ _
    have hdrawn := h.drawn
    rw [size_cast]
    unfold maxRedraws at hnext
    omega

/-- Several more dice keep the record in order. -/
theorem Recorded.castMany {setting : Setting} (pool : Pool) (count : Nat) {tray : Tray}
    (h : tray.Recorded setting) : (tray.castMany setting pool count).Recorded setting := by
  induction count generalizing tray with
  | zero => exact h
  | succ count ih => exact ih (h.cast pool)

/-- Counting dice without casting them keeps a tray in its bounds. -/
theorem Bounded.count {setting : Setting} {tray : Tray} (h : tray.Bounded setting) (dice : Nat) :
    (tray.count dice).Bounded setting := by
  have hcounter := h.counter
  have hcounted := h.counted
  constructor
  · exact Nat.min_le_right _ _
  · change tray.dice.size ≤ min (tray.counted + dice) maxCounted
    omega
  · exact h.limited

/-- A pool that is not refused keeps a tray in its bounds. -/
theorem Bounded.afterPool {setting : Setting} {tray : Tray} (h : tray.Bounded setting)
    {pool : Pool} (haccepts : (tray.count pool.count.toNat).refuses setting pool = false) :
    (tray.afterPool setting pool).Bounded setting := by
  simp only [refuses, Bool.or_eq_false_iff, Bool.not_eq_false', hasRoom, Bool.and_eq_true,
    decide_eq_true_eq] at haccepts
  obtain ⟨hlimit, -, hroom⟩ := haccepts
  have hsize : (tray.afterPool setting pool).dice.size = tray.dice.size + pool.count.toNat :=
    size_castMany setting pool _ _
  have hcount : (tray.afterPool setting pool).counted =
      min (tray.counted + pool.count.toNat) maxCounted := counted_castMany setting pool _ _
  -- The record has room for the dice, so the counter does not stop short of them.
  have hcounted : tray.dice.size + pool.count.toNat ≤
      min (tray.counted + pool.count.toNat) maxCounted := by
    have hbefore := h.counted
    have hfits : tray.dice.size + pool.count.toNat ≤ maxCounted := hroom
    omega
  constructor
  · rw [hcount]
    exact Nat.min_le_right _ _
  · rw [hsize, hcount]
    exact hcounted
  · intro limit hmax
    simp only [Options.exceeded, hmax, decide_eq_false_iff_not, Nat.not_lt] at hlimit
    rw [hsize]
    exact Nat.le_trans hcounted hlimit

/-- Rolling a pool keeps a tray in order, also if the pool is refused. -/
theorem Sound.next {setting : Setting} {tray tray' : Tray} (h : tray.Sound setting)
    (hnext : tray.Next setting tray') : tray'.Sound setting := by
  obtain ⟨pool, rfl⟩ := hnext
  have hrecorded : (tray.count pool.count.toNat).Recorded setting :=
    ⟨h.label, h.value, h.drawn⟩
  cases hrefuses : (tray.count pool.count.toNat).refuses setting pool with
  | true =>
    rw [rollPool_of_refuses hrefuses]
    exact ⟨hrecorded, h.toBounded.count _⟩
  | false =>
    rw [rollPool_of_not_refuses hrefuses]
    exact ⟨hrecorded.castMany pool _, h.toBounded.afterPool hrefuses⟩

/-- Any number of steps keeps a tray in order. -/
theorem Sound.reaches {setting : Setting} {tray tray' : Tray} (h : tray.Sound setting)
    (hreaches : tray.Reaches setting tray') : tray'.Sound setting := by
  induction hreaches with
  | refl => exact h
  | tail _ hnext ih => exact ih.next hnext

/-- Any number of requests keeps a tray in order. -/
theorem Sound.performAll {setting : Setting} {tray : Tray} (h : tray.Sound setting)
    (requests : List Request) : (Request.performAll setting requests tray).Sound setting :=
  h.reaches (Request.performAll_reaches setting requests tray)

end Tray

end DiceNotation
