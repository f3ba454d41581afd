import DiceNotation.Proofs.Draw
import Mathlib.Algebra.Group.Nat.Defs

/-!
# Draws in 64 bits

A draw can be made with numbers of 64 bits only. Here every sum, product, quotient and remainder
is checked: it is there only if it fits and nothing is divided by zero. The checked draw is always
there, and it is the exact one. So no bounds and no samples make a draw overflow, and what it gives
can be said in terms of integers.
-/

namespace DiceNotation

namespace Checked

/-- A number as 64 bits without a sign, if it fits. -/
def unsigned? (n : Nat) : Option UInt64 :=
  if n < UInt64.size then some (UInt64.ofNat n) else none

/-- An integer as 64 bits with a sign, if it fits. -/
def signed? (n : Int) : Option Int64 :=
  if Int64.minValue.toInt ≤ n ∧ n ≤ Int64.maxValue.toInt then some (Int64.ofInt n) else none

/-- The sum, if it fits. -/
def sum? (a b : UInt64) : Option UInt64 :=
  unsigned? (a.toNat + b.toNat)

/-- The product, if it fits. -/
def product? (a b : UInt64) : Option UInt64 :=
  unsigned? (a.toNat * b.toNat)

/-- The quotient, if nothing is divided by zero. -/
def quotient? (a b : UInt64) : Option UInt64 :=
  if b = 0 then none else some (a / b)

/-- The remainder, if nothing is divided by zero. -/
def remainder? (a b : UInt64) : Option UInt64 :=
  if b = 0 then none else some (a % b)

/-- The sum with a sign, if it fits. -/
def signedSum? (a b : Int64) : Option Int64 :=
  signed? (a.toInt + b.toInt)

/-- The sum, or the largest number if it does not fit. -/
def cappedSum (a b : UInt64) : UInt64 :=
  UInt64.ofNat (min (a.toNat + b.toNat) (UInt64.size - 1))

/-- The sum with a sign, or the nearest integer that fits. -/
def cappedSignedSum (a b : Int64) : Int64 :=
  Int64.ofInt (max Int64.minValue.toInt (min (a.toInt + b.toInt) Int64.maxValue.toInt))

/-- How far two integers are apart. That fits without a sign. -/
def distance (a b : Int64) : UInt64 :=
  UInt64.ofNat (a.toInt - b.toInt).natAbs

/-- A number below the size of a word is kept. -/
theorem unsigned?_eq {n : Nat} (h : n < UInt64.size) : unsigned? n = some (UInt64.ofNat n) :=
  if_pos h

private theorem toNat_of_unsigned? {n : Nat} {word : UInt64} (h : unsigned? n = some word) :
    word.toNat = n := by
  unfold unsigned? at h
  split at h
  · next hfits =>
    obtain rfl := Option.some.inj h
    exact UInt64.toNat_ofNat_of_lt' hfits
  · cases h

/-- An integer between the bounds of a word is kept. -/
theorem signed?_eq {n : Int} (hlow : Int64.minValue.toInt ≤ n) (hhigh : n ≤ Int64.maxValue.toInt) :
    signed? n = some (Int64.ofInt n) :=
  if_pos ⟨hlow, hhigh⟩

private theorem quotient?_eq {a b : UInt64} (h : b ≠ 0) : quotient? a b = some (a / b) :=
  if_neg h

private theorem remainder?_eq {a b : UInt64} (h : b ≠ 0) : remainder? a b = some (a % b) :=
  if_neg h

/-- A number that fits with a sign is kept when it is taken as an integer. -/
theorem toInt_toInt64 {word : UInt64} (h : word.toNat < 2 ^ 63) :
    word.toInt64.toInt = word.toNat := by
  rw [← UInt64.ofNat_toNat (x := word), UInt64.toInt64_ofNat', Int64.toInt_ofNat_of_lt h,
    UInt64.ofNat_toNat]

end Checked

namespace Draw

open Checked

/-- The number of different samples in 64 bits. -/
def sampleCount64 : UInt64 :=
  4294967296

/-- Draws samples until one is below the limit or a hundred were drawn again. The result is the
last sample, the position behind it, and whether that sample is not below the limit. -/
def redraw? (samples : Samples) (limit sample : UInt64) (next : Nat) (redraws : UInt64) :
    Option (UInt64 × Nat × Bool) :=
  if sample < limit then some (sample, next, false)
  else if maxRedraws ≤ redraws.toNat then some (sample, next, true)
  else
    match hmore : sum? redraws 1 with
    | none => none
    | some more => redraw? samples limit (samples next).toUInt64 (next + 1) more
termination_by maxRedraws - redraws.toNat
decreasing_by
  have hnext : more.toNat = redraws.toNat + 1 := toNat_of_unsigned? hmore
  omega

/-- The number of integers from `low` to `high`, or the largest number if it does not fit. -/
def range64 (low high : Int64) : UInt64 :=
  cappedSum (distance high low) 1

/-- Draws one of so many integers from `low` on, if there are fewer of them than samples. -/
def amongFew? (samples : Samples) (position : Nat) (low : Int64) (range : UInt64) :
    Option Draw := do
  let quotient ← quotient? sampleCount64 range
  let limit ← product? quotient range
  let (sample, next, gaveUp) ← redraw? samples limit (samples position).toUInt64 (position + 1) 0
  let remainder ← remainder? sample range
  let value ← signedSum? low remainder.toInt64
  some ⟨value, next, gaveUp⟩

/-- Draws a number from `low` to `high` with checked arithmetic in 64 bits. -/
def between? (samples : Samples) (position : Nat) (low high : Int64) : Option Draw :=
  if high ≤ low then some ⟨low, position, false⟩
  else if sampleCount64 ≤ range64 low high then
    some ⟨cappedSignedSum low (samples position).toUInt64.toInt64, position + 1, false⟩
  else amongFew? samples position low (range64 low high)

/-- A sample is compared with a limit as a number. -/
theorem toUInt64_lt_iff (sample : UInt32) (limit : UInt64) :
    sample.toUInt64 < limit ↔ sample.toNat < limit.toNat := by
  rw [UInt64.lt_iff_toNat_lt, UInt32.toNat_toUInt64]

/-- The sample that is found last is the one that is used. -/
theorem redraw?_eq (samples : Samples) (limit : UInt64) (position : Nat) {redraws : UInt64}
    {left : Nat} (h : redraws.toNat + left = maxRedraws) :
    redraw? samples limit (samples position).toUInt64 (position + 1) redraws =
      let used := usedPosition samples limit.toNat left position
      some ((samples used).toUInt64, used + 1, decide (limit.toNat ≤ (samples used).toNat)) := by
  induction left generalizing redraws position with
  | zero =>
    rw [redraw?, usedPosition]
    by_cases hbelow : (samples position).toNat < limit.toNat
    · rw [if_pos ((toUInt64_lt_iff _ _).mpr hbelow)]
      simp [hbelow]
    · rw [if_neg (mt (toUInt64_lt_iff _ _).mp hbelow), if_pos (by omega)]
      simp [Nat.le_of_not_lt hbelow]
  | succ left ih =>
    rw [redraw?, usedPosition]
    by_cases hbelow : (samples position).toNat < limit.toNat
    · rw [if_pos ((toUInt64_lt_iff _ _).mpr hbelow), if_pos hbelow]
      simp [hbelow]
    · rw [if_neg (mt (toUInt64_lt_iff _ _).mp hbelow), if_neg (by omega), if_neg hbelow]
      split
      · next hmore =>
        have hfits : redraws.toNat + 1 < UInt64.size := by
          unfold maxRedraws at h
          unfold UInt64.size
          omega
        rw [sum?, UInt64.toNat_one, unsigned?_eq hfits] at hmore
        cases hmore
      · next more hmore =>
        have hnext : more.toNat = redraws.toNat + 1 := toNat_of_unsigned? hmore
        exact ih (position + 1) (by omega)

section

variable {low high : Int64}

/-- The range in 64 bits is exact, but for the one that has a number more than fit. -/
theorem toNat_range64 (h : low < high) :
    (range64 low high).toNat = min (range low high) (UInt64.size - 1) := by
  have hrange := toInt_range h
  have hlow := low.le_toInt
  have hhigh := high.toInt_lt
  have hlt := Int64.lt_iff_toInt_lt.mp h
  have hfits : (high.toInt - low.toInt).natAbs < UInt64.size := by
    unfold UInt64.size
    omega
  have hdistance : (distance high low).toNat + 1 = range low high := by
    rw [distance, UInt64.toNat_ofNat_of_lt' hfits]
    omega
  have hcapped : min (range low high) (UInt64.size - 1) < UInt64.size := by
    unfold UInt64.size
    omega
  rw [range64, cappedSum, UInt64.toNat_one, hdistance, UInt64.toNat_ofNat_of_lt' hcapped]

/-- The comparison of the range in words agrees with the one in numbers. -/
theorem sampleCount64_le_iff (h : low < high) :
    sampleCount64 ≤ range64 low high ↔ sampleCount ≤ range low high := by
  have hcount : sampleCount64.toNat = sampleCount := rfl
  rw [UInt64.le_iff_toNat_le, toNat_range64 h, hcount]
  unfold sampleCount UInt32.size UInt64.size
  omega

/-- A sample that is added to the lower bound and stays below the upper one needs no cap. -/
theorem cappedSignedSum_sample {sample : UInt32} (h : low.toInt + sample.toNat ≤ high.toInt) :
    cappedSignedSum low sample.toUInt64.toInt64 = Int64.ofInt (low.toInt + sample.toNat) := by
  have hsample := sample.toNat_lt
  have hlow : Int64.minValue.toInt ≤ low.toInt := low.le_toInt
  have hhigh : high.toInt ≤ Int64.maxValue.toInt := Int64.le_iff_toInt_le.mp high.le_maxValue
  have hfits : sample.toUInt64.toNat < 2 ^ 63 := by
    rw [UInt32.toNat_toUInt64]
    omega
  rw [cappedSignedSum, toInt_toInt64 hfits, UInt32.toNat_toUInt64]
  congr 1
  omega

section

variable (h : low < high) (hnarrow : range low high < sampleCount)

include h hnarrow

private theorem toNat_range64_of_narrow : (range64 low high).toNat = range low high := by
  rw [toNat_range64 h]
  unfold sampleCount UInt32.size at hnarrow
  unfold UInt64.size
  omega

/-- The range is no zero to divide by. -/
theorem range64_ne_zero : range64 low high ≠ 0 := by
  intro hzero
  have hrange := toNat_range64_of_narrow h hnarrow
  rw [hzero, UInt64.toNat_zero] at hrange
  have hpos := toInt_range h
  have hlt := Int64.lt_iff_toInt_lt.mp h
  omega

/-- The limit fits into 64 bits, since it is no more than the number of samples. -/
theorem product?_quotient : ∃ limit64 : UInt64,
    product? (sampleCount64 / range64 low high) (range64 low high) = some limit64 ∧
      limit64.toNat = limit (range low high) := by
  have hle : limit (range low high) ≤ sampleCount := Nat.div_mul_le_self _ _
  have hfits : limit (range low high) < UInt64.size := Nat.lt_of_le_of_lt hle (by decide)
  have hcount : sampleCount64.toNat = sampleCount := rfl
  refine ⟨_, ?_, UInt64.toNat_ofNat_of_lt' hfits⟩
  rw [product?, UInt64.toNat_div, toNat_range64_of_narrow h hnarrow, hcount]
  exact unsigned?_eq hfits

/-- A remainder that is added to the lower bound and stays below the upper one fits. -/
theorem signedSum?_remainder {sample : UInt32}
    (hoffset : low.toInt + (sample.toNat % range low high : Nat) ≤ high.toInt) :
    signedSum? low (sample.toUInt64 % range64 low high).toInt64 =
      some (Int64.ofInt (low.toInt + (sample.toNat % range low high : Nat))) := by
  have hremainder :
      (sample.toUInt64 % range64 low high).toNat = sample.toNat % range low high := by
    rw [UInt64.toNat_mod, UInt32.toNat_toUInt64, toNat_range64_of_narrow h hnarrow]
  have hfits : (sample.toUInt64 % range64 low high).toNat < 2 ^ 63 := by
    have hle := Nat.mod_le sample.toNat (range low high)
    have hsample := sample.toNat_lt
    omega
  have hlow : Int64.minValue.toInt ≤ low.toInt := low.le_toInt
  have hhigh : high.toInt ≤ Int64.maxValue.toInt := Int64.le_iff_toInt_le.mp high.le_maxValue
  rw [signedSum?, toInt_toInt64 hfits, hremainder]
  exact signed?_eq (by omega) (by omega)

/-- In a range that is smaller than the number of samples, no step of the checked draw fails. -/
theorem amongFew?_eq (samples : Samples) (position : Nat) :
    amongFew? samples position low (range64 low high) =
      some (between samples position low high) := by
  have hne := range64_ne_zero h hnarrow
  obtain ⟨limit64, hproduct, hlimit⟩ := product?_quotient h hnarrow
  have hstart : (0 : UInt64).toNat + maxRedraws = maxRedraws := Nat.zero_add _
  have hredraw := redraw?_eq samples limit64 position hstart
  rw [hlimit] at hredraw
  obtain ⟨-, hhigh⟩ := toInt_value_between samples position h hnarrow
  simp only [amongFew?, quotient?_eq hne, hproduct, hredraw, remainder?_eq hne,
    signedSum?_remainder h hnarrow hhigh, Option.bind_eq_bind, Option.bind_some,
    between_of_narrow samples position h hnarrow]

end

/-- The checked draw is there, for all bounds and samples, and it is the exact one. -/
theorem between?_eq (samples : Samples) (position : Nat) (low high : Int64) :
    between? samples position low high = some (between samples position low high) := by
  by_cases hle : high ≤ low
  · rw [between?, if_pos hle, between_of_le samples position hle]
  · have h : low < high := Int64.not_le.mp hle
    by_cases hwide : sampleCount ≤ range low high
    · obtain ⟨-, hhigh⟩ := toInt_value_of_wide samples position h hwide
      rw [between?, if_neg hle, if_pos ((sampleCount64_le_iff h).mpr hwide),
        cappedSignedSum_sample hhigh, between_of_wide samples position h hwide]
    · rw [between?, if_neg hle, if_neg (mt (sampleCount64_le_iff h).mp hwide),
        amongFew?_eq h (Nat.not_le.mp hwide)]

end

/-- The place of the first sample from a position on that is below a limit. -/
structure FirstBelow (samples : Samples) (limit position place : Nat) : Prop where
  position_le : position ≤ place
  below : (samples place).toNat < limit
  above_before : ∀ earlier, position ≤ earlier → earlier < place →
    limit ≤ (samples earlier).toNat

/-- The sample that is used is the first one below the limit, or the last redraw if there is no
such sample. -/
theorem firstBelow_usedPosition (samples : Samples) (limit redraws position : Nat) :
    let used := usedPosition samples limit redraws position
    FirstBelow samples limit position used ∨
      used = position + redraws ∧
        ∀ place, position ≤ place → place ≤ used → limit ≤ (samples place).toNat := by
  intro used
  obtain ⟨hfrom, habove, hlast⟩ := usedPosition_spec samples limit redraws position
  by_cases hbelow : (samples used).toNat < limit
  · exact .inl ⟨hfrom, hbelow, habove⟩
  · refine .inr ⟨hlast.resolve_left hbelow, fun place hplace hto => ?_⟩
    rcases Nat.eq_or_lt_of_le hto with rfl | hbefore
    · exact Nat.le_of_not_lt hbelow
    · exact habove place hplace hbefore

/-- A draw between any bounds from any samples overflows nowhere and divides by no zero. Without a
number between the bounds it gives the lower one and takes no sample. Otherwise the number lies
between the bounds and takes 1 to 101 samples. In a range of fewer than `2 ^ 32` numbers, the
remainder of a sample is added to the lower bound: that of the first sample below the limit, if
the first 101 samples have one, or else, and only then with a warning, that of the last of them.
In a larger range, the first sample itself is added. -/
theorem between_exact (samples : Samples) (position : Nat) (low high : Int64) :
    let draw := between samples position low high
    between? samples position low high = some draw ∧
      (high ≤ low → draw = ⟨low, position, false⟩) ∧
      (low < high →
        (low ≤ draw.value ∧ draw.value ≤ high) ∧
        (position + 1 ≤ draw.next ∧ draw.next ≤ position + 101) ∧
        ∀ range : Nat, (range : Int) = high.toInt - low.toInt + 1 →
          (range < 2 ^ 32 → ∃ place,
            draw.value.toInt = low.toInt + ((samples place).toNat % range : Nat) ∧
            draw.next = place + 1 ∧
            (FirstBelow samples (2 ^ 32 / range * range) position place ∧
                place ≤ position + 100 ∧ draw.gaveUp = false ∨
              place = position + 100 ∧
                (∀ earlier, position ≤ earlier → earlier ≤ place →
                  2 ^ 32 / range * range ≤ (samples earlier).toNat) ∧
                draw.gaveUp = true)) ∧
          (2 ^ 32 ≤ range →
            draw.value.toInt = low.toInt + (samples position).toNat ∧
              draw.next = position + 1 ∧ draw.gaveUp = false)) := by
  intro draw
  refine ⟨between?_eq samples position low high, between_of_le samples position, fun h => ?_⟩
  refine ⟨between_mem samples position (Int64.le_of_lt h),
    ⟨lt_next_between samples position h, between_next_le samples position low high⟩,
    fun numbers hnumbers => ?_⟩
  obtain rfl : numbers = range low high := by
    have hrange := toInt_range h
    omega
  refine ⟨fun hnarrow => ?_, fun hwide => ?_⟩
  · have hvalue := (toInt_value_between samples position h hnarrow).1
    have hdraw : draw = _ := between_of_narrow samples position h hnarrow
    refine ⟨_, hvalue, congrArg Draw.next hdraw, ?_⟩
    have hgaveUp := congrArg Draw.gaveUp hdraw
    have hle := usedPosition_le samples (limit (range low high)) maxRedraws position
    refine (firstBelow_usedPosition samples (limit (range low high)) maxRedraws position).imp
      (fun hfirst => ⟨hfirst, hle, ?_⟩) fun ⟨hlast, habove⟩ => ⟨hlast, habove, ?_⟩
    · rw [hgaveUp]
      exact decide_eq_false (Nat.not_le.mpr hfirst.below)
    · rw [hgaveUp]
      exact decide_eq_true (habove _ (by omega) (Nat.le_refl _))
  · have hdraw : draw = _ := between_of_wide samples position h hwide
    exact ⟨(toInt_value_of_wide samples position h hwide).1, congrArg Draw.next hdraw,
      congrArg Draw.gaveUp hdraw⟩

/-- All integers together are one more than 64 bits can count. -/
example : between? (fun _ => 5) 0 Int64.minValue Int64.maxValue =
    some ⟨Int64.minValue + 5, 1, false⟩ := by
  rw [between?_eq]
  decide

/-- A sample that favours some sides is used in the end if there is no other. -/
example : between (fun _ => 4294967295) 0 1 6 = ⟨4, 101, true⟩ := by
  decide +kernel

end Draw

end DiceNotation
