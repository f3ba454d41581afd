import DiceNotation.Proofs.Draw

/-!
# The numbers that can be drawn

A draw adds at most one sample to its lower bound. Every number between the bounds comes up on
some stream of samples if it is less than the number of different samples above the lower bound,
and no other number does.
-/

namespace DiceNotation

namespace Draw

/-- A sample reaches no further than the number of different samples. -/
theorem toInt_value_between_lt (samples : Samples) (position : Nat) {low high : Int64}
    (h : low ≤ high) :
    (between samples position low high).value.toInt < low.toInt + sampleCount := by
  have hpos : 0 < sampleCount := by decide
  by_cases hle : high ≤ low
  · rw [between_of_le samples position hle]
    dsimp only
    omega
  · have hlt : low < high := Int64.not_le.mp hle
    by_cases hwide : sampleCount ≤ range low high
    · have hsample : (samples position).toNat < sampleCount := (samples position).toNat_lt
      rw [(toInt_value_of_wide samples position hlt hwide).1]
      omega
    · have hhigh := (between_mem samples position h).2
      have hrange := toInt_range hlt
      rw [Int64.le_iff_toInt_le] at hhigh
      omega

/-- If all samples are the distance of a number from the lower bound, that number is drawn. -/
theorem between_constant (position : Nat) {low high value : Int64} {offset : Nat}
    (hvalue : value.toInt = low.toInt + offset) (hhigh : value ≤ high)
    (hoffset : offset < sampleCount) :
    (between (fun _ => UInt32.ofNat offset) position low high).value = value := by
  have hsample : (UInt32.ofNat offset).toNat = offset := UInt32.toNat_ofNat_of_lt' hoffset
  rw [Int64.le_iff_toInt_le] at hhigh
  rw [← Int64.toInt_inj]
  by_cases hle : high ≤ low
  · rw [between_of_le _ position hle]
    rw [Int64.le_iff_toInt_le] at hle
    dsimp only
    omega
  · have hlt : low < high := Int64.not_le.mp hle
    by_cases hwide : sampleCount ≤ range low high
    · rw [(toInt_value_of_wide _ position hlt hwide).1, hsample, hvalue]
    · have hnarrow : range low high < sampleCount := Nat.not_le.mp hwide
      have hrange := toInt_range hlt
      have hmod : offset % range low high = offset := Nat.mod_eq_of_lt (by omega)
      rw [(toInt_value_between _ position hlt hnarrow).1, hsample, hmod, hvalue]

end Draw

namespace Die

/-- The lowest side of a die with numbered sides, as an integer. -/
theorem toInt_lowestSide_sided (minRoll : Int64) {sides : Nat}
    (valid : 0 < sides ∧ sides < UInt32.size) :
    (lowestSide minRoll (.sided sides valid)).toInt = min minRoll.toInt sides := by
  rw [lowestSide, Draw.toInt_min, toInt_ofNat_sides valid]

/-- The highest side of a die with numbered sides, as an integer. -/
theorem toInt_highestSide_sided {sides : Nat} (valid : 0 < sides ∧ sides < UInt32.size) :
    (highestSide (.sided sides valid)).toInt = sides :=
  toInt_ofNat_sides valid

end Die

namespace Draw

/-- Some stream of samples gives a number exactly if it lies between the bounds and the number of
different samples, `2 ^ 32`, is more than its distance from the lower one. The same holds of the
sides of a die. -/
theorem attainable_iff (position : Nat) :
    (∀ low high value : Int64, low ≤ high →
      ((∃ samples, (between samples position low high).value = value) ↔
        (low ≤ value ∧ value ≤ high) ∧ value.toInt < low.toInt + sampleCount)) ∧
    ∀ (minRoll : Int64) (sides : Nat) (valid : 0 < sides ∧ sides < UInt32.size) (value : Int64),
      (∃ samples, ((Die.sided sides valid).drawSide samples position minRoll).value = value) ↔
        (min minRoll.toInt sides ≤ value.toInt ∧ value.toInt ≤ sides) ∧
          value.toInt < min minRoll.toInt sides + sampleCount := by
  have hbetween (low high value : Int64) (h : low ≤ high) :
      (∃ samples, (between samples position low high).value = value) ↔
        (low ≤ value ∧ value ≤ high) ∧ value.toInt < low.toInt + sampleCount := by
    constructor
    · rintro ⟨samples, rfl⟩
      exact ⟨between_mem samples position h, toInt_value_between_lt samples position h⟩
    · rintro ⟨⟨hlow, hhigh⟩, hreach⟩
      rw [Int64.le_iff_toInt_le] at hlow
      have hvalue : value.toInt = low.toInt + (value.toInt - low.toInt).toNat := by omega
      have hoffset : (value.toInt - low.toInt).toNat < sampleCount := by omega
      exact ⟨_, between_constant position hvalue hhigh hoffset⟩
  refine ⟨hbetween, fun minRoll sides valid value => ?_⟩
  have hle := Die.lowestSide_le_highestSide minRoll (.sided sides valid)
  unfold Die.drawSide
  rw [hbetween _ _ value hle, Int64.le_iff_toInt_le, Int64.le_iff_toInt_le,
    Die.toInt_lowestSide_sided, Die.toInt_highestSide_sided]

/-- The lowest side of a die may be so low that its highest side never comes up: no sample reaches
from minus one to the highest side of the largest die. -/
theorem not_forall_attainable :
    ¬((∀ (minRoll : Int64) (sides : Nat) (valid : 0 < sides ∧ sides < UInt32.size)
          (value : Int64), min minRoll.toInt sides ≤ value.toInt → value.toInt ≤ sides →
          ∃ samples, ((Die.sided sides valid).drawSide samples 0 minRoll).value = value) ∧
        ∀ low high value : Int64, low ≤ high → low ≤ value → value ≤ high →
          ∃ samples, (between samples 0 low high).value = value) := by
  rintro ⟨hsides, -⟩
  have valid : 0 < 4294967295 ∧ 4294967295 < UInt32.size := by decide
  obtain ⟨samples, hdraw⟩ := hsides (-1) 4294967295 valid 4294967295 (by decide) (by decide)
  have hle := Die.lowestSide_le_highestSide (-1) (.sided 4294967295 valid)
  have hreach := toInt_value_between_lt samples 0 hle
  unfold Die.drawSide at hdraw
  rw [hdraw, Die.toInt_lowestSide_sided] at hreach
  exact absurd hreach (by decide)

end Draw

end DiceNotation
