import DiceNotation.Draw

/-!
# Bounds of a draw

A number that is drawn lies between its bounds, and drawing it takes no more samples than
the first one and its redraws. Both hold for every stream of samples.
-/

namespace DiceNotation

namespace Draw

/-- The smaller one of two integers of 64 bits is the smaller one as an integer. -/
theorem toInt_min (a b : Int64) : (min a b).toInt = min a.toInt b.toInt := by
  change (if a ≤ b then a else b).toInt = _
  split
  · next h =>
    rw [Int64.le_iff_toInt_le] at h
    omega
  · next h =>
    rw [Int64.le_iff_toInt_le] at h
    omega

/-- The sample that is used is one of the first sample and its redraws. -/
theorem usedPosition_le (samples : Samples) (limit redraws position : Nat) :
    usedPosition samples limit redraws position ≤ position + redraws := by
  induction redraws generalizing position with
  | zero => simp [usedPosition]
  | succ redraws ih =>
    rw [usedPosition]
    split
    · omega
    · have hnext := ih (position + 1)
      omega

/-- All samples before the one that is used are at the limit or above it, and that one is below it
unless it is the last redraw. -/
theorem usedPosition_spec (samples : Samples) (limit redraws position : Nat) :
    position ≤ usedPosition samples limit redraws position ∧
      (∀ place, position ≤ place → place < usedPosition samples limit redraws position →
        limit ≤ (samples place).toNat) ∧
      ((samples (usedPosition samples limit redraws position)).toNat < limit ∨
        usedPosition samples limit redraws position = position + redraws) := by
  induction redraws generalizing position with
  | zero =>
    refine ⟨Nat.le_refl _, fun place hfrom hto => ?_, .inr rfl⟩
    rw [usedPosition] at hto
    omega
  | succ redraws ih =>
    obtain ⟨hfrom, habove, hlast⟩ := ih (position + 1)
    rw [usedPosition]
    split
    · next hbelow => exact ⟨Nat.le_refl _, fun place hfrom hto => by omega, .inl hbelow⟩
    · next hfirst =>
      refine ⟨by omega, fun place hplace hto => ?_, hlast.imp_right (by omega)⟩
      rcases Nat.eq_or_lt_of_le hplace with rfl | hplace
      · exact Nat.le_of_not_lt hfirst
      · exact habove place hplace hto

section

variable (samples : Samples) (position : Nat) {low high : Int64}

/-- Without a number above the lower bound, the lower bound is drawn without a sample. -/
theorem between_of_le (h : high ≤ low) :
    between samples position low high = ⟨low, position, false⟩ :=
  if_pos h

/-- In a range of as many numbers as there are samples or more, the sample itself is added. -/
theorem between_of_wide (h : low < high) (hwide : sampleCount ≤ range low high) :
    between samples position low high =
      ⟨Int64.ofInt (low.toInt + (samples position).toNat), position + 1, false⟩ := by
  rw [between, if_neg (Int64.not_le.mpr h)]
  exact if_pos hwide

/-- In a smaller range, the remainder of the sample that is used is added. -/
theorem between_of_narrow (h : low < high) (hnarrow : range low high < sampleCount) :
    between samples position low high =
      let used := usedPosition samples (limit (range low high)) maxRedraws position
      ⟨Int64.ofInt (low.toInt + ((samples used).toNat % range low high : Nat)), used + 1,
        limit (range low high) ≤ (samples used).toNat⟩ := by
  rw [between, if_neg (Int64.not_le.mpr h)]
  exact if_neg (Nat.not_le.mpr hnarrow)

/-- Drawing a number takes at most one sample and its redraws. -/
theorem between_next_le (low high : Int64) :
    (between samples position low high).next ≤ position + (maxRedraws + 1) := by
  by_cases h : high ≤ low
  · rw [between_of_le samples position h]
    dsimp only
    omega
  · have hlt : low < high := Int64.not_le.mp h
    by_cases hwide : sampleCount ≤ range low high
    · rw [between_of_wide samples position hlt hwide]
      dsimp only
      omega
    · rw [between_of_narrow samples position hlt (Nat.not_le.mp hwide)]
      have hused := usedPosition_le samples (limit (range low high)) maxRedraws position
      dsimp only
      omega

/-- Drawing a number that is not given by the bounds takes a sample. -/
theorem lt_next_between (h : low < high) : position < (between samples position low high).next := by
  by_cases hwide : sampleCount ≤ range low high
  · rw [between_of_wide samples position h hwide]
    exact Nat.lt_succ_self _
  · rw [between_of_narrow samples position h (Nat.not_le.mp hwide)]
    have hused := (usedPosition_spec samples (limit (range low high)) maxRedraws position).1
    exact Nat.lt_succ_of_le hused

/-- The number of integers from a lower bound to an upper one. -/
theorem toInt_range (h : low < high) : (range low high : Int) = high.toInt - low.toInt + 1 := by
  have hlt := Int64.lt_iff_toInt_lt.mp h
  unfold range
  omega

/-- An offset that keeps below the upper bound is added to the lower bound exactly. -/
theorem toInt_ofInt_add {offset : Nat} (hoffset : low.toInt + offset ≤ high.toInt) :
    (Int64.ofInt (low.toInt + offset)).toInt = low.toInt + offset := by
  have hlow := low.le_toInt
  have hhigh := high.toInt_lt
  exact Int64.toInt_ofInt_of_le (by omega) (by omega)

/-- In a range that has as many numbers as there are samples or more, the sample is added to the
lower bound. -/
theorem toInt_value_of_wide (h : low < high) (hwide : sampleCount ≤ range low high) :
    (between samples position low high).value.toInt = low.toInt + (samples position).toNat ∧
      low.toInt + (samples position).toNat ≤ high.toInt := by
  have hsample := (samples position).toNat_lt
  have hrange := toInt_range h
  have hoffset : low.toInt + (samples position).toNat ≤ high.toInt := by
    unfold sampleCount UInt32.size at hwide
    omega
  rw [between_of_wide samples position h hwide]
  exact ⟨toInt_ofInt_add hoffset, hoffset⟩

/-- In a range that is smaller than the number of samples, the remainder of the sample that is
used is added to the lower bound. -/
theorem toInt_value_between (h : low < high) (hrange : range low high < sampleCount) :
    let used := usedPosition samples (limit (range low high)) maxRedraws position
    (between samples position low high).value.toInt =
        low.toInt + ((samples used).toNat % range low high : Nat) ∧
      low.toInt + ((samples used).toNat % range low high : Nat) ≤ high.toInt := by
  intro used
  have hrangeInt := toInt_range h
  have hlt := Int64.lt_iff_toInt_lt.mp h
  have hmod := Nat.mod_lt (samples used).toNat (by omega : 0 < range low high)
  have hoffset : low.toInt + ((samples used).toNat % range low high : Nat) ≤ high.toInt := by omega
  rw [between_of_narrow samples position h hrange]
  exact ⟨toInt_ofInt_add hoffset, hoffset⟩

/-- A number that is drawn lies between its bounds. -/
theorem between_mem (h : low ≤ high) :
    low ≤ (between samples position low high).value ∧
      (between samples position low high).value ≤ high := by
  by_cases hle : high ≤ low
  · rw [between_of_le samples position hle]
    exact ⟨Int64.le_refl _, h⟩
  · have hlt : low < high := Int64.not_le.mp hle
    simp only [Int64.le_iff_toInt_le]
    by_cases hwide : sampleCount ≤ range low high
    · obtain ⟨hvalue, hhigh⟩ := toInt_value_of_wide samples position hlt hwide
      omega
    · obtain ⟨hvalue, hhigh⟩ :=
        toInt_value_between samples position hlt (Nat.not_le.mp hwide)
      omega

end

end Draw

namespace Die

/-- The number of sides of a die is kept exactly as an integer of 64 bits. -/
theorem toInt_ofNat_sides {sides : Nat} (valid : 0 < sides ∧ sides < UInt32.size) :
    (Int64.ofNat sides).toInt = sides := by
  have hsize := valid.2
  unfold UInt32.size at hsize
  exact Int64.toInt_ofNat_of_lt (by omega)

/-- There is a side between the lowest and the highest one. -/
theorem lowestSide_le_highestSide (minRoll : Int64) (die : Die) :
    die.lowestSide minRoll ≤ die.highestSide := by
  cases die with
  | sided sides valid =>
    rw [Int64.le_iff_toInt_le]
    simp only [lowestSide, highestSide, faces, Draw.toInt_min]
    omega
  | fate => simp only [lowestSide, highestSide, faces]; decide

/-- Every side of a Fate die that is drawn bears a face. -/
theorem ofSide?_drawSide_fate (samples : Samples) (position : Nat) (minRoll : Int64) :
    (Face.ofSide? (drawSide samples position minRoll .fate).value.toInt).isSome := by
  have hmem := Draw.between_mem samples position (lowestSide_le_highestSide minRoll .fate)
  obtain ⟨hlow, hhigh⟩ := hmem
  rw [Int64.le_iff_toInt_le] at hlow hhigh
  change 1 ≤ (drawSide samples position minRoll .fate).value.toInt at hlow
  change (drawSide samples position minRoll .fate).value.toInt ≤ 6 at hhigh
  unfold Face.ofSide?
  split
  · rfl
  · split
    · rfl
    · split
      · rfl
      · omega

/-- A die shows a value between its lowest and its highest one. -/
theorem valueOf_drawSide_mem (samples : Samples) (position : Nat) (minRoll : Int64) (die : Die) :
    die.lowestValue minRoll ≤ die.valueOf (die.drawSide samples position minRoll).value ∧
      die.valueOf (die.drawSide samples position minRoll).value ≤ die.highestValue := by
  cases die with
  | sided sides valid =>
    exact Draw.between_mem samples position (lowestSide_le_highestSide minRoll (.sided sides valid))
  | fate =>
    have hface := ofSide?_drawSide_fate samples position minRoll
    obtain ⟨face, hface⟩ := Option.isSome_iff_exists.mp hface
    simp only [valueOf, hface, Option.map_some, Option.getD_some, lowestValue, highestValue]
    cases face <;> decide

end Die

end DiceNotation
