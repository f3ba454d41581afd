import DiceNotation.Proofs.Draw
import Mathlib.Data.FinEnum
import Mathlib.Data.Fintype.BigOperators
import Mathlib.Logic.Equiv.Basic

/-!
# Draws without bias

All values between two bounds come up equally often. If the remainders of two values are
exchanged in every sample of a sequence, then each sample stays on its side of the limit, so
that the sample that is used stays at its place, and the draw gives the one value instead of the
other. This pairs the sequences of samples for the two values. It concerns the sequences in
which some sample is below the limit; without one, a draw gives up and is not fair.
-/

namespace DiceNotation

/-- The stream that starts with the given samples and goes on with another stream. -/
def Samples.startingWith {count : Nat} (first : Fin count → UInt32) (rest : Samples) : Samples :=
  fun position => if h : position < count then first ⟨position, h⟩ else rest position

/-- The first samples are those that were given. -/
theorem Samples.startingWith_of_lt {count position : Nat} (h : position < count)
    (first : Fin count → UInt32) (rest : Samples) :
    startingWith first rest position = first ⟨position, h⟩ :=
  dif_pos h

namespace Draw

/-- The sample with the other one of two remainders, if it has one of them and is below the
limit. -/
def exchange (range a b : Nat) (sample : UInt32) : UInt32 :=
  if sample.toNat < limit range then
    UInt32.ofNat (sample.toNat / range * range + Equiv.swap a b (sample.toNat % range))
  else sample

section

variable {range : Nat}

private theorem parts_of_add {quotient remainder : Nat} (h : remainder < range) :
    (quotient * range + remainder) / range = quotient ∧
      (quotient * range + remainder) % range = remainder := by
  constructor
  · rw [Nat.mul_comm, Nat.mul_add_div (by omega), Nat.div_eq_of_lt h, Nat.add_zero]
  · rw [Nat.mul_add_mod', Nat.mod_eq_of_lt h]

/-- Whether a sample is below the limit does not depend on its remainder. -/
theorem add_lt_limit_iff (sample : Nat) {remainder : Nat} (h : remainder < range) :
    sample / range * range + remainder < limit range ↔ sample < limit range := by
  have hpos : 0 < range := by omega
  unfold limit
  rw [← Nat.div_lt_iff_lt_mul hpos, ← Nat.div_lt_iff_lt_mul hpos, (parts_of_add h).1]

variable {a b : Nat} (ha : a < range) (hb : b < range)

include ha hb

private theorem swap_mod_lt (sample : Nat) : Equiv.swap a b (sample % range) < range := by
  have hmod : sample % range < range := Nat.mod_lt sample (by omega)
  rw [Equiv.swap_apply_def]
  split_ifs <;> assumption

/-- A sample below the limit keeps its quotient, and has the other remainder. -/
theorem toNat_exchange {sample : UInt32} (h : sample.toNat < limit range) :
    (exchange range a b sample).toNat =
      sample.toNat / range * range + Equiv.swap a b (sample.toNat % range) := by
  have hbelow := (add_lt_limit_iff sample.toNat (swap_mod_lt ha hb sample.toNat)).mpr h
  have hlimit : limit range ≤ sampleCount := Nat.div_mul_le_self _ _
  rw [exchange, if_pos h]
  exact UInt32.toNat_ofNat_of_lt' (Nat.lt_of_lt_of_le hbelow hlimit)

/-- An exchange keeps a sample on its side of the limit. -/
theorem exchange_lt_limit_iff (sample : UInt32) :
    (exchange range a b sample).toNat < limit range ↔ sample.toNat < limit range := by
  by_cases h : sample.toNat < limit range
  · rw [toNat_exchange ha hb h, add_lt_limit_iff _ (swap_mod_lt ha hb _)]
  · rw [exchange, if_neg h]

/-- The remainder of a sample below the limit is exchanged. -/
theorem exchange_mod {sample : UInt32} (h : sample.toNat < limit range) :
    (exchange range a b sample).toNat % range = Equiv.swap a b (sample.toNat % range) := by
  rw [toNat_exchange ha hb h, (parts_of_add (swap_mod_lt ha hb _)).2]

/-- Exchanging twice changes nothing. -/
theorem exchange_involutive : Function.Involutive (exchange range a b) := by
  intro sample
  by_cases h : sample.toNat < limit range
  · have hquotient : (exchange range a b sample).toNat / range = sample.toNat / range := by
      rw [toNat_exchange ha hb h, (parts_of_add (swap_mod_lt ha hb _)).1]
    have hbelow := (exchange_lt_limit_iff ha hb sample).mpr h
    apply UInt32.toNat_inj.mp
    rw [toNat_exchange ha hb hbelow, hquotient, exchange_mod ha hb h, Equiv.swap_apply_self,
      Nat.mul_comm, Nat.div_add_mod]
  · simp only [exchange, if_neg h]

end

/-- Which sample is used depends only on which ones are below the limit. -/
theorem usedPosition_congr {samples others : Samples} {limit redraws position : Nat}
    (h : ∀ place ≤ position + redraws,
      (others place).toNat < limit ↔ (samples place).toNat < limit) :
    usedPosition others limit redraws position = usedPosition samples limit redraws position := by
  induction redraws generalizing position with
  | zero => rfl
  | succ redraws ih =>
    have hnext : usedPosition others limit redraws (position + 1) =
        usedPosition samples limit redraws (position + 1) :=
      ih fun place hplace => h place (by omega)
    rw [usedPosition, usedPosition, hnext]
    simp only [h position (by omega)]

/-- If some sample up to the last one is below the limit, then one below the limit is used. -/
theorem used_lt_limit {samples : Samples} {limit redraws position place : Nat}
    (hfrom : position ≤ place) (hto : place ≤ position + redraws)
    (hbelow : (samples place).toNat < limit) :
    (samples (usedPosition samples limit redraws position)).toNat < limit := by
  induction redraws generalizing position with
  | zero =>
    obtain rfl : place = position := by omega
    exact hbelow
  | succ redraws ih =>
    rw [usedPosition]
    split
    · assumption
    · next habove =>
      have hne : place ≠ position := by
        rintro rfl
        exact habove hbelow
      exact ih (by omega) (by omega)

/-- The remainder of the sample that is used decides which value is drawn. -/
theorem value_between_eq_iff {low high value : Int64} (h : low < high)
    (hrange : range low high < sampleCount) (hlow : low ≤ value) (samples : Samples)
    (position : Nat) :
    (between samples position low high).value = value ↔
      (samples (usedPosition samples (limit (range low high)) maxRedraws position)).toNat %
        range low high = (value.toInt - low.toInt).toNat := by
  rw [Int64.le_iff_toInt_le] at hlow
  rw [← Int64.toInt_inj, (toInt_value_between samples position h hrange).1]
  omega

/-- The sequences of samples, as many as a draw takes at most, in which some sample is below the
greatest multiple of the range that 32 bits hold. -/
def fairSequences (low high : Int64) : Finset (Fin 101 → UInt32) :=
  Finset.univ.filter fun first => ∃ place,
    (first place).toNat < 2 ^ 32 / range low high * range low high

/-- The sequences, out of those with a sample below that multiple, on which a draw gives a
value. -/
def sequencesFor (rest : Samples) (low high value : Int64) : Finset (Fin 101 → UInt32) :=
  (fairSequences low high).filter fun first =>
    (between (.startingWith first rest) 0 low high).value = value

/-- The limit of a draw is the multiple below which a fair sequence has a sample. -/
theorem mem_sequencesFor {rest : Samples} {low high value : Int64} {first : Fin 101 → UInt32} :
    first ∈ sequencesFor rest low high value ↔
      (∃ place, (first place).toNat < limit (range low high)) ∧
        (between (.startingWith first rest) 0 low high).value = value := by
  have hlimit : limit (range low high) = 2 ^ 32 / range low high * range low high := rfl
  simp [sequencesFor, fairSequences, hlimit]

/-- A number between the bounds lies less than the range above the lower one. -/
theorem offset_lt_range {low high value : Int64} (hlow : low ≤ value) (hhigh : value ≤ high) :
    (value.toInt - low.toInt).toNat < range low high := by
  rw [Int64.le_iff_toInt_le] at hlow hhigh
  unfold range
  omega

/-- Exchanging the remainders of two values in all samples exchanges the two values. -/
theorem mem_sequencesFor_exchange {low high v w : Int64} (h : low < high)
    (hrange : range low high < sampleCount) (hv : low ≤ v ∧ v ≤ high) (hw : low ≤ w ∧ w ≤ high)
    (rest : Samples) (first : Fin 101 → UInt32) :
    (exchange (range low high) (v.toInt - low.toInt).toNat (w.toInt - low.toInt).toNat ∘ first) ∈
        sequencesFor rest low high w ↔ first ∈ sequencesFor rest low high v := by
  have ha := offset_lt_range hv.1 hv.2
  have hb := offset_lt_range hw.1 hw.2
  set a := (v.toInt - low.toInt).toNat with hadef
  set b := (w.toInt - low.toInt).toNat with hbdef
  have hbelow (place : Fin 101) :
      (exchange (range low high) a b (first place)).toNat < limit (range low high) ↔
        (first place).toNat < limit (range low high) := exchange_lt_limit_iff ha hb _
  simp only [mem_sequencesFor, Function.comp_apply, hbelow]
  refine and_congr_right fun hfair => ?_
  obtain ⟨place, hplace⟩ := hfair
  rw [value_between_eq_iff h hrange hv.1, value_between_eq_iff h hrange hw.1, ← hadef, ← hbdef]
  set samples := Samples.startingWith first rest with hsamples
  set others :=
    Samples.startingWith (exchange (range low high) a b ∘ first) rest with hothers
  -- both streams use the sample at the same place, which is one of the sequence
  have hother (place : Nat) (hplace : place < 101) :
      others place = exchange (range low high) a b (samples place) := by
    rw [hothers, hsamples, Samples.startingWith_of_lt hplace, Samples.startingWith_of_lt hplace]
    rfl
  have hsame : usedPosition others (limit (range low high)) maxRedraws 0 =
      usedPosition samples (limit (range low high)) maxRedraws 0 := by
    refine usedPosition_congr fun place hplace => ?_
    rw [hother place (by unfold maxRedraws at hplace; omega), exchange_lt_limit_iff ha hb]
  have hused : usedPosition samples (limit (range low high)) maxRedraws 0 < 101 := by
    have hle := usedPosition_le samples (limit (range low high)) maxRedraws 0
    unfold maxRedraws at hle ⊢
    omega
  have hlimit : (samples (usedPosition samples (limit (range low high)) maxRedraws 0)).toNat <
      limit (range low high) := by
    have hto : (place : Nat) ≤ 0 + maxRedraws := by
      have hlt := place.isLt
      unfold maxRedraws
      omega
    refine used_lt_limit (Nat.zero_le _) hto ?_
    rwa [hsamples, Samples.startingWith_of_lt place.isLt]
  rw [hsame, hother _ hused, exchange_mod ha hb hlimit, Equiv.swap_apply_eq_iff,
    Equiv.swap_apply_right]

/-- Two values between the bounds come from equally many sequences. -/
theorem card_sequencesFor {low high v w : Int64} (h : low < high)
    (hrange : range low high < sampleCount) (hv : low ≤ v ∧ v ≤ high) (hw : low ≤ w ∧ w ≤ high)
    (rest : Samples) :
    (sequencesFor rest low high v).card = (sequencesFor rest low high w).card := by
  have hinvolutive :=
    exchange_involutive (offset_lt_range hv.1 hv.2) (offset_lt_range hw.1 hw.2)
  refine Finset.card_equiv (Equiv.piCongrRight fun _ => hinvolutive.toPerm) fun first => ?_
  exact (mem_sequencesFor_exchange h hrange hv hw rest first).symm

/-- A range that fills the 32 bits gives each value for exactly one sample. -/
theorem existsUnique_sample {low high value : Int64} (h : low < high)
    (hrange : range low high = sampleCount) (hlow : low ≤ value) (hhigh : value ≤ high) :
    ∃! sample, ∀ samples position,
      (between samples position low high).value = value ↔ samples position = sample := by
  have hoffset := offset_lt_range hlow hhigh
  rw [hrange] at hoffset
  rw [Int64.le_iff_toInt_le] at hlow
  have hvalue (samples : Samples) (position : Nat) :
      (between samples position low high).value = value ↔
        samples position = UInt32.ofNat (value.toInt - low.toInt).toNat := by
    rw [← Int64.toInt_inj, (toInt_value_of_wide samples position h (Nat.le_of_eq hrange.symm)).1,
      ← UInt32.toNat_inj, UInt32.toNat_ofNat_of_lt' hoffset]
    omega
  refine ⟨_, hvalue, fun other hother => ?_⟩
  have hconstant := (hother (fun _ => other) 0).mpr rfl
  exact (hvalue (fun _ => other) 0).mp hconstant

end Draw

/-- The lower one of the two sides that bear a face. -/
def Face.lowerSide : Face → Int64
  | .minus => 1
  | .blank => 3
  | .plus => 5

/-- A face comes up on two sides. -/
theorem Die.valueOf_fate_eq_iff {side : Int64} (hlow : 1 ≤ side) (hhigh : side ≤ 6) (face : Face) :
    Die.fate.valueOf side = face.value ↔ side = face.lowerSide ∨ side = face.lowerSide + 1 := by
  rw [Int64.le_iff_toInt_le] at hlow hhigh
  have hside : side ∈ ([1, 2, 3, 4, 5, 6] : List Int64) := by
    simp only [List.mem_cons, List.not_mem_nil, or_false, ← Int64.toInt_inj]
    change 1 ≤ side.toInt at hlow
    change side.toInt ≤ 6 at hhigh
    change side.toInt = 1 ∨ side.toInt = 2 ∨ side.toInt = 3 ∨ side.toInt = 4 ∨ side.toInt = 5 ∨
      side.toInt = 6
    omega
  simp only [List.mem_cons, List.not_mem_nil, or_false] at hside
  rcases hside with rfl | rfl | rfl | rfl | rfl | rfl <;> cases face <;> decide

namespace Draw

/-- The sequences, out of those with a sample below the multiple of six, on which a Fate die shows
a face. -/
def sequencesShowing (rest : Samples) (minRoll : Int64) (face : Face) :
    Finset (Fin 101 → UInt32) :=
  (fairSequences (Die.fate.lowestSide minRoll) Die.fate.highestSide).filter fun first =>
    Die.fate.valueOf (Die.fate.drawSide (.startingWith first rest) 0 minRoll).value = face.value

/-- The sequences for a face are those for its two sides. -/
theorem card_sequencesShowing (rest : Samples) (minRoll : Int64) (face : Face) :
    (sequencesShowing rest minRoll face).card = 2 * (sequencesFor rest 1 6 1).card := by
  have hsides : sequencesShowing rest minRoll face =
      sequencesFor rest 1 6 face.lowerSide ∪ sequencesFor rest 1 6 (face.lowerSide + 1) := by
    rw [sequencesFor, sequencesFor, ← Finset.filter_or]
    refine Finset.filter_congr fun first _ => ?_
    have hmem := between_mem (.startingWith first rest) 0 (show (1 : Int64) ≤ 6 by decide)
    exact Die.valueOf_fate_eq_iff hmem.1 hmem.2 face
  have hdisjoint : Disjoint (sequencesFor rest 1 6 face.lowerSide)
      (sequencesFor rest 1 6 (face.lowerSide + 1)) := by
    refine Finset.disjoint_filter.mpr fun first _ hlower hupper => ?_
    rw [hlower] at hupper
    revert hupper
    cases face <;> decide
  have hcard (side : Int64) (hside : 1 ≤ side ∧ side ≤ 6) :
      (sequencesFor rest 1 6 side).card = (sequencesFor rest 1 6 1).card :=
    card_sequencesFor (by decide) (by decide) hside (by decide) rest
  have hlower := hcard face.lowerSide (by cases face <;> decide)
  have hupper := hcard (face.lowerSide + 1) (by cases face <;> decide)
  rw [hsides, Finset.card_union_of_disjoint hdisjoint, hlower, hupper, Nat.two_mul]

/-- A draw is fair. In a range of fewer than `2 ^ 32` numbers, any two values come from equally
many of the sequences that have a sample below the greatest multiple of the range, whatever
follows them; in a range of as many, each value comes from exactly one sample; and the faces of a
Fate die come from equally many sequences. -/
theorem between_unbiased :
    (∀ low high : Int64, low < high → range low high < 2 ^ 32 →
        ∀ (rest : Samples) (v w : Int64), (low ≤ v ∧ v ≤ high) → (low ≤ w ∧ w ≤ high) →
          (sequencesFor rest low high v).card = (sequencesFor rest low high w).card) ∧
      (∀ low high : Int64, low < high → range low high = 2 ^ 32 → ∀ v, low ≤ v → v ≤ high →
        ∃! sample, ∀ samples position,
          (between samples position low high).value = v ↔ samples position = sample) ∧
      ∀ rest minRoll face face',
        (sequencesShowing rest minRoll face).card = (sequencesShowing rest minRoll face').card := by
  refine ⟨?_, ?_, ?_⟩
  · intro low high h hrange rest v w hv hw
    exact card_sequencesFor h hrange hv hw rest
  · intro low high h hrange v hlow hhigh
    exact existsUnique_sample h hrange hlow hhigh
  · intro rest minRoll face face'
    rw [card_sequencesShowing, card_sequencesShowing]

/-- The lowest and the highest number of a range around zero come from equally many sequences,
and in a range that fills the 32 bits the number 7 comes from one sample. -/
theorem between_unbiased_ranges :
    ((-3 : Int64) < 3 ∧ range (-3) 3 < 2 ^ 32 ∧
        (sequencesFor (fun _ => 0) (-3) 3 (-3)).card =
          (sequencesFor (fun _ => 0) (-3) 3 3).card) ∧
      ((0 : Int64) < 4294967295 ∧ range 0 4294967295 = 2 ^ 32 ∧
        ∃! sample, ∀ samples position,
          (between samples position 0 4294967295).value = 7 ↔ samples position = sample) := by
  have hsmall : (-3 : Int64) < 3 := by decide
  have hlarge : (0 : Int64) < 4294967295 := by decide
  have hrange : range (-3) 3 < 2 ^ 32 := by decide
  have hfull : range 0 4294967295 = 2 ^ 32 := by decide
  refine ⟨⟨hsmall, hrange, ?_⟩, hlarge, hfull, ?_⟩
  · exact between_unbiased.1 _ _ hsmall hrange _ _ _ (by decide) (by decide)
  · exact between_unbiased.2.1 _ _ hlarge hfull 7 (by decide) (by decide)

end Draw

end DiceNotation
