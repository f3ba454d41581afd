import DiceNotation.Die
import DiceNotation.Face
import DiceNotation.Samples

/-!
# Drawing numbers

A number between two bounds is drawn from a stream of samples so that no number is
favoured: samples above the last full multiple of the range are drawn again. After a
hundred such samples in a row the next one is used whatever it is. A range that fills the
32 bits or exceeds them takes its sample as it is.
-/

namespace DiceNotation

/-- How often a sample that would favour some numbers is drawn again. -/
def maxRedraws : Nat := 100

/-- The number of different samples. -/
def sampleCount : Nat := UInt32.size

/-- A number that was drawn. -/
structure Draw where
  /-- The number. -/
  value : Int64
  /-- The position of the first sample that was not drawn. -/
  next : Nat
  /-- Whether no sample below the limit was found, so that one above it was used. -/
  gaveUp : Bool
  deriving DecidableEq

namespace Draw

/-- The number of integers from `low` to `high`. -/
def range (low high : Int64) : Nat :=
  (high.toInt - low.toInt + 1).toNat

/-- The samples below this limit fall on each number of a range equally often. -/
def limit (range : Nat) : Nat :=
  sampleCount / range * range

/-- The position of the sample that is used: the first one below the limit, or the one
after so many others that were not. -/
def usedPosition (samples : Samples) (limit : Nat) : Nat → Nat → Nat
  | 0, position => position
  | redraws + 1, position =>
    if (samples position).toNat < limit then position
    else usedPosition samples limit redraws (position + 1)

/-- Draws a number from `low` to `high`. If there is none in between, the result is `low`
and no sample is drawn. -/
def between (samples : Samples) (position : Nat) (low high : Int64) : Draw :=
  if high ≤ low then ⟨low, position, false⟩
  else
    let range := range low high
    if sampleCount ≤ range then
      ⟨Int64.ofInt (low.toInt + (samples position).toNat), position + 1, false⟩
    else
      let used := usedPosition samples (limit range) maxRedraws position
      let sample := (samples used).toNat
      ⟨Int64.ofInt (low.toInt + (sample % range : Nat)), used + 1, limit range ≤ sample⟩

end Draw

namespace Die

/-- The highest side of a die. -/
def highestSide (die : Die) : Int64 :=
  Int64.ofNat die.faces

/-- The lowest side of a die that can come up. The sides of a Fate die always start at
one; for other dice the options say where they start, at the highest side at most. -/
def lowestSide (minRoll : Int64) : Die → Int64
  | .sided sides _ => min minRoll (Int64.ofNat sides)
  | .fate => 1

/-- The value of a side of a die. -/
def valueOf (side : Int64) : Die → Int64
  | .sided .. => side
  | .fate => ((Face.ofSide? side.toInt).map Face.value).getD 0

/-- The lowest value of a die. -/
def lowestValue (minRoll : Int64) : Die → Int64
  | .sided sides _ => min minRoll (Int64.ofNat sides)
  | .fate => -1

/-- The highest value of a die. -/
def highestValue : Die → Int64
  | .sided sides _ => Int64.ofNat sides
  | .fate => 1

/-- Draws a side of a die. -/
def drawSide (samples : Samples) (position : Nat) (minRoll : Int64) (die : Die) : Draw :=
  Draw.between samples position (die.lowestSide minRoll) die.highestSide

end Die

end DiceNotation
