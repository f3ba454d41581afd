/-!
# Samples

Randomness comes as a stream of 32-bit samples. Whoever draws from a stream keeps the
position of the next sample, which is the number of samples drawn so far.
-/

namespace DiceNotation

/-- A stream of samples: the sample at each position. -/
abbrev Samples := Nat → UInt32

namespace Samples

/-- The low halves of the 64-bit numbers `start`, `start + step`, `start + 2 * step` and
so on. -/
def stepping (start step : UInt64) : Samples :=
  fun position => (start + UInt64.ofNat position * step).toUInt32

/-- The given samples, over and over. -/
def cycling (samples : Array UInt32) : Samples :=
  fun position => samples.getD (position % samples.size) 0

/-- The samples in a row of bytes, four bytes each with the lowest first, over and over. -/
def ofBytes (bytes : ByteArray) : Samples :=
  fun position =>
    let place := position % (bytes.size / 4) * 4
    let byte (i : Nat) : UInt32 := (bytes.data.getD (place + i) 0).toUInt32
    byte 0 ||| byte 1 <<< 8 ||| byte 2 <<< 16 ||| byte 3 <<< 24

end Samples

end DiceNotation
