/-!
# Values

The values that dice notation computes with are binary64 numbers. A value is held as its
64 bits, so that the sign of a zero or of a NaN is part of it and equality of values is
equality of bits. Two orders are used: the numeric order, in which a NaN is comparable
with nothing and the two zeros are equal, and the total order by bits.
-/

namespace DiceNotation

/-- A binary64 number, given by its bits. -/
structure Value where
  /-- Sign, exponent and mantissa, from the highest bit down. -/
  bits : UInt64
  deriving DecidableEq

namespace Value

/-- The weight of the sign bit. -/
def signWeight : Nat :=
  0x8000000000000000

/-- The number of mantissas, and so the weight of the last exponent bit. -/
def mantissas : Nat :=
  0x10000000000000

/-- Whether the sign bit is set. -/
def isNegative (v : Value) : Bool :=
  signWeight ≤ v.bits.toNat

/-- All bits below the sign, as a number. It grows with the absolute value. -/
def magnitude (v : Value) : Nat :=
  v.bits.toNat % signWeight

/-- The magnitude of the two infinities: all exponent bits set, an empty mantissa. -/
def infiniteMagnitude : Nat :=
  0x7FF0000000000000

/-- Whether the value is not a number. -/
def isNaN (v : Value) : Bool :=
  infiniteMagnitude < v.magnitude

/-- Whether the value is one of the two infinities. -/
def isInfinite (v : Value) : Bool :=
  v.magnitude == infiniteMagnitude

/-- Whether the value is one of the two zeros. -/
def isZero (v : Value) : Bool :=
  v.magnitude == 0

/-- The zero with the sign bit clear. -/
def zero : Value := ⟨0⟩

/-- The zero with the sign bit set. -/
def negativeZero : Value := ⟨0x8000000000000000⟩

/-- The result of an operation without a numeric result. Its sign bit is set. -/
def undefinedResult : Value := ⟨0xFFF8000000000000⟩

/-- The value with the other sign. -/
def opposite (v : Value) : Value := ⟨v.bits ^^^ 0x8000000000000000⟩

/-- The value nearest to a natural number below `2 ^ 64`. -/
def ofNat (n : Nat) : Value :=
  ⟨(UInt64.ofNat n).toFloat.toBits⟩

/-- The value nearest to an integer whose absolute value is below `2 ^ 64`. -/
def ofInt (n : Int) : Value :=
  if n < 0 then (ofNat n.natAbs).opposite else ofNat n.natAbs

/-- A binary operation: an operand that is not a number is the result, the left one
before the right one. -/
def combine (operation : Float → Float → Float) (a b : Value) : Value :=
  if a.isNaN then a
  else if b.isNaN then b
  else
    let result := operation (Float.ofBits a.bits) (Float.ofBits b.bits)
    if result.isNaN then undefinedResult else ⟨result.toBits⟩

/-- The sum, rounded to the nearest value. -/
def add : Value → Value → Value := combine (· + ·)

/-- The difference, rounded to the nearest value. -/
def sub : Value → Value → Value := combine (· - ·)

/-- The product, rounded to the nearest value. -/
def mul : Value → Value → Value := combine (· * ·)

/-- The quotient, rounded to the nearest value. -/
def div : Value → Value → Value := combine (· / ·)

/-- The sum of a set of values, from left to right. The empty sum is the negative zero,
the value that changes no other value when it is added. -/
def sum (values : List Value) : Value :=
  values.foldl add negativeZero

/-- The sum of a set of values, from left to right, on top of the positive zero. -/
def total (values : List Value) : Value :=
  values.foldl add zero

/-- The whole number that, times a power of two, is the absolute value of a finite value. -/
def significand (v : Value) : Nat :=
  if v.magnitude / mantissas = 0 then v.magnitude else mantissas + v.magnitude % mantissas

/-- The exponent of the power of two that goes with the significand. -/
def exponent (v : Value) : Int :=
  if v.magnitude / mantissas = 0 then -1074 else (v.magnitude / mantissas : Nat) - 1075

/-- The largest whole value that is not above the value. A value without fractional
digits, also an infinity or a NaN, is its own floor. -/
def floor (v : Value) : Value :=
  if v.isZero || 0 ≤ v.exponent then v
  else
    let unit := Nat.pow 2 v.exponent.natAbs
    if v.isNegative then ofInt (-((v.significand + (unit - 1)) / unit : Nat))
    else ofNat (v.significand / unit)

/-- The place of a value in the total order: negative bits before positive bits, the
negative zero just before the positive one, a NaN beyond the infinity of its sign. -/
def rank (v : Value) : Int :=
  if v.isNegative then -(v.magnitude : Int) - 1 else v.magnitude

/-- The place of a number in the numeric order, the same for both zeros. -/
def position (v : Value) : Int :=
  if v.isNegative then -(v.magnitude : Int) else v.magnitude

/-- Whether both values are numbers and the first is the smaller one. -/
def less (a b : Value) : Bool :=
  !a.isNaN && !b.isNaN && a.position < b.position

/-- Whether both values are numbers and are equal, the two zeros included. -/
def same (a b : Value) : Bool :=
  !a.isNaN && !b.isNaN && a.position == b.position

end Value

end DiceNotation
