import AnnotatedToC.Decimal

/-!
# Binary64 numbers

A double is known by its 64 bits: a sign and below it a magnitude. Magnitudes are ordered like the
numbers they stand for, so rounding yields a magnitude and the sign is put on last.
-/
namespace AnnotatedToC

structure Double where
  bits : UInt64
  deriving DecidableEq, Repr

namespace Double

/-- The magnitude of infinity. Those above it are not numbers. -/
def infinity : Nat := 0x7FF0000000000000

/-- The bit above the magnitude. -/
def signBit : Nat := 0x8000000000000000

/-- The leading bit of a full significand. -/
def leadingBit : Nat := 0x10000000000000

def ofMagnitude (negative : Bool) (magnitude : Nat) : Double :=
  ⟨UInt64.ofNat (if negative then signBit + magnitude else magnitude)⟩

def isNegative (d : Double) : Bool := decide (signBit ≤ d.bits.toNat)

def magnitude (d : Double) : Nat := d.bits.toNat % signBit

def isFinite (d : Double) : Bool := decide (d.magnitude < infinity)

def isNaN (d : Double) : Bool := decide (infinity < d.magnitude)

/-- The value is the significand times two to the exponent. -/
def significand (magnitude : Nat) : Nat :=
  if magnitude < leadingBit then magnitude else leadingBit + magnitude % leadingBit

def exponent (magnitude : Nat) : Int :=
  (max (magnitude / leadingBit) 1 : Nat) - 1075

def value (magnitude : Nat) : Ratio :=
  .ofScientific (significand magnitude) 2 (exponent magnitude)

/-- The magnitude nearest to a fraction, a tie going to the even significand. A significand that
rounds up to the next power of two carries into the exponent by itself. -/
def nearest (r : Ratio) : Nat :=
  if r.num = 0 then 0
  else
    let exponent := max (r.log2 - 52) (-1074)
    (exponent + 1074).toNat * leadingBit + (r.scale 2 (-exponent)).roundEven

/-- The magnitude nearest to a decimal. Far outside the range of a double the power of ten is not
computed. -/
def nearestDecimal (d : Decimal) : Nat :=
  if d.coefficient = 0 ∨ d.point < -400 then 0
  else if 400 < d.point then infinity
  else nearest d.value

/-- The double nearest to a signed decimal, if it is finite. That numbers are read with this rounding is
an assumption on the reader of numbers, and all that is said of floats that are read back rests on it. -/
def ofDecimal? (negative : Bool) (d : Decimal) : Option Double :=
  if nearestDecimal d < infinity then some (ofMagnitude negative (nearestDecimal d)) else none

/-- The double nearest to an integer of at most 64 bits, which is always finite. -/
def ofInt (n : Int) : Double :=
  ofMagnitude (decide (n < 0)) (nearest ⟨n.natAbs, 1⟩)

end Double

end AnnotatedToC
