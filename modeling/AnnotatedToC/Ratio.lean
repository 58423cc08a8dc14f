/-!
# Nonnegative fractions

Fractions that are never reduced. Decimal and binary numerals are both an integer scaled by a power of
a base, and rounding only needs the quotient and the remainder.
-/
namespace AnnotatedToC

structure Ratio where
  num : Nat
  den : Nat
  deriving DecidableEq, Repr

namespace Ratio

/-- The fraction times a power of the base. -/
def scale (r : Ratio) (base : Nat) : Int → Ratio
  | .ofNat k => ⟨r.num * base.pow k, r.den⟩
  | .negSucc k => ⟨r.num, r.den * base.pow (k + 1)⟩

/-- An integer times a power of the base. -/
def ofScientific (n base : Nat) (exponent : Int) : Ratio :=
  scale ⟨n, 1⟩ base exponent

def floor (r : Ratio) : Nat := r.num / r.den

/-- How far the fraction lies above its floor, compared with a half. -/
def compareHalf (r : Ratio) : Ordering := compare (2 * (r.num % r.den)) r.den

/-- The nearest integer, a half going to the even neighbour. -/
def roundEven (r : Ratio) : Nat :=
  match r.compareHalf with
  | .lt => r.floor
  | .eq => r.floor + r.floor % 2
  | .gt => r.floor + 1

/-- The greatest `e` with `2 ^ e ≤ r`, for a positive fraction: one off is all that the lengths of
numerator and denominator leave open. -/
def log2 (r : Ratio) : Int :=
  let guess := (r.num.log2 : Int) - r.den.log2
  let rest := r.scale 2 (-guess)
  if rest.num < rest.den then guess - 1 else guess

/-- The `p` with `10 ^ (p - 1) ≤ r < 10 ^ p`, for a positive fraction. -/
def pointPosition (r : Ratio) : Int :=
  if r.num < r.den then
    1 - ((Nat.toDigits 10 ((r.den - 1) / r.num)).length : Int)
  else (Nat.toDigits 10 r.floor).length

end Ratio

end AnnotatedToC
