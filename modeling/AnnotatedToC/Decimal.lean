import AnnotatedToC.Ratio

/-!
# Decimals

A decimal is its significant digits and the place of its point, counted from the first of them. Zeros
at either end of the digits say nothing that the point does not say: without them a number has one
decimal, whether it was written plainly or with an exponent.
-/
namespace AnnotatedToC

/-- The number `0.d₁d₂… * 10 ^ point`. -/
structure Decimal where
  digits : List Char
  point : Int
  deriving DecidableEq, Repr

namespace Decimal

def stripZeros (digits : List Char) : List Char :=
  (digits.reverse.dropWhile (· == '0')).reverse

/-- The decimal of digits that may have zeros at either end. -/
def ofDigits (digits : List Char) (point : Int) : Decimal :=
  let kept := digits.dropWhile (· == '0')
  ⟨stripZeros kept, point - digits.length + kept.length⟩

/-- The decimal of `n * 10 ^ exponent`. -/
def ofScientific (n : Nat) (exponent : Int) : Decimal :=
  let digits := Nat.toDigits 10 n
  .ofDigits digits (exponent + digits.length)

/-- The digits as an integer. -/
def coefficient (d : Decimal) : Nat := Nat.ofDigitChars 10 d.digits 0

/-- The power of ten that the coefficient is scaled by. -/
def exponent (d : Decimal) : Int := d.point - d.digits.length

def value (d : Decimal) : Ratio := .ofScientific d.coefficient 10 d.exponent

/-- An integer in decimal digits. -/
def intText : Int → List Char
  | .ofNat n => Nat.toDigits 10 n
  | .negSucc n => '-' :: Nat.toDigits 10 (n + 1)

end Decimal

end AnnotatedToC
