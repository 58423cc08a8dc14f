import AnnotatedToC.Decimal.Shortest

/-!
# Number styles

A style says which decimal exponents are written with a plain point, how the exponent of the others
is written and where a tie between two shortest decimals goes. A double always keeps a point or an
exponent, so no text of a double is the text of an integer.
-/
namespace AnnotatedToC

structure NumberStyle where
  /-- Least exponent of the first digit that is written with a plain point. -/
  leastPlain : Int
  /-- Greatest exponent of the first digit that is written with a plain point. -/
  greatestPlain : Int
  /-- Whether a positive exponent is written with its sign. -/
  signedExponent : Bool
  tie : Tie
  deriving DecidableEq, Repr

namespace NumberStyle

def zeros (n : Nat) : List Char := List.replicate n '0'

/-- Digits with the point at its place, filled up with zeros. -/
def plain (digits : List Char) : Int → List Char
  | .negSucc k => '0' :: '.' :: zeros (k + 1) ++ digits
  | .ofNat 0 => '0' :: '.' :: digits
  | .ofNat point =>
    if digits.length ≤ point then digits ++ zeros (point - digits.length) ++ ['.', '0']
    else digits.take point ++ '.' :: digits.drop point

def exponentText (style : NumberStyle) : Int → List Char
  | .ofNat e => (if style.signedExponent then ['+'] else []) ++ Decimal.intText e
  | e => Decimal.intText e

/-- One digit, a point and the others if there are any, and the exponent of the first digit. -/
def scientific (style : NumberStyle) (digits : List Char) (exponent : Int) : List Char :=
  let mantissa := match digits with
    | first :: second :: rest => first :: '.' :: second :: rest
    | digits => digits
  mantissa ++ 'e' :: style.exponentText exponent

def decimalText (style : NumberStyle) (d : Decimal) : List Char :=
  if style.leastPlain < d.point ∧ d.point ≤ style.greatestPlain + 1 then plain d.digits d.point
  else style.scientific d.digits (d.point - 1)

def magnitudeText (style : NumberStyle) (magnitude : Nat) : List Char :=
  if magnitude = 0 then ['0', '.', '0']
  else style.decimalText (.shortest style.tie magnitude)

/-- The text of a finite double. -/
def text (style : NumberStyle) (d : Double) : List Char :=
  if d.isNegative then '-' :: style.magnitudeText d.magnitude else style.magnitudeText d.magnitude

/-- Literals in C and in messages: plain from the fourth place after the point to sixteen places before
it. -/
def literal : NumberStyle where
  leastPlain := -4
  greatestPlain := 15
  signedExponent := false
  tie := .up

end NumberStyle

end AnnotatedToC
