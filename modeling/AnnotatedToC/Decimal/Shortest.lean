import AnnotatedToC.Double

/-!
# Shortest decimals

The decimal of a double is the shortest one that reads back as it, and of those the nearest. A grid of
`n` significant digits is tried for `n = 1, 2, …`: if any of its points reads back, one of the two
neighbours of the value does. The reader itself is the test, so what is found reads back.
-/
namespace AnnotatedToC

/-- Which neighbour is taken when both are equally near. -/
inductive Tie
  | even
  | up
  deriving DecidableEq, Repr

def Tie.choose : Tie → Nat → Nat
  | .even, low => low + low % 2
  | .up, low => low + 1

namespace Decimal

def readsAs (magnitude : Nat) (d : Decimal) : Bool := Double.nearestDecimal d == magnitude

/-- The point nearest to `v` of the grid with the given exponent, among those that read back as
`magnitude`. -/
def onGrid? (tie : Tie) (magnitude : Nat) (v : Ratio) (exponent : Int) : Option Decimal :=
  let scaled := v.scale 10 (-exponent)
  let nearer := match scaled.compareHalf with
    | .lt => scaled.floor
    | .eq => tie.choose scaled.floor
    | .gt => scaled.floor + 1
  let farther := 2 * scaled.floor + 1 - nearer
  [nearer, farther].map (ofScientific · exponent) |>.find? (readsAs magnitude)

/-- All digits of a finite double: a negative power of two is a power of five over a power of ten. -/
def exact (magnitude : Nat) : Decimal :=
  match Double.exponent magnitude with
  | .ofNat k => .ofScientific (Double.significand magnitude * Nat.pow 2 k) 0
  | .negSucc k => .ofScientific (Double.significand magnitude * Nat.pow 5 (k + 1)) (.negSucc k)

/-- Seventeen digits suffice for every double, so that the exact decimal is never needed. -/
def shortest (tie : Tie) (magnitude : Nat) : Decimal :=
  let v := Double.value magnitude
  let point := v.pointPosition
  ((List.range 17).findSome? fun n => onGrid? tie magnitude v (point - (n + 1 : Nat))).getD
    (exact magnitude)

end Decimal

end AnnotatedToC
