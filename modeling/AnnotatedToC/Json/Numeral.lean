import AnnotatedToC.Json

/-!
# Numerals

A numeral is a sign, a whole part, and perhaps a fraction and an exponent. It stands for an integer if
it is written as one and fits into 64 bits, and for the nearest double otherwise.
-/
namespace AnnotatedToC.Json

/-- What is wrong with a text: it ends too early, it is not JSON at some character, or it is JSON of
another shape than the reader wants. -/
inductive Fault
  | incomplete
  | malformed
  | mismatch
  deriving DecidableEq, Repr

/-- A reader consumes the start of a text and gives back the rest of it. -/
abbrev Reader (α : Type) := List Char → Except Fault (α × List Char)

structure Numeral where
  negative : Bool
  whole : List Char
  fraction : Option (List Char)
  exponent : Option Int
  deriving DecidableEq, Repr

namespace Numeral

def decimal (n : Numeral) : Decimal :=
  .ofDigits (n.whole ++ n.fraction.getD []) (n.whole.length + n.exponent.getD 0)

/-- The number as a double. Correct rounding is assumed of the reader, as `Double.ofDecimal?` says. -/
def double? (n : Numeral) : Option Json := (Double.ofDecimal? n.negative n.decimal).map .double

/-- The integer that is written without fraction and exponent, if it has 64 bits. A negative zero is no
integer. -/
def int? (n : Numeral) : Option Int :=
  let whole := Nat.ofDigitChars 10 n.whole 0
  if n.fraction.isSome ∨ n.exponent.isSome then none
  else if n.negative then if 0 < whole ∧ whole ≤ Int64.minValue.toInt.natAbs then some (-whole) else none
  else if whole < UInt64.size then some whole else none

/-- The number, unless its magnitude is beyond every double. -/
def value? (n : Numeral) : Option Json :=
  match n.int? with
  | some i => some (.int i)
  | none => n.double?

end Numeral

/-- At least one digit. The fault of a text that ends here is the caller's choice. -/
def readDigits (atEnd : Fault) : Reader (List Char)
  | [] => .error atEnd
  | c :: rest =>
    if c.isDigit then .ok (c :: rest.takeWhile Char.isDigit, rest.dropWhile Char.isDigit)
    else .error .malformed

/-- A whole part has no zero in front of another digit. -/
def readWhole (atEnd : Fault) : Reader (List Char)
  | '0' :: c :: rest => if c.isDigit then .error .malformed else .ok (['0'], c :: rest)
  | text => readDigits atEnd text

def readFraction (atEnd : Fault) : Reader (Option (List Char))
  | '.' :: rest => do
    let (digits, rest) ← readDigits atEnd rest
    return (some digits, rest)
  | rest => .ok (none, rest)

/-- The digits of an exponent, after its sign. -/
def readExponentDigits (atEnd : Fault) (negative : Bool) : Reader (Option Int) := fun text => do
  let (digits, rest) ← readDigits atEnd text
  let n : Int := Nat.ofDigitChars 10 digits 0
  return (some (if negative then -n else n), rest)

/-- The sign and digits of an exponent, after its mark. -/
def readSignedExponent (atEnd : Fault) : Reader (Option Int)
  | '+' :: rest => readExponentDigits atEnd false rest
  | '-' :: rest => readExponentDigits atEnd true rest
  | rest => readExponentDigits atEnd false rest

def readExponent (atEnd : Fault) : Reader (Option Int)
  | 'e' :: rest => readSignedExponent atEnd rest
  | 'E' :: rest => readSignedExponent atEnd rest
  | rest => .ok (none, rest)

/-- A numeral after its sign. -/
def readNumeral (atEnd : Fault) (negative : Bool) : Reader Numeral := fun text => do
  let (whole, rest) ← readWhole atEnd text
  let (fraction, rest) ← readFraction atEnd rest
  let (exponent, rest) ← readExponent atEnd rest
  return (⟨negative, whole, fraction, exponent⟩, rest)

end AnnotatedToC.Json
