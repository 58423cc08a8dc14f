import AnnotatedToC.Double

/-!
# JSON values

Objects are lists of members in the order of the text, repeated names included: which of them matter
is for the reader of the object to say. Integers and other numbers are kept apart, since a count is
only read from an integer.
-/
namespace AnnotatedToC

inductive Json
  | null
  | bool (b : Bool)
  | int (n : Int)
  | double (d : Double)
  | str (s : String)
  | arr (elements : List Json)
  | obj (members : List (String × Json))
  deriving Inhabited

namespace Json

def str? : Json → Option String
  | .str s => some s
  | _ => none

def bool? : Json → Option Bool
  | .bool b => some b
  | _ => none

def int? : Json → Option Int
  | .int n => some n
  | _ => none

/-- Any number counts as a double. -/
def double? : Json → Option Double
  | .int n => some (Double.ofInt n)
  | .double d => some d
  | _ => none

def arr? : Json → Option (List Json)
  | .arr elements => some elements
  | _ => none

/-- A natural number below a bound. -/
def below? (bound : Nat) (j : Json) : Option Nat :=
  match j with
  | .int (.ofNat n) => if n < bound then some n else none
  | _ => none

def uint32? (j : Json) : Option UInt32 :=
  (j.below? UInt32.size).map UInt32.ofNat

def int64? (j : Json) : Option Int64 :=
  match j with
  | .int n => if Int64.minValue.toInt ≤ n ∧ n ≤ Int64.maxValue.toInt then some (Int64.ofInt n) else none
  | _ => none

/-- The list of all elements, each read in the same way. -/
def list? {α : Type} (f : Json → Option α) (j : Json) : Option (List α) :=
  j.arr?.bind (·.mapM f)

/-- A value or null. -/
def nullable? {α : Type} (f : Json → Option α) : Json → Option (Option α)
  | .null => some none
  | j => (f j).map some

/-- The value of a double. There is none for what is not finite. -/
def ofDouble (d : Double) : Json :=
  if d.isFinite then .double d else .null

def ofOption {α : Type} (f : α → Json) : Option α → Json
  | none => .null
  | some a => f a

end Json

end AnnotatedToC
