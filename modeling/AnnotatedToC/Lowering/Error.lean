import AnnotatedToC.Source.Display

/-!
# What cannot be lowered

An error has a cause and the line of the node to blame.
-/
namespace AnnotatedToC

open Source (Hint Literal LineNumber Operator)

/-- Why an annotation has no type, as far as it is told: the text of the annotation. -/
structure UnsupportedHint where
  text : String
  deriving DecidableEq

namespace UnsupportedHint

def of (a : Hint) : UnsupportedHint := ⟨a.display⟩

def message (e : UnsupportedHint) : String := "unsupported type annotation `" ++ e.text ++ "`"

end UnsupportedHint

/-- What lacks an annotation. -/
inductive Unannotated
  | parameter (name : String)
  | assignment (targets : List String)
  deriving DecidableEq

def Unannotated.display : Unannotated → String
  | .parameter name => "parameter `" ++ name ++ "`"
  | .assignment targets => "assignment to `" ++ "`, `".intercalate targets ++ "`"

/-- What is wrong with the arguments of a range. -/
inductive RangeFault
  | notInteger (bound : Literal)
  | stepNotPositive (step : Int64)
  deriving DecidableEq

def RangeFault.display : RangeFault → String
  | .notInteger bound => "bound `" ++ bound.display ++ "` is not an integer"
  | .stepNotPositive step =>
    "step must be positive, got " ++ String.ofList (Decimal.intText step.toInt)

/-- A construct that has no counterpart. -/
inductive Construct
  | node (name : String)
  | noneLiteral
  | loopElse
  | augmentedTarget (construct : String)
  | iterationOver (construct : String)
  | iterationOverCall (func : String)
  | rangeArguments (count : Nat)
  deriving DecidableEq

def Construct.display : Construct → String
  | .node name => name
  | .noneLiteral => "None literal"
  | .loopElse => "for-else"
  | .augmentedTarget construct => "augmented assignment to " ++ construct
  | .iterationOver construct => "iteration over " ++ construct
  | .iterationOverCall func => "iteration over `" ++ func ++ "(...)`"
  | .rangeArguments count =>
    "range call with " ++ String.ofList (Nat.toDigits 10 count) ++ " arguments"

inductive Cause
  | unsupportedHint (hint : UnsupportedHint)
  | missingHint (subject : Unannotated)
  | unknownOperator (op : Operator)
  | unknownRangeForm (fault : RangeFault)
  | missingExpectedType
  | unsupportedConstruct (construct : Construct)

/-- Whether the program breaks a rule of the subset or leaves it. -/
inductive ErrorClass
  | semanticViolation
  | unsupportedConstruct
  deriving DecidableEq

structure LoweringError where
  cause : Cause
  line : LineNumber

/-- The error at the line of what is annotated. -/
def UnsupportedHint.atLine (line : LineNumber) (e : UnsupportedHint) : LoweringError :=
  ⟨.unsupportedHint e, line⟩

namespace LoweringError

def errorClass (e : LoweringError) : ErrorClass :=
  match e.cause with
  | .unsupportedConstruct _ => .unsupportedConstruct
  | _ => .semanticViolation

def message (e : LoweringError) : String :=
  let place := " at line " ++ String.ofList (Nat.toDigits 10 e.line.toNat)
  match e.cause with
  | .unsupportedHint hint => hint.message ++ place
  | .missingHint subject => subject.display ++ place ++ " must be type-annotated"
  | .unknownOperator op => "unsupported binary operator `" ++ op.symbol ++ "`" ++ place
  | .unknownRangeForm fault => "unsupported range form" ++ place ++ ": " ++ fault.display
  | .missingExpectedType => "tuple literal" ++ place ++ " requires a known target type"
  | .unsupportedConstruct construct => "unsupported construct `" ++ construct.display ++ "`" ++ place

end LoweringError

end AnnotatedToC
