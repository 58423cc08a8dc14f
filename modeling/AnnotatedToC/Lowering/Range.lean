import AnnotatedToC.Lowering.Expr

/-!
# Ranges

A range is given by its stop, its start and stop, or its start, stop and step. It starts at 0 and goes
up by 1 unless it says otherwise.
-/
namespace AnnotatedToC

open Source (LineNumber)

/-- The bounds of a loop that counts up from `start` while it is below `stop`. -/
structure RangeBounds where
  start : Target.Expr
  stop : Target.Expr
  step : Target.Expr

/-- The arguments of a range by their meaning. -/
structure RangeArgs where
  start : Option Source.Expr
  stop : Source.Expr
  step : Option Source.Expr

/-- The arguments of the call of `range` that is iterated over. -/
def rangeCall (line : LineNumber) : Source.Expr → Lowered (List Source.Expr)
  | .call _ func args =>
    if func = "range" then .ok args
    else .error ⟨.unsupportedConstruct (.iterationOverCall func), line⟩
  | iter => .error ⟨.unsupportedConstruct (.iterationOver iter.construct), line⟩

def RangeArgs.ofList (line : LineNumber) : List Source.Expr → Lowered RangeArgs
  | [stop] => .ok ⟨none, stop, none⟩
  | [start, stop] => .ok ⟨some start, stop, none⟩
  | [start, stop, step] => .ok ⟨some start, stop, some step⟩
  | args => .error ⟨.unsupportedConstruct (.rangeArguments args.length), line⟩

/-- A constant bound is an integer. -/
def checkBound (line : LineNumber) : Source.Expr → Lowered Unit
  | .constant _ (.int _) => .ok ()
  | .constant _ value => .error ⟨.unknownRangeForm (.notInteger value), line⟩
  | _ => .ok ()

/-- A constant step is positive. -/
def checkStep (line : LineNumber) : Option Source.Expr → Lowered Unit
  | some (.constant _ (.int step)) =>
    if 0 < step then .ok () else .error ⟨.unknownRangeForm (.stepNotPositive step), line⟩
  | _ => .ok ()

/-- A bound, or the integer that it usually is. -/
def lowerBound (default : Int64) : Option Source.Expr → Lowered Target.Expr
  | some e => lowerExpr none e
  | none => .ok (.literal (.int default))

/-- The bounds of the range that the loop at `line` iterates over. -/
def lowerRange (line : LineNumber) (iter : Source.Expr) : Lowered RangeBounds := do
  let args ← rangeCall line iter
  let range ← RangeArgs.ofList line args
  args.forM (checkBound line)
  checkStep line range.step
  return ⟨← lowerBound 0 range.start, ← lowerExpr none range.stop, ← lowerBound 1 range.step⟩

end AnnotatedToC
