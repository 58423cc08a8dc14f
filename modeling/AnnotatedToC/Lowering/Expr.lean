import AnnotatedToC.Lowering.Error
import AnnotatedToC.Target

/-!
# Lowering of expressions

The expected type is known where a value is returned or declared. It reaches a tuple through the
branches of a conditional expression only.
-/
namespace AnnotatedToC

open Source (LineNumber)

abbrev Lowered (α : Type) := Except LoweringError α

def lowerOperator (line : LineNumber) : Source.Operator → Lowered Target.Operator
  | .add => .ok .add
  | .sub => .ok .sub
  | .mult => .ok .mul
  | .div => .ok .div
  | op => .error ⟨.unknownOperator op, line⟩

def lowerLiteral (line : LineNumber) : Source.Literal → Lowered Target.Literal
  | .int value => .ok (.int value)
  | .float value => .ok (.float value)
  | .bool value => .ok (.bool value)
  | .str value => .ok (.str value)
  | .null => .error ⟨.unsupportedConstruct .noneLiteral, line⟩

/-- The type of a tuple: the expected one, unless it is void. -/
def tupleType (line : LineNumber) : Option Target.Ty → Lowered Target.Ty
  | some ty => if ty.isVoid then .error ⟨.missingExpectedType, line⟩ else .ok ty
  | none => .error ⟨.missingExpectedType, line⟩

mutual

def lowerExpr (expected : Option Target.Ty) : Source.Expr → Lowered Target.Expr
  | .constant line value => do return .literal (← lowerLiteral line value)
  | .name _ id => .ok (.identifier id)
  | .binary line op left right => do
    return .binary (← lowerOperator line op) (← lowerExpr none left) (← lowerExpr none right)
  | .subscript _ value index => do return .index (← lowerExpr none value) (← lowerExpr none index)
  | .call _ func args => do return .call func (← lowerExprs args)
  | .conditional _ test body orelse => do
    return .ternary (← lowerExpr none test) (← lowerExpr expected body) (← lowerExpr expected orelse)
  | .tuple line elements => do return .compound (← tupleType line expected) (← lowerExprs elements)
  | .unsupported line construct => .error ⟨.unsupportedConstruct (.node construct), line⟩

def lowerExprs : List Source.Expr → Lowered (List Target.Expr)
  | [] => .ok []
  | e :: es => do return (← lowerExpr none e) :: (← lowerExprs es)

end

end AnnotatedToC
