import AnnotatedToC.Json
import AnnotatedToC.Target

/-!
# C functions as JSON

A value of several cases is an object whose only member is named for its case, or the name alone if
the case has no fields. Every field is written, an absent one as null, and so is a double that is no
number.
-/
namespace AnnotatedToC.Target

def Ty.toJson : Ty → Json
  | .int => .str "Int32"
  | .double => .str "Double"
  | .void => .str "Void"
  | .pointer element => .obj [("PointerTo", element.toJson)]
  | .tuple => .str "Unsupported"

def Operator.tag : Operator → String
  | .add => "Add"
  | .sub => "Sub"
  | .mul => "Mul"
  | .div => "Div"
  | .lt => "Lt"

def Operator.toJson (op : Operator) : Json := .str op.tag

def Literal.toJson : Literal → Json
  | .int value => .obj [("Int", .int value.toInt)]
  | .float value => .obj [("Float", .ofDouble value)]
  | .bool value => .obj [("Bool", .bool value)]
  | .str value => .obj [("Str", .str value)]

mutual

def Expr.toJson : Expr → Json
  | .identifier name => .obj [("Identifier", .str name)]
  | .literal value => .obj [("Literal", value.toJson)]
  | .binary op left right =>
    .obj [("BinaryExpr", .obj [("op", op.toJson), ("left", left.toJson), ("right", right.toJson)])]
  | .index base index =>
    .obj [("IndexExpr", .obj [("base", base.toJson), ("index", index.toJson)])]
  | .call callee args =>
    .obj [("CallExpr", .obj [("callee", .str callee), ("args", .arr (exprsToJson args))])]
  | .ternary cond thenExpr elseExpr =>
    .obj [("TernaryExpr", .obj [("cond", cond.toJson), ("then_expr", thenExpr.toJson),
      ("else_expr", elseExpr.toJson)])]
  | .compound ty elements =>
    .obj [("CompoundLiteralExpr",
      .obj [("ty", ty.toJson), ("elements", .arr (exprsToJson elements))])]

def exprsToJson : List Expr → List Json
  | [] => []
  | e :: es => e.toJson :: exprsToJson es

end

def Declaration.toJson (d : Declaration) : Json :=
  .obj [("name", .str d.name), ("ty", d.ty.toJson), ("init", .ofOption Expr.toJson d.init)]

def Update.toJson (u : Update) : Json :=
  .obj [("operator", u.operator.toJson), ("target", u.target.toJson), ("value", u.value.toJson)]

mutual

def Stmt.toJson : Stmt → Json
  | .declaration d => .obj [("Declaration", d.toJson)]
  | .update u => .obj [("Assignment", u.toJson)]
  | .conditional cond thenBranch elseBranch =>
    .obj [("Conditional", .obj [("cond", cond.toJson), ("then_branch", .arr (stmtsToJson thenBranch)),
      ("else_branch", elseToJson elseBranch)])]
  | .loop init cond next body =>
    .obj [("ForLoop", .obj [("init", init.toJson), ("cond", cond.toJson), ("next", next.toJson),
      ("body", .arr (stmtsToJson body))])]
  | .ret value => .obj [("Return", .ofOption Expr.toJson value)]

def elseToJson : Option (List Stmt) → Json
  | none => .null
  | some body => .arr (stmtsToJson body)

def stmtsToJson : List Stmt → List Json
  | [] => []
  | s :: ss => s.toJson :: stmtsToJson ss

end

def Function.toJson (f : Function) : Json :=
  .obj [("name", .str f.name), ("return_type", f.returnType.toJson),
    ("params", .arr (f.params.map Declaration.toJson)), ("body", .arr (stmtsToJson f.body))]

def Node.toJson : Node → Json
  | .function f => .obj [("Function", f.toJson)]
  | .stmt s => .obj [("Stmt", s.toJson)]
  | .expr e => .obj [("Expr", e.toJson)]

end AnnotatedToC.Target
