import AnnotatedToC.Json.Fields
import AnnotatedToC.Target.Encode

/-!
# C functions from JSON

The inverse of the encoding, which also takes fields in any order and in any company, an absent field
for null, and a record as the list of all its fields.
-/
namespace AnnotatedToC.Target

open Json (Fields)

def Ty.ofJson? : Json → Option Ty
  | .obj [("PointerTo", j)] => (Ty.ofJson? j).map .pointer
  | j =>
    match Json.unitCase? .strict j with
    | some "Int32" => some .int
    | some "Double" => some .double
    | some "Void" => some .void
    | some "Unsupported" => some .tuple
    | _ => none

def Operator.ofJson? (j : Json) : Option Operator := do
  let tag ← Json.unitCase? .strict j
  [.add, .sub, .mul, .div, .lt].find? fun op : Operator => op.tag == tag

def Literal.ofJson? : Json → Option Literal
  | .obj [("Int", j)] => j.int64?.map .int
  | .obj [("Float", j)] => j.double?.map .float
  | .obj [("Bool", j)] => j.bool?.map .bool
  | .obj [("Str", j)] => j.str?.map .str
  | _ => none

/-- A member of an expression: the value, the expression and the expressions that it may be. -/
structure ExprField where
  json : Json
  expr : Option Expr
  exprs : Option (List Expr)

def ExprField.raw (fields : Fields ExprField) : Fields Json :=
  fields.map fun (name, field) => (name, field.json)

/-- The expression of a case with named fields. -/
def Expr.ofFields? (tag : String) (fields : Fields ExprField) : Option Expr :=
  let raw := ExprField.raw fields
  match tag with
  | "BinaryExpr" => do
    return .binary (← raw.required "op" Operator.ofJson?) (← fields.required "left" (·.expr))
      (← fields.required "right" (·.expr))
  | "IndexExpr" => do
    return .index (← fields.required "base" (·.expr)) (← fields.required "index" (·.expr))
  | "CallExpr" => do
    return .call (← raw.required "callee" Json.str?) (← fields.required "args" (·.exprs))
  | "TernaryExpr" => do
    return .ternary (← fields.required "cond" (·.expr)) (← fields.required "then_expr" (·.expr))
      (← fields.required "else_expr" (·.expr))
  | "CompoundLiteralExpr" => do
    return .compound (← raw.required "ty" Ty.ofJson?) (← fields.required "elements" (·.exprs))
  | _ => none

mutual

def Expr.ofJson? : Json → Option Expr
  | .obj [("Identifier", j)] => j.str?.map .identifier
  | .obj [("Literal", j)] => (Literal.ofJson? j).map .literal
  | .obj [(tag, j)] => exprOfCase? tag j
  | _ => none

def exprOfCase? (tag : String) : Json → Option Expr
  | .obj members => Expr.ofFields? tag (exprFields members)
  | _ => none

def exprListOfJson? : Json → Option (List Expr)
  | .arr elements => exprsOfJson? elements
  | _ => none

def exprsOfJson? : List Json → Option (List Expr)
  | [] => some []
  | j :: js => do return (← Expr.ofJson? j) :: (← exprsOfJson? js)

def exprFields : List (String × Json) → Fields ExprField
  | [] => []
  | (name, j) :: members => (name, ⟨j, Expr.ofJson? j, exprListOfJson? j⟩) :: exprFields members

end

def Declaration.ofJson? (j : Json) : Option Declaration := do
  let fields ← j.allFields? ["name", "ty", "init"]
  return ⟨← fields.required "name" Json.str?, ← fields.required "ty" Ty.ofJson?,
    ← fields.optional "init" (Json.nullable? Expr.ofJson?) none⟩

def Update.ofJson? (j : Json) : Option Update := do
  let fields ← j.allFields? ["operator", "target", "value"]
  return ⟨← fields.required "operator" Operator.ofJson?, ← fields.required "target" Expr.ofJson?,
    ← fields.required "value" Expr.ofJson?⟩

/-- A member of a statement: the value and the statements that it may be. -/
structure StmtField where
  json : Json
  stmts : Option (List Stmt)

def StmtField.raw (fields : Fields StmtField) : Fields Json :=
  fields.map fun (name, field) => (name, field.json)

/-- A branch that may be absent. -/
def StmtField.branch? (field : StmtField) : Option (Option (List Stmt)) :=
  match field.json with
  | .null => some none
  | _ => field.stmts.map some

def Stmt.conditionalOfFields? (fields : Fields StmtField) : Option Stmt := do
  return .conditional (← (StmtField.raw fields).required "cond" Expr.ofJson?)
    (← fields.required "then_branch" (·.stmts)) (← fields.optional "else_branch" (·.branch?) none)

def Stmt.loopOfFields? (fields : Fields StmtField) : Option Stmt := do
  let raw := StmtField.raw fields
  return .loop (← raw.required "init" Declaration.ofJson?) (← raw.required "cond" Expr.ofJson?)
    (← raw.required "next" Update.ofJson?) (← fields.required "body" (·.stmts))

mutual

def Stmt.ofJson? : Json → Option Stmt
  | .obj [("Declaration", j)] => (Declaration.ofJson? j).map .declaration
  | .obj [("Assignment", j)] => (Update.ofJson? j).map .update
  | .obj [("Conditional", j)] => conditionalOfJson? j
  | .obj [("ForLoop", j)] => loopOfJson? j
  | .obj [("Return", j)] => (Json.nullable? Expr.ofJson? j).map .ret
  | _ => none

def conditionalOfJson? : Json → Option Stmt
  | .obj members => Stmt.conditionalOfFields? (stmtFields members)
  | .arr elements =>
    if elements.length = 3 then
      Stmt.conditionalOfFields?
        (["cond", "then_branch", "else_branch"].zip (stmtElements elements))
    else none
  | _ => none

def loopOfJson? : Json → Option Stmt
  | .obj members => Stmt.loopOfFields? (stmtFields members)
  | .arr elements =>
    if elements.length = 4 then
      Stmt.loopOfFields? (["init", "cond", "next", "body"].zip (stmtElements elements))
    else none
  | _ => none

def stmtListOfJson? : Json → Option (List Stmt)
  | .arr elements => stmtsOfJson? elements
  | _ => none

def stmtsOfJson? : List Json → Option (List Stmt)
  | [] => some []
  | j :: js => do return (← Stmt.ofJson? j) :: (← stmtsOfJson? js)

def stmtElements : List Json → List StmtField
  | [] => []
  | j :: js => ⟨j, stmtListOfJson? j⟩ :: stmtElements js

def stmtFields : List (String × Json) → Fields StmtField
  | [] => []
  | (name, j) :: members => (name, ⟨j, stmtListOfJson? j⟩) :: stmtFields members

end

def Function.ofJson? (j : Json) : Option Function := do
  let fields ← j.allFields? ["name", "return_type", "params", "body"]
  return ⟨← fields.required "name" Json.str?, ← fields.required "return_type" Ty.ofJson?,
    ← fields.required "params" (Json.list? Declaration.ofJson?),
    ← fields.required "body" stmtListOfJson?⟩

def Node.ofJson? : Json → Option Node
  | .obj [("Function", j)] => (Function.ofJson? j).map .function
  | .obj [("Stmt", j)] => (Stmt.ofJson? j).map .stmt
  | .obj [("Expr", j)] => (Expr.ofJson? j).map .expr
  | _ => none

end AnnotatedToC.Target
