import AnnotatedToC.Json.Fields
import AnnotatedToC.Source.Encode

/-!
# Source modules from JSON

What is read is wider than what is written: fields may come in any order and in any company, those
with a usual value may be left out, records may be lists of their fields, and a node may name its case
by number. The members of an object are read in every way a case could need before the case is looked
at, so that the recursion follows the value.
-/
namespace AnnotatedToC.Source

open Json (Fields Reading)

def lineOf? (fields : Fields Json) : Option LineNumber := fields.optional "line" Json.uint32? 0

def operators : List Operator :=
  [.add, .sub, .mult, .div, .floorDiv, .mod, .pow, .matMult, .leftShift, .rightShift, .bitOr,
    .bitXor, .bitAnd]

def Operator.ofJson? (reading : Reading) (j : Json) : Option Operator := do
  let tag ← Json.unitCase? reading j
  operators.find? (·.tag == tag)

def Literal.ofJson? (reading : Reading) : Json → Option Literal
  | .obj [("int", j)] => j.int64?.map .int
  | .obj [("float", j)] => j.double?.map .float
  | .obj [("bool", j)] => j.bool?.map .bool
  | .obj [("str", j)] => j.str?.map .str
  | j => if Json.unitCase? reading j = some "none" then some .null else none

variable (reading : Reading)

mutual

def Hint.ofJson? : Json → Option Hint
  | .obj [("name", j)] => j.str?.map .name
  | .obj [("subscript", j)] => subscriptOfJson? j
  | .obj [("tuple", j)] => tupleOfJson? j
  | j => if Json.unitCase? reading j = some "null" then some .null else none

def subscriptOfJson? : Json → Option Hint
  | .obj members =>
    let fields := hintFields members
    do return .subscript (← fields.required "base" (·.1.str?)) (← fields.required "index" (·.2))
  | .arr [base, index] =>
    match reading with
    | .strict => none
    | .lenient => do return .subscript (← base.str?) (← Hint.ofJson? index)
  | _ => none

def tupleOfJson? : Json → Option Hint
  | .arr elements => (hintsOfJson? elements).map .tuple
  | _ => none

def hintsOfJson? : List Json → Option (List Hint)
  | [] => some []
  | j :: js => do return (← Hint.ofJson? j) :: (← hintsOfJson? js)

/-- Each member with the annotation that it may be. -/
def hintFields : List (String × Json) → Fields (Json × Option Hint)
  | [] => []
  | (name, j) :: members => (name, j, Hint.ofJson? j) :: hintFields members

end

/-- The case of a node: one of the given names, or its position among them. -/
def caseOf? (cases : List String) : Json → Option String
  | .str name => if name ∈ cases then some name else none
  | .int (.ofNat n) => cases[n]?
  | _ => none

def exprCases : List String :=
  ["Constant", "Name", "BinOp", "Subscript", "Call", "IfExp", "Tuple", "Unsupported"]

/-- A member of an expression: the value, the expression and the expressions that it may be. -/
structure ExprField where
  json : Json
  expr : Option Expr
  exprs : Option (List Expr)

def ExprField.raw (fields : Fields ExprField) : Fields Json :=
  fields.map fun (name, field) => (name, field.json)

/-- The expression that the fields of a node make up. -/
def Expr.ofFields? (fields : Fields ExprField) : Option Expr := do
  let raw := ExprField.raw fields
  let line ← lineOf? raw
  match ← raw.required "type" (caseOf? exprCases) with
  | "Constant" => return .constant line (← raw.required "value" (Literal.ofJson? .lenient))
  | "Name" => return .name line (← raw.required "id" Json.str?)
  | "BinOp" =>
    return .binary line (← raw.required "op" (Operator.ofJson? .lenient))
      (← fields.required "left" (·.expr)) (← fields.required "right" (·.expr))
  | "Subscript" =>
    return .subscript line (← fields.required "value" (·.expr)) (← fields.required "index" (·.expr))
  | "Call" =>
    return .call line (← raw.required "func" Json.str?) (← fields.optional "args" (·.exprs) [])
  | "IfExp" =>
    return .conditional line (← fields.required "test" (·.expr)) (← fields.required "body" (·.expr))
      (← fields.required "orelse" (·.expr))
  | "Tuple" => return .tuple line (← fields.required "elts" (·.exprs))
  | _ => return .unsupported line (← raw.required "construct" Json.str?)

mutual

def Expr.ofJson? : Json → Option Expr
  | .obj members => Expr.ofFields? (exprFields members)
  | _ => none

def exprListOfJson? : Json → Option (List Expr)
  | .arr elements => exprsOfJson? elements
  | _ => none

def exprsOfJson? : List Json → Option (List Expr)
  | [] => some []
  | j :: js => do return (← Expr.ofJson? j) :: (← exprsOfJson? js)

def exprFields : List (String × Json) → Fields ExprField
  | [] => []
  | (name, j) :: members => (name, ⟨j, Expr.ofJson? j, exprListOfJson? j⟩) :: exprFields members

end

def stmtCases : List String :=
  ["Return", "AnnAssign", "AugAssign", "Assign", "If", "For", "Unsupported"]

/-- A member of a statement: the value and the statements that it may be. -/
structure StmtField where
  json : Json
  stmts : Option (List Stmt)

def StmtField.raw (fields : Fields StmtField) : Fields Json :=
  fields.map fun (name, field) => (name, field.json)

/-- The statement that the fields of a node make up. -/
def Stmt.ofFields? (fields : Fields StmtField) : Option Stmt := do
  let raw := StmtField.raw fields
  let line ← lineOf? raw
  match ← raw.required "type" (caseOf? stmtCases) with
  | "Return" => return .ret line (← raw.optional "value" (Json.nullable? Expr.ofJson?) none)
  | "AnnAssign" =>
    return .annotated line (← raw.required "target" Json.str?)
      (← raw.required "annotation" (Hint.ofJson? .lenient))
      (← raw.optional "value" (Json.nullable? Expr.ofJson?) none)
  | "AugAssign" =>
    return .augmented line (← raw.required "target" Expr.ofJson?)
      (← raw.required "op" (Operator.ofJson? .lenient)) (← raw.required "value" Expr.ofJson?)
  | "Assign" =>
    return .assign line (← raw.required "targets" (Json.list? Json.str?))
      (← raw.required "value" Expr.ofJson?)
  | "If" =>
    return .branch line (← raw.required "test" Expr.ofJson?) (← fields.required "body" (·.stmts))
      (← fields.optional "orelse" (·.stmts) [])
  | "For" =>
    return .loop line (← raw.required "target" Json.str?) (← raw.required "iter" Expr.ofJson?)
      (← fields.required "body" (·.stmts)) (← fields.optional "orelse" (·.stmts) [])
  | _ => return .unsupported line (← raw.required "construct" Json.str?)

mutual

def Stmt.ofJson? : Json → Option Stmt
  | .obj members => Stmt.ofFields? (stmtFields members)
  | _ => none

def stmtListOfJson? : Json → Option (List Stmt)
  | .arr elements => stmtsOfJson? elements
  | _ => none

def stmtsOfJson? : List Json → Option (List Stmt)
  | [] => some []
  | j :: js => do return (← Stmt.ofJson? j) :: (← stmtsOfJson? js)

def stmtFields : List (String × Json) → Fields StmtField
  | [] => []
  | (name, j) :: members => (name, ⟨j, stmtListOfJson? j⟩) :: stmtFields members

end

def Param.ofJson? (j : Json) : Option Param := do
  let fields ← j.fields? ["name", "annotation"]
  return ⟨← fields.required "name" Json.str?,
    ← fields.optional "annotation" (Json.nullable? (Hint.ofJson? reading)) none⟩

def Function.ofFields? (fields : Fields Json) : Option Function := do
  return {
    name := ← fields.required "name" Json.str?
    params := ← fields.optional "params" (Json.list? (Param.ofJson? reading)) []
    returns := ← fields.optional "returns" (Json.nullable? (Hint.ofJson? reading)) none
    body := ← fields.optional "body" stmtListOfJson? []
    line := ← lineOf? fields }

def functionFields : List String := ["name", "params", "returns", "body", "line"]

def Function.ofJson? (j : Json) : Option Function := do
  Function.ofFields? reading (← j.fields? functionFields)

/-- An item of the given case, from the fields beside the name of the case. -/
def Item.ofFields? (tag : String) (fields : List String → Option (Fields Json)) : Option Item :=
  match tag with
  | "FunctionDef" => do return .function (← Function.ofFields? .lenient (← fields functionFields))
  | "Other" => do
    let fields ← fields ["construct", "line"]
    return .other (← fields.required "construct" Json.str?) (← lineOf? fields)
  | _ => none

/-- An object, or a list of the case and the fields of the item. -/
def Item.ofJson? : Json → Option Item
  | .obj members => do
    let tag ← Fields.required members "type" Json.str?
    Item.ofFields? tag fun _ => some members
  | .arr (tag :: elements) => do
    Item.ofFields? (← tag.str?) fun names => (Json.arr elements).fields? names
  | _ => none

def Module.ofJson? (j : Json) : Option Module := do
  let fields ← j.fields? ["filename", "body"]
  return ⟨← fields.optional "filename" (Json.nullable? Json.str?) none,
    ← fields.optional "body" (Json.list? Item.ofJson?) []⟩

end AnnotatedToC.Source
