import AnnotatedToC.Json
import AnnotatedToC.Source

/-!
# Source modules as JSON

Every field is written, an absent one as null. A node is an object that names its case in the member
`type`; annotations and literals are objects whose only member is named for the case.
-/
namespace AnnotatedToC.Source

def ofLine (l : LineNumber) : Json := .int l.toNat

mutual

def Hint.toJson : Hint → Json
  | .name id => .obj [("name", .str id)]
  | .null => .str "null"
  | .subscript base index =>
    .obj [("subscript", .obj [("base", .str base), ("index", index.toJson)])]
  | .tuple elements => .obj [("tuple", .arr (hintsToJson elements))]

def hintsToJson : List Hint → List Json
  | [] => []
  | a :: as => a.toJson :: hintsToJson as

end

def Literal.toJson : Literal → Json
  | .int value => .obj [("int", .int value.toInt)]
  | .float value => .obj [("float", .double value)]
  | .bool value => .obj [("bool", .bool value)]
  | .str value => .obj [("str", .str value)]
  | .null => .str "none"

/-- The name of an operator in a module file. -/
def Operator.tag : Operator → String
  | .add => "Add"
  | .sub => "Sub"
  | .mult => "Mult"
  | .div => "Div"
  | .floorDiv => "FloorDiv"
  | .mod => "Mod"
  | .pow => "Pow"
  | .matMult => "MatMult"
  | .leftShift => "LShift"
  | .rightShift => "RShift"
  | .bitOr => "BitOr"
  | .bitXor => "BitXor"
  | .bitAnd => "BitAnd"

def Operator.toJson (op : Operator) : Json := .str op.tag

/-- A node: its line, its case, its fields. -/
def node (line : LineNumber) (tag : String) (fields : List (String × Json)) : Json :=
  .obj (("line", ofLine line) :: ("type", .str tag) :: fields)

mutual

def Expr.toJson : Expr → Json
  | .constant l value => node l "Constant" [("value", value.toJson)]
  | .name l id => node l "Name" [("id", .str id)]
  | .binary l op left right =>
    node l "BinOp" [("op", op.toJson), ("left", left.toJson), ("right", right.toJson)]
  | .subscript l value index =>
    node l "Subscript" [("value", value.toJson), ("index", index.toJson)]
  | .call l func args => node l "Call" [("func", .str func), ("args", .arr (exprsToJson args))]
  | .conditional l test body orelse =>
    node l "IfExp" [("test", test.toJson), ("body", body.toJson), ("orelse", orelse.toJson)]
  | .tuple l elements => node l "Tuple" [("elts", .arr (exprsToJson elements))]
  | .unsupported l construct => node l "Unsupported" [("construct", .str construct)]

def exprsToJson : List Expr → List Json
  | [] => []
  | e :: es => e.toJson :: exprsToJson es

end

mutual

def Stmt.toJson : Stmt → Json
  | .ret l value => node l "Return" [("value", .ofOption Expr.toJson value)]
  | .annotated l target hint value =>
    node l "AnnAssign" [("target", .str target), ("annotation", hint.toJson),
      ("value", .ofOption Expr.toJson value)]
  | .augmented l target op value =>
    node l "AugAssign" [("target", target.toJson), ("op", op.toJson), ("value", value.toJson)]
  | .assign l targets value =>
    node l "Assign" [("targets", .arr (targets.map .str)), ("value", value.toJson)]
  | .branch l test body orelse =>
    node l "If" [("test", test.toJson), ("body", .arr (stmtsToJson body)),
      ("orelse", .arr (stmtsToJson orelse))]
  | .loop l target iter body orelse =>
    node l "For" [("target", .str target), ("iter", iter.toJson), ("body", .arr (stmtsToJson body)),
      ("orelse", .arr (stmtsToJson orelse))]
  | .unsupported l construct => node l "Unsupported" [("construct", .str construct)]

def stmtsToJson : List Stmt → List Json
  | [] => []
  | s :: ss => s.toJson :: stmtsToJson ss

end

def Param.toJson (p : Param) : Json :=
  .obj [("name", .str p.name), ("annotation", .ofOption Hint.toJson p.hint)]

def Function.members (f : Function) : List (String × Json) :=
  [("name", .str f.name), ("params", .arr (f.params.map Param.toJson)),
    ("returns", .ofOption Hint.toJson f.returns), ("body", .arr (stmtsToJson f.body)),
    ("line", ofLine f.line)]

def Function.toJson (f : Function) : Json := .obj f.members

def Item.toJson : Item → Json
  | .function f => .obj (("type", .str "FunctionDef") :: f.members)
  | .other construct line =>
    .obj [("type", .str "Other"), ("construct", .str construct), ("line", ofLine line)]

def Module.toJson (m : Module) : Json :=
  .obj [("filename", .ofOption .str m.filename), ("body", .arr (m.body.map Item.toJson))]

end AnnotatedToC.Source
