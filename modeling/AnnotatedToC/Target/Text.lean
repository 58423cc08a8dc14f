import AnnotatedToC.Decimal.Style
import AnnotatedToC.Target

/-!
# C text of types, literals and expressions

Operands that are not atoms stand in parentheses, so that no order of precedence is needed.
-/
namespace AnnotatedToC.Target

namespace Ty

def text : Ty → String
  | .int => "int"
  | .double => "double"
  | .void => "void"
  | .pointer element => if element.isPointer then element.text ++ "*" else element.text ++ " *"
  | .tuple => "TUPLE"

/-- The type in front of a name that it declares. -/
def declarator (ty : Ty) (name : String) : String :=
  if ty.isPointer then ty.text ++ name else ty.text ++ " " ++ name

end Ty

def Operator.symbol : Operator → String
  | .add => "+"
  | .sub => "-"
  | .mul => "*"
  | .div => "/"
  | .lt => "<"

/-- A double always has a point or an exponent, or one of the names that C gives to what is not
finite. -/
def doubleText (d : Double) : String :=
  if d.isNaN then "NAN"
  else if d.isFinite then String.ofList (NumberStyle.literal.text d)
  else if d.isNegative then "-INFINITY"
  else "INFINITY"

/-- Three octal digits are the most that an escape takes, so no character after them can join in. -/
def octalEscape (n : Nat) : List Char :=
  ['\\', Nat.digitChar (n / 64), Nat.digitChar (n / 8 % 8), Nat.digitChar (n % 8)]

def stringChar (c : Char) : List Char :=
  match c with
  | '"' => ['\\', '"']
  | '\\' => ['\\', '\\']
  | '\n' => ['\\', 'n']
  | '\t' => ['\\', 't']
  | '\r' => ['\\', 'r']
  | c => if c.toNat < 0x20 ∨ c.toNat = 0x7F then octalEscape c.toNat else [c]

def stringText (s : String) : String :=
  String.ofList ('"' :: (s.toList.flatMap stringChar ++ ['"']))

def Literal.text : Literal → String
  | .int value => String.ofList (Decimal.intText value.toInt)
  | .float value => doubleText value
  | .bool true => "1"
  | .bool false => "0"
  | .str value => stringText value

/-- The text of an operand, given its text as an expression. -/
def Expr.operand (e : Expr) (text : String) : String :=
  if e.isAtom then text else "(" ++ text ++ ")"

mutual

def Expr.text : Expr → String
  | .identifier name => name
  | .literal value => value.text
  | .binary op left right =>
    left.operand left.text ++ " " ++ op.symbol ++ " " ++ right.operand right.text
  | .index base index => base.operand base.text ++ "[" ++ index.text ++ "]"
  | .call callee args => callee ++ "(" ++ ", ".intercalate (texts args) ++ ")"
  | .ternary cond thenExpr elseExpr =>
    cond.operand cond.text ++ " ? " ++ thenExpr.operand thenExpr.text ++ " : " ++
      elseExpr.operand elseExpr.text
  | .compound ty elements =>
    "(" ++ ty.text ++ ")\x7b" ++ ", ".intercalate (texts elements) ++ "\x7d"

def texts : List Expr → List String
  | [] => []
  | e :: es => e.text :: texts es

end

def Declaration.text (d : Declaration) : String :=
  match d.init with
  | none => d.ty.declarator d.name
  | some init => d.ty.declarator d.name ++ " = " ++ init.text

def Update.text (u : Update) : String :=
  u.target.text ++ " " ++ u.operator.symbol ++ "= " ++ u.value.text

/-- The line in front of a function's body. A parameter's initial value is not written. -/
def Function.header (f : Function) : String :=
  let params := match f.params with
    | [] => "void"
    | params => ", ".intercalate (params.map fun p => p.ty.declarator p.name)
  f.returnType.declarator f.name ++ "(" ++ params ++ ")"

end AnnotatedToC.Target
