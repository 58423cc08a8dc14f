import AnnotatedToC.Double

/-!
# C functions

The part of C that annotated functions are compiled to. Nothing here is checked: every tree can be
written down.
-/
namespace AnnotatedToC.Target

/-- Types of C, and a mark for tuples, which have no type of their own. -/
inductive Ty
  | int
  | double
  | void
  | pointer (element : Ty)
  | tuple
  deriving DecidableEq, Repr

namespace Ty

def isVoid : Ty → Bool
  | .void => true
  | _ => false

def isPointer : Ty → Bool
  | .pointer _ => true
  | _ => false

def isScalar : Ty → Bool
  | .int | .double => true
  | _ => false

def element? : Ty → Option Ty
  | .pointer element => some element
  | _ => none

end Ty

inductive Operator
  | add
  | sub
  | mul
  | div
  | lt
  deriving DecidableEq, Repr

inductive Literal
  | int (value : Int64)
  | float (value : Double)
  | bool (value : Bool)
  | str (value : String)
  deriving DecidableEq

inductive Expr
  | identifier (name : String)
  | literal (value : Literal)
  | binary (op : Operator) (left right : Expr)
  | index (base index : Expr)
  | call (callee : String) (args : List Expr)
  | ternary (cond thenExpr elseExpr : Expr)
  | compound (ty : Ty) (elements : List Expr)

/-- An atom needs no parentheses as an operand. -/
def Expr.isAtom : Expr → Bool
  | .identifier _ | .literal _ | .index _ _ | .call _ _ => true
  | _ => false

structure Declaration where
  name : String
  ty : Ty
  init : Option Expr

/-- The compound assignment `target op= value`. -/
structure Update where
  operator : Operator
  target : Expr
  value : Expr

inductive Stmt
  | declaration (d : Declaration)
  | update (u : Update)
  | conditional (cond : Expr) (thenBranch : List Stmt) (elseBranch : Option (List Stmt))
  | loop (init : Declaration) (cond : Expr) (next : Update) (body : List Stmt)
  | ret (value : Option Expr)

structure Function where
  name : String
  returnType : Ty
  params : List Declaration
  body : List Stmt

inductive Node
  | function (f : Function)
  | stmt (s : Stmt)
  | expr (e : Expr)

end AnnotatedToC.Target
