import AnnotatedToC.Double

/-!
# Source modules

Functions in a numeric subset of Python, as a front end gives them after parsing. Whatever the subset
does not model arrives as an unsupported node that carries the name of its construct. Expressions,
statements and functions know their line.
-/
namespace AnnotatedToC.Source

abbrev LineNumber := UInt32

/-- A type annotation as it is written. -/
inductive Hint
  | name (id : String)
  | null
  | subscript (base : String) (index : Hint)
  | tuple (elements : List Hint)

inductive Literal
  | int (value : Int64)
  | float (value : Double)
  | bool (value : Bool)
  | str (value : String)
  | null
  deriving DecidableEq

inductive Operator
  | add
  | sub
  | mult
  | div
  | floorDiv
  | mod
  | pow
  | matMult
  | leftShift
  | rightShift
  | bitOr
  | bitXor
  | bitAnd
  deriving DecidableEq, Repr

inductive Expr
  | constant (line : LineNumber) (value : Literal)
  | name (line : LineNumber) (id : String)
  | binary (line : LineNumber) (op : Operator) (left right : Expr)
  | subscript (line : LineNumber) (value index : Expr)
  | call (line : LineNumber) (func : String) (args : List Expr)
  | conditional (line : LineNumber) (test body orelse : Expr)
  | tuple (line : LineNumber) (elements : List Expr)
  | unsupported (line : LineNumber) (construct : String)

inductive Stmt
  | ret (line : LineNumber) (value : Option Expr)
  | annotated (line : LineNumber) (target : String) (hint : Hint) (value : Option Expr)
  | augmented (line : LineNumber) (target : Expr) (op : Operator) (value : Expr)
  | assign (line : LineNumber) (targets : List String) (value : Expr)
  | branch (line : LineNumber) (test : Expr) (body orelse : List Stmt)
  | loop (line : LineNumber) (target : String) (iter : Expr) (body orelse : List Stmt)
  | unsupported (line : LineNumber) (construct : String)

structure Param where
  name : String
  hint : Option Hint

structure Function where
  name : String
  params : List Param
  returns : Option Hint
  body : List Stmt
  line : LineNumber

/-- A top-level item. Only functions are compiled. -/
inductive Item
  | function (f : Function)
  | other (construct : String) (line : LineNumber)

structure Module where
  filename : Option String
  body : List Item

def Item.function? : Item → Option Function
  | .function f => some f
  | .other _ _ => none

def Module.functions (m : Module) : List Function := m.body.filterMap Item.function?

namespace Expr

def line : Expr → LineNumber
  | .constant l _ | .name l _ | .binary l _ _ _ | .subscript l _ _ | .call l _ _
  | .conditional l _ _ _ | .tuple l _ | .unsupported l _ => l

def withLine (l : LineNumber) : Expr → Expr
  | .constant _ value => .constant l value
  | .name _ id => .name l id
  | .binary _ op left right => .binary l op left right
  | .subscript _ value index => .subscript l value index
  | .call _ func args => .call l func args
  | .conditional _ test body orelse => .conditional l test body orelse
  | .tuple _ elements => .tuple l elements
  | .unsupported _ construct => .unsupported l construct

/-- The name that a message gives to the node. -/
def construct : Expr → String
  | .constant _ _ => "Constant"
  | .name _ _ => "Name"
  | .binary _ _ _ _ => "BinOp"
  | .subscript _ _ _ => "Subscript"
  | .call _ _ _ => "Call"
  | .conditional _ _ _ _ => "IfExp"
  | .tuple _ _ => "Tuple"
  | .unsupported _ construct => construct

end Expr

namespace Stmt

def line : Stmt → LineNumber
  | .ret l _ | .annotated l _ _ _ | .augmented l _ _ _ | .assign l _ _ | .branch l _ _ _
  | .loop l _ _ _ _ | .unsupported l _ => l

def withLine (l : LineNumber) : Stmt → Stmt
  | .ret _ value => .ret l value
  | .annotated _ target hint value => .annotated l target hint value
  | .augmented _ target op value => .augmented l target op value
  | .assign _ targets value => .assign l targets value
  | .branch _ test body orelse => .branch l test body orelse
  | .loop _ target iter body orelse => .loop l target iter body orelse
  | .unsupported _ construct => .unsupported l construct

/-- The name that a message gives to the node. -/
def construct : Stmt → String
  | .ret _ _ => "Return"
  | .annotated _ _ _ _ => "AnnAssign"
  | .augmented _ _ _ _ => "AugAssign"
  | .assign _ _ _ => "Assign"
  | .branch _ _ _ _ => "If"
  | .loop _ _ _ _ _ => "For"
  | .unsupported _ construct => construct

end Stmt

end AnnotatedToC.Source
