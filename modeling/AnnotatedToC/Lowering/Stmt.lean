import AnnotatedToC.Lowering.Hint
import AnnotatedToC.Lowering.Range

/-!
# Lowering of statements and functions

A declaration is an annotated assignment, and the value of a declaration or a return is expected to be
of the declared or returned type.
-/
namespace AnnotatedToC

open Source (LineNumber)

def lowerHint (line : LineNumber) (a : Source.Hint) : Lowered Target.Ty :=
  a.resolve.mapError (UnsupportedHint.atLine line)

/-- A value that may be absent. -/
def lowerValue (expected : Option Target.Ty) : Option Source.Expr → Lowered (Option Target.Expr)
  | none => .ok none
  | some e => do return some (← lowerExpr expected e)

/-- The value of a return. Returning the none literal is returning nothing. -/
def lowerReturn (expected : Option Target.Ty) : Option Source.Expr → Lowered (Option Target.Expr)
  | some (.constant _ .null) => .ok none
  | value => lowerValue expected value

/-- What can be updated: a variable or an element. -/
def checkUpdated (line : LineNumber) : Source.Expr → Lowered Unit
  | .name _ _ | .subscript _ _ _ => .ok ()
  | e => .error ⟨.unsupportedConstruct (.augmentedTarget e.construct), line⟩

/-- The loop that counts through the bounds. -/
def countingLoop (counter : String) (bounds : RangeBounds) (body : List Target.Stmt) : Target.Stmt :=
  .loop ⟨counter, .int, some bounds.start⟩ (.binary .lt (.identifier counter) bounds.stop)
    ⟨.add, .identifier counter, bounds.step⟩ body

mutual

/-- The statement in a function of the given return type. -/
def lowerStmt (returnType : Option Target.Ty) : Source.Stmt → Lowered Target.Stmt
  | .ret _ value => do return .ret (← lowerReturn returnType value)
  | .annotated line target hint value => do
    let ty ← lowerHint line hint
    return .declaration ⟨target, ty, ← lowerValue (some ty) value⟩
  | .augmented line target op value => do
    checkUpdated line target
    return .update ⟨← lowerOperator line op, ← lowerExpr none target, ← lowerExpr none value⟩
  | .assign line targets _ => .error ⟨.missingHint (.assignment targets), line⟩
  | .branch _ test body orelse => do
    return .conditional (← lowerExpr none test) (← lowerBlock returnType body)
      (← lowerElse returnType orelse)
  | .loop line target iter body orelse => do
    if !orelse.isEmpty then throw ⟨.unsupportedConstruct .loopElse, line⟩
    let bounds ← lowerRange line iter
    return countingLoop target bounds (← lowerBlock returnType body)
  | .unsupported line construct => .error ⟨.unsupportedConstruct (.node construct), line⟩

def lowerBlock (returnType : Option Target.Ty) : List Source.Stmt → Lowered (List Target.Stmt)
  | [] => .ok []
  | s :: ss => do return (← lowerStmt returnType s) :: (← lowerBlock returnType ss)

/-- An empty branch is an absent one. -/
def lowerElse (returnType : Option Target.Ty) :
    List Source.Stmt → Lowered (Option (List Target.Stmt))
  | [] => .ok none
  | s :: ss => do return some ((← lowerStmt returnType s) :: (← lowerBlock returnType ss))

end

def lowerParam (line : LineNumber) (p : Source.Param) : Lowered Target.Declaration :=
  match p.hint with
  | none => .error ⟨.missingHint (.parameter p.name), line⟩
  | some a => do return ⟨p.name, ← lowerHint line a, none⟩

/-- A function without a return annotation returns nothing. -/
def lowerReturnType (line : LineNumber) : Option Source.Hint → Lowered Target.Ty
  | none => .ok .void
  | some a => lowerHint line a

def lowerFunction (f : Source.Function) : Lowered Target.Function := do
  let returnType ← lowerReturnType f.line f.returns
  let params ← f.params.mapM (lowerParam f.line)
  let body ← lowerBlock (some returnType) f.body
  return ⟨f.name, returnType, params, body⟩

end AnnotatedToC
