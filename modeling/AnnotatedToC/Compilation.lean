import AnnotatedToC.Lowering.Stmt
import AnnotatedToC.Target.Lines

/-!
# Compilation of modules

Functions are compiled one by one. One that cannot be lowered leaves a diagnostic and does not
disturb the others.
-/
namespace AnnotatedToC

structure Diagnostic where
  function : String
  filename : Option String
  error : LoweringError

def Diagnostic.message (d : Diagnostic) : String :=
  let place := match d.filename with
    | none => ""
    | some filename => " of " ++ filename
  d.error.message ++ " in function `" ++ d.function ++ "`" ++ place

/-- A function of a module and what became of it. -/
structure LoweredFunction where
  source : Source.Function
  result : Except Diagnostic Target.Function

/-- A function of the file of the given name, lowered. -/
def LoweredFunction.of (filename : Option String) (f : Source.Function) : LoweredFunction where
  source := f
  result := match lowerFunction f with
    | .ok g => .ok g
    | .error e => .error ⟨f.name, filename, e⟩

/-- Goes through the items of a file. What is no function is skipped. -/
def lowerItems (filename : Option String) : List Source.Item → List LoweredFunction
  | [] => []
  | .function f :: items => .of filename f :: lowerItems filename items
  | .other _ _ :: items => lowerItems filename items

/-- All functions of a module in their order. A given file name goes before the module's own. -/
def lowerModule (filename : Option String) (m : Source.Module) : List LoweredFunction :=
  lowerItems (filename.or m.filename) m.body

structure CompiledFunction where
  name : String
  tree : Target.Function
  text : String

structure Compilation where
  functions : List CompiledFunction
  diagnostics : List Diagnostic

namespace Compilation

def text (t : Compilation) : String := String.join (t.functions.map (·.text))

def isClean (t : Compilation) : Bool := t.diagnostics.isEmpty

end Compilation

def CompiledFunction.of (style : LayoutStyle) (f : Target.Function) : CompiledFunction :=
  ⟨f.name, f, f.render style⟩

/-- Adds what became of the next function. -/
def Compilation.add (style : LayoutStyle) (t : Compilation) (l : LoweredFunction) : Compilation :=
  match l.result with
  | .ok f => { t with functions := t.functions ++ [.of style f] }
  | .error d => { t with diagnostics := t.diagnostics ++ [d] }

def compileModule (style : LayoutStyle) (m : Source.Module) : Compilation :=
  (lowerModule none m).foldl (.add style) ⟨[], []⟩

def compileFunction (style : LayoutStyle) (f : Source.Function) : Lowered String := do
  return (← lowerFunction f).render style

end AnnotatedToC
