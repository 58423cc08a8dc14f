import AnnotatedToC.Compilation

/-!
# What is logged

The events of a run that a logger can be told of. First every item of a module is lowered or skipped,
and then every function that was lowered is rendered.
-/
namespace AnnotatedToC

open Source (LineNumber)

inductive LogEvent
  | checking (program source : String)
  | skipped (construct : String) (line : LineNumber)
  | lowered (function : String) (params statements : Nat)
  | notLowered (function : String) (error : LoweringError)
  | rendered (function : String) (bytes : Nat)

inductive LogLevel
  | debug
  | warn
  deriving DecidableEq, Repr

/-- What a logger is given: how serious an event is, what it is, and its particulars by their names. -/
structure LogRecord where
  level : LogLevel
  message : String
  fields : List (String × String)

def LogEvent.record : LogEvent → LogRecord
  | .checking program source =>
    ⟨.debug, "running type checker", [("checker", program), ("source", source)]⟩
  | .skipped construct line =>
    ⟨.debug, "skipping top-level item", [("construct", construct), ("line", toString line.toNat)]⟩
  | .lowered function params statements =>
    ⟨.debug, "lowered function",
      [("function", function), ("params", toString params), ("statements", toString statements)]⟩
  | .notLowered function error =>
    ⟨.warn, "function not lowered", [("function", function), ("error", error.message)]⟩
  | .rendered function bytes =>
    ⟨.debug, "rendered function", [("function", function), ("bytes", toString bytes)]⟩

def Source.Item.event : Source.Item → LogEvent
  | .function f =>
    match lowerFunction f with
    | .ok g => .lowered f.name g.params.length g.body.length
    | .error e => .notLowered f.name e
  | .other construct line => .skipped construct line

/-- The events of compiling a module. -/
def compileEvents (style : LayoutStyle) (m : Source.Module) : List LogEvent :=
  m.body.map Source.Item.event ++
    (compileModule style m).functions.map fun f => .rendered f.name f.text.utf8ByteSize

end AnnotatedToC
