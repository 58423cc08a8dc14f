import AnnotatedToC.CommandLine.Notice
import AnnotatedToC.CommandLine.Options
import AnnotatedToC.CommandLine.Path
import AnnotatedToC.Source.File
import AnnotatedToC.Target.Encode
import AnnotatedToC.Text.Bytes
import AnnotatedToC.Text.Words

/-!
# Runs of the program

A run is a tree: what it prints and reports, what it asks of the system, and how it goes on after each
answer. `Run.outcome` follows it through a host that answers at once; the program itself follows the
same tree with files and processes.
-/
namespace AnnotatedToC

/-- How a checker that was started ended. -/
structure CheckerExit where
  success : Bool
  stdout : List UInt8

/-- An answer of the system, or the cause why there is none. -/
abbrev Answer (α : Type) := Except String α

inductive Run
  | exit (code : Nat)
  | print (text : String) (next : Run)
  | report (notice : Notice) (next : Run)
  | read (path : String) (next : Answer ByteArray → Run)
  | check (program : String) (arguments : List String) (next : Answer CheckerExit → Run)
  | write (path text : String) (next : Answer Unit → Run)

namespace Run

def success : Nat := 0

def failure : Nat := 1

def usageError : Nat := 2

def fail (f : Failure) : Run := .report (.failure f) (.exit failure)

def reportAll (notices : List Notice) (next : Run) : Run := notices.foldr .report next

end Run

/-- What the compiled functions are written as. -/
def Compilation.content (dumpTree : Bool) (t : Compilation) : String :=
  if dumpTree then (Json.arr (t.functions.map (·.tree.toJson))).pretty ++ "\n" else t.text

/-- One line for each diagnostic, and then their number if there are any. -/
def Compilation.notices (t : Compilation) : List Notice :=
  t.diagnostics.map .diagnostic ++
    if t.isClean then []
    else [.uncompiled t.diagnostics.length (t.diagnostics.length + t.functions.length)]

/-- Reports what was not compiled. -/
def Compilation.conclude (t : Compilation) : Run :=
  .reportAll t.notices (.exit (if t.isClean then Run.success else Run.failure))

namespace Options

variable (o : Options)

/-- The file to check: the given one, or the module's own file beside the input. -/
def sourcePath? (m : Source.Module) : Option String :=
  match o.source with
  | some source => some source
  | none => m.filename.map (Path.join (Path.parent o.input))

/-- The module in a file, if the file was read. -/
def load : Answer ByteArray → Except Failure Source.Module
  | .error cause => .error (.unreadable o.input cause)
  | .ok bytes =>
    match String.fromUTF8? bytes with
    | none => .error (.unreadable o.input "stream did not contain valid UTF-8")
    | some text =>
      match Source.Module.parse text with
      | .error fault => .error (.malformed o.input fault)
      | .ok m => .ok m

/-- The events that are logged: all or none. -/
def logged (events : List LogEvent) : List Notice := if o.verbose then events.map .logged else []

/-- Puts content where it belongs and then reports what was not compiled. -/
def deliver (content : String) (t : Compilation) : Run :=
  match o.output with
  | none => .print content t.conclude
  | some path => .write path content fun
    | .error cause => .fail (.unwritable path cause)
    | .ok () => t.conclude

/-- Emits the compilation of a module that is loaded and checked. -/
def emit (m : Source.Module) : Run :=
  let t := compileModule o.style m
  .reportAll (o.logged (compileEvents o.style m)) (o.deliver (t.content o.dumpTree) t)

/-- Goes on after the checker ended. Its report is shown if it found something. -/
def afterCheck (program source : String) (next : Run) : Answer CheckerExit → Run
  | .error cause => .fail (.checkerNotStarted program cause)
  | .ok ended =>
    if ended.success then next
    else .print (String.ofList (Text.decode ended.stdout))
      (.report (.typeCheckFailed source) (.exit Run.failure))

/-- Checks the source of a module, if that is asked for. The path is the checker's last argument. -/
def checked (m : Source.Module) (next : Run) : Run :=
  if !o.check then next
  else match o.sourcePath? m with
    | none => .fail .noSource
    | some source =>
      match Text.words o.checker with
      | [] => .fail .emptyChecker
      | program :: arguments =>
        .reportAll (o.logged [.checking program source])
          (.check program (arguments ++ [source]) (afterCheck program source next))

def run : Run :=
  .read o.input fun answer =>
    match o.load answer with
    | .error f => .fail f
    | .ok m => o.checked m (o.emit m)

end Options

def versionText : String := "gentle 0.1.0\n"

/-- The run for the given arguments. -/
def Run.ofArguments (w : Wording) (arguments : List String) : Run :=
  match Options.parse arguments with
  | .ok o => o.run
  | .error .version => .print versionText (.exit success)
  | .error .help => .print w.help (.exit success)
  | .error .usage => .report .usage (.exit usageError)

/-- A system that answers at once. Checkers and writes may change its state. -/
structure Host (σ : Type) where
  read : σ → String → Answer ByteArray
  check : σ → String → List String → Answer CheckerExit × σ
  write : σ → String → String → Answer Unit × σ

/-- What a run leaves behind. -/
structure Outcome (σ : Type) where
  code : Nat
  stdout : String
  notices : List Notice
  /-- The writes that succeeded, with their paths. -/
  written : List (String × String)
  state : σ

/-- The outcome on a host in a given state. -/
def Run.outcome {σ : Type} (host : Host σ) : Run → σ → Outcome σ
  | .exit code, s => ⟨code, "", [], [], s⟩
  | .print text next, s =>
    let o := next.outcome host s
    { o with stdout := text ++ o.stdout }
  | .report notice next, s =>
    let o := next.outcome host s
    { o with notices := notice :: o.notices }
  | .read path next, s => (next (host.read s path)).outcome host s
  | .check program arguments next, s =>
    let (answer, s) := host.check s program arguments
    (next answer).outcome host s
  | .write path text next, s =>
    let (answer, s) := host.write s path text
    let o := (next answer).outcome host s
    match answer with
    | .error _ => o
    | .ok () => { o with written := (path, text) :: o.written }

end AnnotatedToC
