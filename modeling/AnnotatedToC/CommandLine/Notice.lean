import AnnotatedToC.CommandLine.Log
import AnnotatedToC.Json.Numeral

/-!
# What the program reports

Lines on the standard error. The causes of failed reads, writes and starts are the system's words. The
libraries for JSON, for arguments and for logs have words of their own, which are left open.
-/
namespace AnnotatedToC

/-- The words of the libraries in one run. -/
structure Wording where
  /-- What is wrong with the text of the input. -/
  fault : Json.Fault → String
  /-- What is wrong with the arguments. -/
  usage : String
  help : String
  /-- The line of a log, on which the time may stand. -/
  logLine : LogRecord → String

/-- Why a run ends before anything is compiled or kept. -/
inductive Failure
  | unreadable (path cause : String)
  | malformed (path : String) (fault : Json.Fault)
  | noSource
  | emptyChecker
  | checkerNotStarted (program cause : String)
  | unwritable (path cause : String)

inductive Notice
  | failure (f : Failure)
  | typeCheckFailed (source : String)
  | diagnostic (d : Diagnostic)
  | uncompiled (failed total : Nat)
  | usage
  | logged (event : LogEvent)

def Failure.message (w : Wording) : Failure → String
  | .unreadable path cause => "failed to read " ++ path ++ ": " ++ cause ++ ": " ++ cause
  | .malformed path fault => "malformed source module " ++ path ++ ": " ++ w.fault fault
  | .noSource => "module has no filename to check; pass --source"
  | .emptyChecker => "checker command is empty"
  | .checkerNotStarted program cause => "failed to run checker `" ++ program ++ "`: " ++ cause
  | .unwritable path cause => "failed to write " ++ path ++ ": " ++ cause

def Notice.line (w : Wording) : Notice → String
  | .failure f => "error: " ++ f.message w
  | .typeCheckFailed source => "error: type check of " ++ source ++ " failed"
  | .diagnostic d => "error: " ++ d.message
  | .uncompiled failed total =>
    "warning: " ++ String.ofList (Nat.toDigits 10 failed) ++ " of " ++
      String.ofList (Nat.toDigits 10 total) ++ " function(s) not translated"
  | .usage => w.usage
  | .logged event => w.logLine event.record

end AnnotatedToC
