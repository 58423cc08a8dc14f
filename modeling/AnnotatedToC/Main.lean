import AnnotatedToC.CommandLine.Run

/-!
# The program

Follows a run with files and the standard streams. Checkers are not started from here: a run that asks
for one is told so. What a run leaves to the words of libraries is worded here, and logs have no times.
-/
namespace AnnotatedToC

/-- The answer of an action, with the system's words if it fails. -/
def attempt {α : Type} (action : IO α) : IO (Answer α) :=
  tryCatch (Except.ok <$> action) fun e => pure (.error (toString e))

def LogLevel.name : LogLevel → String
  | .debug => "DEBUG"
  | .warn => "WARN"

def plainWording : Wording where
  fault
    | .incomplete => "the text ends inside a value"
    | .malformed => "the text is not JSON"
    | .mismatch => "the value does not have the shape of a module"
  usage := "error: the arguments do not make up a command; try --help"
  help :=
    "Translate annotated numeric Python routines into C\n\n" ++
    "Usage: gentle [OPTIONS] <INPUT>\n\n" ++
    "  <INPUT>              source module as JSON\n" ++
    "  -c, --check          run the type checker over the source first\n" ++
    "      --checker <CMD>  command of the type checker [default: mypy]\n" ++
    "      --source <FILE>  source to check [default: the module's filename]\n" ++
    "  -o, --output <FILE>  file to write [default: standard output]\n" ++
    "      --compact        no line breaks and no indentation\n" ++
    "      --indent <N>     spaces a level [default: 2]\n" ++
    "      --dump-ir        print the lowered functions as JSON\n" ++
    "  -v, --verbose        log what is done\n" ++
    "  -h, --help           print help\n" ++
    "  -V, --version        print version\n"
  logLine r :=
    r.level.name ++ " " ++ r.message ++
      String.join (r.fields.map fun (name, value) => " " ++ name ++ "=" ++ value)

def Run.perform : Run → IO UInt32
  | .exit code => pure (UInt32.ofNat code)
  | .print text next => do
    IO.print text
    next.perform
  | .report notice next => do
    IO.eprintln (notice.line plainWording)
    next.perform
  | .read path next => do (next (← attempt (IO.FS.readBinFile path))).perform
  | .check _ _ next => (next (.error "programs cannot be started")).perform
  | .write path text next => do (next (← attempt (IO.FS.writeFile path text))).perform

end AnnotatedToC

def main (arguments : List String) : IO UInt32 :=
  (AnnotatedToC.Run.ofArguments AnnotatedToC.plainWording arguments).perform
