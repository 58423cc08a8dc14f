import AnnotatedToC.Layout

/-!
# Command line options

Options come before and after the one input, short ones may be bundled, and a value may be part of its
option or the next argument. Everything is given at most once.
-/
namespace AnnotatedToC

structure Options where
  input : String
  check : Bool
  checker : String
  source : Option String
  output : Option String
  style : LayoutStyle
  dumpTree : Bool
  verbose : Bool

/-- Why there are no options to run with. -/
inductive Stop
  | version
  | help
  | usage
  deriving DecidableEq, Repr

/-- The options given so far. -/
structure GivenOptions where
  input : Option String := none
  check : Bool := false
  checker : Option String := none
  source : Option String := none
  output : Option String := none
  compact : Bool := false
  indent : Option Nat := none
  dumpTree : Bool := false
  verbose : Bool := false

/-- An option without a value. -/
inductive Flag
  | check
  | compact
  | dumpTree
  | verbose
  | help
  | version
  deriving DecidableEq

/-- An option with a value. -/
inductive Setting
  | checker
  | source
  | output
  | indent
  deriving DecidableEq

namespace GivenOptions

variable (given : GivenOptions)

/-- Turns a flag on, unless it is on. -/
def once (isOn : Bool) (turnedOn : GivenOptions) : Except Stop GivenOptions :=
  if isOn then .error .usage else .ok turnedOn

def turnOn : Flag → Except Stop GivenOptions
  | .check => once given.check { given with check := true }
  | .compact => once given.compact { given with compact := true }
  | .dumpTree => once given.dumpTree { given with dumpTree := true }
  | .verbose => once given.verbose { given with verbose := true }
  | .help => .error .help
  | .version => .error .version

/-- A path is not empty. -/
def path (value : String) : Except Stop String :=
  if value.isEmpty then .error .usage else .ok value

/-- A width in decimal digits, perhaps after a plus, of at most 64 bits. -/
def width (value : String) : Except Stop Nat :=
  let digits := match value.toList with
    | '+' :: digits => digits
    | digits => digits
  let n := Nat.ofDigitChars 10 digits 0
  if digits ≠ [] ∧ digits.all Char.isDigit ∧ n < UInt64.size then .ok n else .error .usage

def set (setting : Setting) (value : String) : Except Stop GivenOptions :=
  match setting with
  | .checker => once given.checker.isSome { given with checker := some value }
  | .source => do once given.source.isSome { given with source := some (← path value) }
  | .output => do once given.output.isSome { given with output := some (← path value) }
  | .indent => do once given.indent.isSome { given with indent := some (← width value) }

def setInput (value : String) : Except Stop GivenOptions := do
  once given.input.isSome { given with input := some (← path value) }

/-- An input has to be given, and either compact text or an indentation. -/
def finish : Except Stop Options :=
  match given.input with
  | none => .error .usage
  | some input =>
    if given.compact ∧ given.indent.isSome then .error .usage
    else .ok {
      input := input
      check := given.check
      checker := given.checker.getD "mypy"
      source := given.source
      output := given.output
      style := if given.compact then .compact else ⟨.spaces (given.indent.getD 2), true⟩
      dumpTree := given.dumpTree
      verbose := given.verbose }

end GivenOptions

def longOption? : String → Option (Flag ⊕ Setting)
  | "check" => some (.inl .check)
  | "compact" => some (.inl .compact)
  | "dump-ir" => some (.inl .dumpTree)
  | "verbose" => some (.inl .verbose)
  | "help" => some (.inl .help)
  | "version" => some (.inl .version)
  | "checker" => some (.inr .checker)
  | "source" => some (.inr .source)
  | "output" => some (.inr .output)
  | "indent" => some (.inr .indent)
  | _ => none

def shortOption? : Char → Option (Flag ⊕ Setting)
  | 'c' => some (.inl .check)
  | 'v' => some (.inl .verbose)
  | 'h' => some (.inl .help)
  | 'V' => some (.inl .version)
  | 'o' => some (.inr .output)
  | _ => none

/-- What an argument asks for: nothing more, or a value for a setting. -/
inductive Awaited
  | nothing
  | value (setting : Setting)

/-- A long option after its dashes. -/
def readLong (given : GivenOptions) (text : List Char) : Except Stop (GivenOptions × Awaited) :=
  let name := String.ofList (text.takeWhile (· != '='))
  match longOption? name, text.dropWhile (· != '=') with
  | some (.inl flag), [] => do return (← given.turnOn flag, .nothing)
  | some (.inr setting), [] => .ok (given, .value setting)
  | some (.inr setting), _ :: value => do
    return (← given.set setting (String.ofList value), .nothing)
  | _, _ => .error .usage

/-- A bundle of short options after its dash. The first that has a value takes the rest of the bundle
for it. -/
def readShorts (given : GivenOptions) : List Char → Except Stop (GivenOptions × Awaited)
  | [] => .ok (given, .nothing)
  | c :: rest =>
    match shortOption? c with
    | some (.inl flag) => do readShorts (← given.turnOn flag) rest
    | some (.inr setting) =>
      match rest with
      | [] => .ok (given, .value setting)
      | '=' :: value | value => do return (← given.set setting (String.ofList value), .nothing)
    | none => .error .usage

/-- An argument that is neither an option nor the mark that ends the options. A dash alone is a name. -/
def isPlain (argument : String) : Bool :=
  match argument.toList with
  | '-' :: _ :: _ => false
  | _ => true

/-- Arguments after the mark that ends the options. -/
def readInputs (given : GivenOptions) : List String → Except Stop GivenOptions
  | [] => .ok given
  | argument :: arguments => do readInputs (← given.setInput argument) arguments

def readArguments (given : GivenOptions) (awaited : Awaited) :
    List String → Except Stop GivenOptions
  | [] =>
    match awaited with
    | .nothing => .ok given
    | .value _ => .error .usage
  | argument :: arguments =>
    match awaited with
    | .value setting => do
      if isPlain argument then readArguments (← given.set setting argument) .nothing arguments
      else throw .usage
    | .nothing =>
      match argument.toList with
      | ['-', '-'] => readInputs given arguments
      | '-' :: '-' :: text => do
        let (given, awaited) ← readLong given text
        readArguments given awaited arguments
      | '-' :: c :: text => do
        let (given, awaited) ← readShorts given (c :: text)
        readArguments given awaited arguments
      | _ => do readArguments (← given.setInput argument) .nothing arguments

def Options.parse (arguments : List String) : Except Stop Options := do
  (← readArguments {} .nothing arguments).finish

end AnnotatedToC
