import AnnotatedToC.Json.StringText

/-!
# Reading JSON values

Reading goes from left to right and stops at the first fault. `Scan` says what is made of the parts of
a value: a value that is kept is built, with all its numbers and strings checked, while one that is
passed over is only followed to its end. Lists and objects nest to a depth given by the caller.
-/
namespace AnnotatedToC.Json

def isBlank (c : Char) : Bool := c == ' ' || c == '\n' || c == '\t' || c == '\r'

def skipBlanks (text : List Char) : List Char := text.dropWhile isBlank

/-- The rest of a word whose first letter was seen. -/
def readWord : List Char → List Char → Except Fault (List Char)
  | [], rest => .ok rest
  | _ :: _, [] => .error .incomplete
  | w :: ws, c :: rest => if w = c then readWord ws rest else .error .malformed

def readColon (text : List Char) : Except Fault (List Char) :=
  match skipBlanks text with
  | [] => .error .incomplete
  | ':' :: rest => .ok rest
  | _ => .error .malformed

variable {α : Type}

/-- The elements of a list from the first of them on, up to the closing bracket. The reader of an
element is told how many came before it. Each takes at least one character of the text, so the text
itself is fuel enough. -/
def readElements (element : Nat → Reader α) : List Char → Nat → Reader (List α)
  | [], _, _ => .error .incomplete
  | _ :: fuel, index, text => do
    let (x, rest) ← element index text
    match skipBlanks rest with
    | [] => throw .incomplete
    | ']' :: rest => return ([x], rest)
    | ',' :: rest =>
      match skipBlanks rest with
      | [] => throw .incomplete
      | ']' :: _ => throw .malformed
      | rest =>
        let (xs, rest) ← readElements element fuel (index + 1) rest
        return (x :: xs, rest)
    | _ => throw .malformed

/-- A list after its opening bracket. -/
def readList (element : Nat → Reader α) : Reader (List α) := fun text =>
  match skipBlanks text with
  | [] => .error .incomplete
  | ']' :: rest => .ok ([], rest)
  | text => readElements element text 0 text

/-- The members of an object from the opening quote of a name on, up to the closing bracket. The
reader of a member is told the names that came before its own and reads the colon as well. The text
itself is fuel enough here too. -/
def readMembers (name : Reader String) (member : List String → String → Reader α) :
    List Char → List String → Reader (List (String × α))
  | [], _, _ => .error .incomplete
  | _ :: fuel, seen, text => do
    let (key, rest) ← name text
    let (x, rest) ← member seen key rest
    match skipBlanks rest with
    | [] => throw .incomplete
    | '\x7d' :: rest => return ([(key, x)], rest)
    | ',' :: rest =>
      match skipBlanks rest with
      | [] => throw .incomplete
      | '"' :: rest =>
        let (xs, rest) ← readMembers name member fuel (key :: seen) rest
        return ((key, x) :: xs, rest)
      | _ => throw .malformed
    | _ => throw .malformed

/-- An object after its opening bracket. -/
def readObject (name : Reader String) (member : List String → String → Reader α) :
    Reader (List (String × α)) := fun text =>
  match skipBlanks text with
  | [] => .error .incomplete
  | '\x7d' :: rest => .ok ([], rest)
  | '"' :: rest => readMembers name member rest [] rest
  | _ => .error .malformed

/-- What is made of the parts of a value. -/
structure Scan (α : Type) where
  word : Json → α
  numeral : Numeral → Except Fault α
  /-- The fault of a text that ends inside a numeral. -/
  numeralEnd : Fault
  string : Reader String
  text : String → α
  list : List α → α
  object : List (String × α) → α

/-- Keeps the value. A number beyond every double is a fault. -/
def Scan.keep : Scan Json where
  word := id
  numeral n := match n.value? with
    | some j => .ok j
    | none => .error .malformed
  numeralEnd := .incomplete
  string := readString
  text := .str
  list := .arr
  object := .obj

/-- Follows the value to its end. -/
def Scan.skip : Scan Unit where
  word _ := ()
  numeral _ := .ok ()
  numeralEnd := .malformed
  string := skipString
  text _ := ()
  list _ := ()
  object _ := ()

namespace Scan

variable (scan : Scan α)

def readNumber (negative : Bool) : Reader α := fun text => do
  let (n, rest) ← readNumeral scan.numeralEnd negative text
  return (← scan.numeral n, rest)

/-- A value whose lists and objects are left to the two given readers. -/
def readWith (onList onObject : Reader α) : Reader α := fun text =>
  match skipBlanks text with
  | [] => .error .incomplete
  | 'n' :: rest => do return (scan.word .null, ← readWord ['u', 'l', 'l'] rest)
  | 't' :: rest => do return (scan.word (.bool true), ← readWord ['r', 'u', 'e'] rest)
  | 'f' :: rest => do return (scan.word (.bool false), ← readWord ['a', 'l', 's', 'e'] rest)
  | '"' :: rest => do
    let (s, rest) ← scan.string rest
    return (scan.text s, rest)
  | '[' :: rest => onList rest
  | '\x7b' :: rest => onObject rest
  | '-' :: rest => scan.readNumber true rest
  | c :: rest => if c.isDigit then scan.readNumber false (c :: rest) else .error .malformed

/-- A value that nests lists and objects at most `depth` deep. -/
def read : Nat → Reader α
  | 0 => scan.readWith (fun _ => .error .malformed) (fun _ => .error .malformed)
  | depth + 1 => scan.readWith
    (fun text => do
      let (xs, rest) ← readList (fun _ => read depth) text
      return (scan.list xs, rest))
    (fun text => do
      let (ms, rest) ← readObject scan.string (fun _ _ text => do read depth (← readColon text)) text
      return (scan.object ms, rest))

end Scan

/-- The fault of a text in which a value of another kind was wanted. Lists and objects are refused at
their bracket, all else once it is read. -/
def wrongKind (text : List Char) : Fault :=
  match Scan.keep.readWith (fun _ => .error .mismatch) (fun _ => .error .mismatch) text with
  | .ok _ => .mismatch
  | .error fault => fault

/-- How deep lists and objects may nest. -/
def depthLimit : Nat := 127

/-- Passes over a value, however deep it nests. -/
def skipValue : Reader Unit := fun text => Scan.skip.read text.length text

/-- A text that holds one value and nothing else. -/
def parse (text : String) : Except Fault Json := do
  let (j, rest) ← Scan.keep.read depthLimit text.toList
  match skipBlanks rest with
  | [] => return j
  | _ => throw .malformed

end AnnotatedToC.Json
