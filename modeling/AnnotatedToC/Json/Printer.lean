import AnnotatedToC.Json
import AnnotatedToC.Decimal.Style

/-!
# JSON text

The printer is given the blanks between tokens, so the layouts differ in nothing else.
-/
namespace AnnotatedToC.Json

/-- Numbers are plain from the fifth place after the point to sixteen places before it. -/
def numberStyle : NumberStyle where
  leastPlain := -5
  greatestPlain := 15
  signedExponent := true
  tie := .even

/-- The blanks of a layout. -/
structure Blanks where
  /-- Before an element or a member at a level, and before the bracket that closes a list or object
  at a level. -/
  lineAt : Nat → List Char
  /-- Between a colon and the value. -/
  afterColon : List Char

def Blanks.empty : Blanks where
  lineAt _ := []
  afterColon := []

/-- One line for each element and member, two spaces a level. -/
def Blanks.lines : Blanks where
  lineAt level := '\n' :: List.replicate (2 * level) ' '
  afterColon := [' ']

/-- Two digits tell the characters that are written by their code. -/
def hexPair (n : Nat) : List Char := [Nat.digitChar (n / 16), Nat.digitChar (n % 16)]

/-- Only what a string cannot hold as it is has an escape. -/
def stringChar (c : Char) : List Char :=
  match c with
  | '"' => ['\\', '"']
  | '\\' => ['\\', '\\']
  | '\n' => ['\\', 'n']
  | '\r' => ['\\', 'r']
  | '\t' => ['\\', 't']
  | '\x08' => ['\\', 'b']
  | '\x0c' => ['\\', 'f']
  | c => if c.toNat < 0x20 then '\\' :: 'u' :: '0' :: '0' :: hexPair c.toNat else [c]

def stringText (s : String) : List Char :=
  '"' :: (s.toList.flatMap stringChar ++ ['"'])

/-- A double that is no number has no numeral: it is written as null. -/
def doubleText (d : Double) : List Char :=
  if d.isFinite then numberStyle.text d else ['n', 'u', 'l', 'l']

variable (blanks : Blanks)

mutual

def write (level : Nat) : Json → List Char
  | .null => ['n', 'u', 'l', 'l']
  | .bool true => ['t', 'r', 'u', 'e']
  | .bool false => ['f', 'a', 'l', 's', 'e']
  | .int n => Decimal.intText n
  | .double d => doubleText d
  | .str s => stringText s
  | .arr [] => ['[', ']']
  | .arr (x :: xs) => '[' :: (writeElements (level + 1) (x :: xs) ++ blanks.lineAt level ++ [']'])
  | .obj [] => ['\x7b', '\x7d']
  | .obj (m :: ms) =>
    '\x7b' :: (writeMembers (level + 1) (m :: ms) ++ blanks.lineAt level ++ ['\x7d'])

/-- Elements with a comma after each but the last. -/
def writeElements (level : Nat) : List Json → List Char
  | [] => []
  | x :: xs =>
    blanks.lineAt level ++ write level x ++ (if xs.isEmpty then [] else [',']) ++
      writeElements level xs

/-- Members with a comma after each but the last. -/
def writeMembers (level : Nat) : List (String × Json) → List Char
  | [] => []
  | (name, x) :: ms =>
    blanks.lineAt level ++ stringText name ++ ':' :: blanks.afterColon ++ write level x ++
      (if ms.isEmpty then [] else [',']) ++ writeMembers level ms

end

def compact (j : Json) : String := String.ofList (j.write .empty 0)

def pretty (j : Json) : String := String.ofList (j.write .lines 0)

end AnnotatedToC.Json
