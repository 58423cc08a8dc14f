import AnnotatedToC.Json.Numeral

/-!
# JSON strings

The text between two quotes. A character beyond the basic plane may be given by two escapes, a leading
and a trailing surrogate; a surrogate on its own stands for nothing. A string whose value is not
needed is passed over without that check.
-/
namespace AnnotatedToC.Json

def hexDigit? (c : Char) : Option Nat :=
  if c.isDigit then some (c.toNat - '0'.toNat)
  else if 'a' ≤ c ∧ c ≤ 'f' then some (c.toNat - 'a'.toNat + 10)
  else if 'A' ≤ c ∧ c ≤ 'F' then some (c.toNat - 'A'.toNat + 10)
  else none

def hexValue? (digits : List Char) : Option Nat :=
  digits.foldlM (fun n c => (hexDigit? c).map (16 * n + ·)) 0

/-- Four hexadecimal digits. A text with less than four bytes left is incomplete, whatever they are. -/
def readHex : Reader Nat := fun text =>
  if (String.ofList (text.take 4)).utf8ByteSize < 4 then .error .incomplete
  else match hexValue? (text.take 4) with
    | some n => if (text.take 4).length = 4 then .ok (n, text.drop 4) else .error .malformed
    | none => .error .malformed

def isLeading (n : Nat) : Bool := 0xD800 ≤ n && n < 0xDC00

def isTrailing (n : Nat) : Bool := 0xDC00 ≤ n && n < 0xE000

/-- The escape of a trailing surrogate, after the leading one `high`. -/
def readTrailing (high : Nat) : Reader Char
  | [] => .error .incomplete
  | ['\\'] => .error .incomplete
  | '\\' :: 'u' :: rest => do
    let (low, rest) ← readHex rest
    if isTrailing low then
      return (Char.ofNat (0x10000 + (high - 0xD800) * 0x400 + (low - 0xDC00)), rest)
    else throw .malformed
  | _ => .error .malformed

/-- A character given by its code, after the mark of the escape. -/
def readCode : Reader Char := fun text => do
  let (n, rest) ← readHex text
  if isTrailing n then throw .malformed
  else if isLeading n then readTrailing n rest
  else return (Char.ofNat n, rest)

/-- Passes over a character given by its code. -/
def skipCode : Reader Char := fun text => do
  let (n, rest) ← readHex text
  return (Char.ofNat n, rest)

/-- An escape after its backslash. -/
def readEscape (code : Reader Char) : Reader Char
  | [] => .error .incomplete
  | '"' :: rest => .ok ('"', rest)
  | '\\' :: rest => .ok ('\\', rest)
  | '/' :: rest => .ok ('/', rest)
  | 'b' :: rest => .ok ('\x08', rest)
  | 'f' :: rest => .ok ('\x0c', rest)
  | 'n' :: rest => .ok ('\n', rest)
  | 'r' :: rest => .ok ('\r', rest)
  | 't' :: rest => .ok ('\t', rest)
  | 'u' :: rest => code rest
  | _ => .error .malformed

/-- Characters up to the closing quote. Each takes at least one character of the text, so the text
itself is fuel enough. -/
def readChars (code : Reader Char) : List Char → Reader (List Char)
  | [], _ => .error .incomplete
  | _ :: _, [] => .error .incomplete
  | _ :: _, '"' :: rest => .ok ([], rest)
  | _ :: fuel, '\\' :: rest => do
    let (c, rest) ← readEscape code rest
    let (cs, rest) ← readChars code fuel rest
    return (c :: cs, rest)
  | _ :: fuel, c :: rest =>
    if c.toNat < 0x20 then .error .malformed
    else do
      let (cs, rest) ← readChars code fuel rest
      return (c :: cs, rest)

/-- A string after its opening quote. -/
def readString : Reader String := fun text => do
  let (cs, rest) ← readChars readCode text text
  return (String.ofList cs, rest)

/-- Passes over a string after its opening quote. -/
def skipString : Reader String := fun text => do
  let (cs, rest) ← readChars skipCode text text
  return (String.ofList cs, rest)

end AnnotatedToC.Json
