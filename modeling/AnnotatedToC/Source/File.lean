import AnnotatedToC.Json.Printer
import AnnotatedToC.Json.Reader
import AnnotatedToC.Source.Decode

/-!
# Module files

A module is read from left to right and the first fault decides. An item is read as a JSON value and
then looked at, before the next one is read; only the name of its case is looked at when it comes by.
Members of the module that mean nothing are passed over.
-/
namespace AnnotatedToC.Source

open Json (Fault Reader skipBlanks readWord readColon readString readList readObject wrongKind)

/-- The result of a check of shape. -/
def checked {α : Type} : Option α → Except Fault α
  | some x => .ok x
  | none => .error .mismatch

/-- A value inside an item: the module, its list of items and the item are open around it. -/
def readInner : Reader Json := Json.Scan.keep.read (Json.depthLimit - 3)

/-- The name of a case of items. -/
def readTag : Reader Json := fun text =>
  match skipBlanks text with
  | '"' :: rest => do
    let (tag, rest) ← readString rest
    if tag = "FunctionDef" ∨ tag = "Other" then return (.str tag, rest) else throw .mismatch
  | text => .error (wrongKind text)

def readItemMember (seen : List String) (name : String) : Reader Json := fun text =>
  if name = "type" then
    if name ∈ seen then .error .mismatch else do readTag (← readColon text)
  else do readInner (← readColon text)

def readItem : Reader Item := fun text =>
  match skipBlanks text with
  | '\x7b' :: rest => do
    let (members, rest) ← readObject readString readItemMember rest
    return (← checked (Item.ofJson? (.obj members)), rest)
  | '[' :: rest => do
    let (elements, rest) ← readList (fun index => if index = 0 then readTag else readInner) rest
    return (← checked (Item.ofJson? (.arr elements)), rest)
  | text => .error (wrongKind text)

def readFilename : Reader (Option String) := fun text =>
  match skipBlanks text with
  | 'n' :: rest => do return (none, ← readWord ['u', 'l', 'l'] rest)
  | '"' :: rest => do
    let (name, rest) ← readString rest
    return (some name, rest)
  | text => .error (wrongKind text)

def readItems : Reader (List Item) := fun text =>
  match skipBlanks text with
  | '[' :: rest => readList (fun _ => readItem) rest
  | text => .error (wrongKind text)

/-- A member of a module. -/
inductive Part
  | filename (name : Option String)
  | body (items : List Item)
  | unknown

def Part.filename? : Part → Option (Option String)
  | .filename name => some name
  | _ => none

def Part.body? : Part → Option (List Item)
  | .body items => some items
  | _ => none

def readPart (seen : List String) (name : String) : Reader Part := fun text =>
  if name = "filename" then
    if name ∈ seen then .error .mismatch
    else do
      let (filename, rest) ← readFilename (← readColon text)
      return (.filename filename, rest)
  else if name = "body" then
    if name ∈ seen then .error .mismatch
    else do
      let (items, rest) ← readItems (← readColon text)
      return (.body items, rest)
  else do
    let ((), rest) ← Json.skipValue (← readColon text)
    return (.unknown, rest)

/-- The module that the members make up. -/
def Module.ofParts (parts : List (String × Part)) : Module where
  filename := (parts.findSome? (·.2.filename?)).join
  body := (parts.findSome? (·.2.body?)).getD []

/-- The end of a module that is a list, after its last field. Nothing may follow but the bracket. -/
def readListEnd (m : Module) : Reader Module := fun text =>
  match skipBlanks text with
  | [] => .error .incomplete
  | ']' :: rest => .ok (m, rest)
  | _ => .error .malformed

/-- The items of a module that is a list, after its file name. -/
def readListBody (filename : Option String) : Reader Module := fun text =>
  match skipBlanks text with
  | [] => .error .incomplete
  | ']' :: rest => .ok (⟨filename, []⟩, rest)
  | ',' :: rest =>
    match skipBlanks rest with
    | [] => .error .incomplete
    | ']' :: _ => .error .malformed
    | rest => do
      let (items, rest) ← readItems rest
      readListEnd ⟨filename, items⟩ rest
  | _ => .error .malformed

def readModule : Reader Module := fun text =>
  match skipBlanks text with
  | '\x7b' :: rest => do
    let (parts, rest) ← readObject readString readPart rest
    return (.ofParts parts, rest)
  | '[' :: rest =>
    match skipBlanks rest with
    | [] => .error .incomplete
    | ']' :: rest => .ok (⟨none, []⟩, rest)
    | rest => do
      let (filename, rest) ← readFilename rest
      readListBody filename rest
  | text => .error (wrongKind text)

/-- A text that holds a module and nothing else. -/
def Module.parse (text : String) : Except Fault Module := do
  let (m, rest) ← readModule text.toList
  match skipBlanks rest with
  | [] => return m
  | _ => throw .malformed

/-- The text of a module file. -/
def Module.save (m : Module) : String := m.toJson.pretty

end AnnotatedToC.Source
