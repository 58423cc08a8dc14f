import AnnotatedToC.Json

/-!
# Fields of records

A record is read from the fields that it names. Members of other names mean nothing, however often
they come, but a field may be given only once. A record may also be a list of its fields in their
order, which is the same as the object with those names.
-/
namespace AnnotatedToC.Json

variable {α β : Type}

/-- The fields of a record by name. -/
abbrev Fields (α : Type) := List (String × α)

namespace Fields

/-- The field of a name: `some none` if it is left out and `none` if it is given twice. -/
def find? (fields : Fields α) (name : String) : Option (Option α) :=
  match fields.filter (·.1 == name) with
  | [] => some none
  | [(_, x)] => some (some x)
  | _ => none

/-- A field that has to be given. -/
def required (fields : Fields α) (name : String) (f : α → Option β) : Option β := do
  (← fields.find? name).bind f

/-- A field that may be left out. -/
def optional (fields : Fields α) (name : String) (f : α → Option β) (default : β) : Option β := do
  match ← fields.find? name with
  | none => some default
  | some x => f x

end Fields

/-- A record whose last fields may be left out when it is a list. -/
def fields? (names : List String) : Json → Option (Fields Json)
  | .obj members => some members
  | .arr elements => if elements.length ≤ names.length then some (names.zip elements) else none
  | _ => none

/-- A record that has all its fields when it is a list. -/
def allFields? (names : List String) : Json → Option (Fields Json)
  | .obj members => some members
  | .arr elements => if elements.length = names.length then some (names.zip elements) else none
  | _ => none

/-- Whether a case without fields may also come with an empty object, and a case with named fields as
the list of them. Both are taken where the value is part of an item, a statement or an expression, and
refused where it stands on its own. -/
inductive Reading
  | strict
  | lenient
  deriving DecidableEq, Repr

/-- What may stand beside the name of a case without fields. -/
def Reading.isUnit (reading : Reading) : Json → Bool
  | .null => true
  | .obj [] => reading == .lenient
  | _ => false

/-- The name of a case without fields: alone or as the only member of an object. -/
def unitCase? (reading : Reading) : Json → Option String
  | .str name => some name
  | .obj [(name, j)] => if reading.isUnit j then some name else none
  | _ => none

end AnnotatedToC.Json
