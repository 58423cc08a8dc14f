import AnnotatedToC.Lowering.Error
import AnnotatedToC.Target

/-!
# The types of annotations
-/
namespace AnnotatedToC.Source.Hint

open Target (Ty)

/-- The bases that stand for arrays. -/
def isArrayBase (base : String) : Bool := base == "Array" || base == "view"

/-- The type of an annotation. A subscript by a tuple is the tuple mark whatever its base is. An array
whose element has no type fails as a whole, and what is told of its element is dropped. -/
def resolve : Hint → Except UnsupportedHint Ty
  | .null => .ok .void
  | .subscript _ (.tuple _) => .ok .tuple
  | .subscript base index =>
    if isArrayBase base then do
      return .pointer (← index.resolve.mapError fun _ => .of (.subscript base index))
    else .error (.of (.subscript base index))
  | .name id =>
    if id = "int" then .ok .int else if id = "float" then .ok .double else .error (.of (.name id))
  | .tuple elements => .error (.of (.tuple elements))

/-- The type of an annotation, if it has one. -/
def resolve? (a : Hint) : Option Ty := a.resolve.toOption

end AnnotatedToC.Source.Hint
