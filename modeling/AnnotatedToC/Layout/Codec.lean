import AnnotatedToC.Json.Fields
import AnnotatedToC.Layout

/-!
# Layout styles as JSON
-/
namespace AnnotatedToC

def IndentStyle.toJson : IndentStyle → Json
  | .spaces width => .obj [("Spaces", .int width)]
  | .tabs => .str "Tabs"

def IndentStyle.ofJson? : Json → Option IndentStyle
  | .obj [("Spaces", j)] => (j.below? UInt64.size).map .spaces
  | j => if Json.unitCase? .strict j = some "Tabs" then some .tabs else none

namespace LayoutStyle

def toJson (style : LayoutStyle) : Json :=
  .obj [("indent_style", style.indent.toJson), ("line_breaks", .bool style.lineBreaks)]

def ofJson? (j : Json) : Option LayoutStyle := do
  let fields ← j.allFields? ["indent_style", "line_breaks"]
  return ⟨← fields.required "indent_style" IndentStyle.ofJson?,
    ← fields.required "line_breaks" Json.bool?⟩

end LayoutStyle

end AnnotatedToC
