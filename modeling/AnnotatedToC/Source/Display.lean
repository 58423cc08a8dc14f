import AnnotatedToC.Decimal.Style
import AnnotatedToC.Source
import AnnotatedToC.Text.Quoted

/-!
# Source text in messages

Annotations, literals and operators as a message shows them.
-/
namespace AnnotatedToC.Source

mutual

def Hint.display : Hint → String
  | .name id => id
  | .null => "None"
  | .subscript base index => base ++ "[" ++ index.display ++ "]"
  | .tuple elements => ", ".intercalate (displayAll elements)

def displayAll : List Hint → List String
  | [] => []
  | a :: as => a.display :: displayAll as

end

def Literal.display : Literal → String
  | .int value => String.ofList (Decimal.intText value.toInt)
  | .float value =>
    if value.isNaN then "NaN"
    else if value.isFinite then String.ofList (NumberStyle.literal.text value)
    else if value.isNegative then "-inf"
    else "inf"
  | .bool true => "True"
  | .bool false => "False"
  | .str value => Text.quoted value
  | .null => "None"

def Operator.symbol : Operator → String
  | .add => "+"
  | .sub => "-"
  | .mult => "*"
  | .div => "/"
  | .floorDiv => "//"
  | .mod => "%"
  | .pow => "**"
  | .matMult => "@"
  | .leftShift => "<<"
  | .rightShift => ">>"
  | .bitOr => "|"
  | .bitXor => "^"
  | .bitAnd => "&"

end AnnotatedToC.Source
