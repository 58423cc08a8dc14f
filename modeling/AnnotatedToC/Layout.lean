/-!
# Layout

Text is laid out in lines that know how deep they stand. A page says how depth and line ends are
written: the lines do not depend on it, and neither does the page on what is written. A draft is written
line by line, and its level goes up and down with the blocks.

Memory is taken to be without limit: a width, the level of a page and a text are as large as they come.
-/
namespace AnnotatedToC

structure Line where
  depth : Nat
  text : String
  deriving DecidableEq, Repr

def Line.deeper (l : Line) : Line := { l with depth := l.depth + 1 }

/-- Lines one level deeper between two lines of brackets. -/
def block (lines : List Line) : List Line :=
  ⟨0, "\x7b"⟩ :: (lines.map Line.deeper ++ [⟨0, "\x7d"⟩])

inductive IndentStyle
  | spaces (width : Nat)
  | tabs
  deriving DecidableEq, Repr

def IndentStyle.unit : IndentStyle → String
  | .spaces width => String.ofList (List.replicate width ' ')
  | .tabs => "\t"

/-- How lines are laid out. Without line breaks there is no indentation either. -/
structure LayoutStyle where
  indent : IndentStyle
  lineBreaks : Bool
  deriving DecidableEq, Repr

namespace LayoutStyle

def standard : LayoutStyle := ⟨.spaces 2, true⟩

def compact : LayoutStyle := ⟨.spaces 0, false⟩

end LayoutStyle

/-- Where and how the next line is written. -/
structure Page where
  level : Nat
  unit : String
  lineBreak : String
  deriving DecidableEq, Repr

namespace Page

def ofStyle (style : LayoutStyle) : Page :=
  if style.lineBreaks then ⟨0, style.indent.unit, "\n"⟩ else ⟨0, "", ""⟩

def indented (p : Page) : Page := { p with level := p.level + 1 }

/-- The indentation of a line at some depth below the page's level: that many units. An empty unit is
not repeated, since there is no bound on the level. -/
def indentation (p : Page) (depth : Nat) : String :=
  if p.unit.isEmpty then "" else String.join (List.replicate (p.level + depth) p.unit)

def lineText (p : Page) (l : Line) : String := p.indentation l.depth ++ l.text ++ p.lineBreak

def write (p : Page) (lines : List Line) : String := String.join (lines.map p.lineText)

end Page

/-- A text that is being laid out, and how the next line is written. Levels are counted in a machine
word. -/
@[ext]
structure Draft where
  level : UInt64
  unit : String
  lineBreak : String
  text : String
  deriving DecidableEq, Repr

namespace Draft

/-- An empty text on a page. -/
def start (p : Page) : Draft := ⟨UInt64.ofNat p.level, p.unit, p.lineBreak, ""⟩

variable (d : Draft)

def page : Page := ⟨d.level.toNat, d.unit, d.lineBreak⟩

/-- The next level. After the greatest level comes level zero. -/
def indent : Draft := { d with level := d.level + 1 }

/-- Level zero has nothing to its left. -/
def dedent : Draft := { d with level := if d.level = 0 then 0 else d.level - 1 }

def line (text : String) : Draft := { d with text := d.text ++ d.page.lineText ⟨0, text⟩ }

/-- What the body writes one level deeper, between two lines of brackets. -/
def block (body : Draft → Draft) : Draft := (body (d.line "\x7b").indent).dedent.line "\x7d"

end Draft

end AnnotatedToC
