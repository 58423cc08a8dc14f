import AnnotatedToC.Layout
import AnnotatedToC.Target.Text

/-!
# Writing C

A node is written on a draft line by line. Statements follow each other, and a block is written one level
deeper than its statement.
-/
namespace AnnotatedToC.Target

mutual

/-- Writes a statement. The keyword is that of a conditional: it begins with another one where it goes
on from the conditional before it. -/
def Stmt.emitAs (keyword : String) : Stmt → Draft → Draft
  | .declaration v, d => d.line (v.text ++ ";")
  | .update u, d => d.line (u.text ++ ";")
  | .ret none, d => d.line "return;"
  | .ret (some value), d => d.line ("return " ++ value.text ++ ";")
  | .conditional cond thenBranch elseBranch, d =>
    emitElse elseBranch
      ((d.line (keyword ++ " (" ++ cond.text ++ ")")).block (emitAllAs "if" thenBranch))
  | .loop init cond next body, d =>
    (d.line ("for (" ++ init.text ++ "; " ++ cond.text ++ "; " ++ next.text ++ ")")).block
      (emitAllAs "if" body)

/-- Writes the other branch of a conditional, if there is one. -/
def emitElse : Option (List Stmt) → Draft → Draft
  | none, d => d
  | some body, d =>
    match body with
    | [.conditional _ _ _] => emitAllAs "else if" body d
    | _ => (d.line "else").block (emitAllAs "if" body)

def emitAllAs (keyword : String) : List Stmt → Draft → Draft
  | [], d => d
  | s :: ss, d => emitAllAs keyword ss (s.emitAs keyword d)

end

def Stmt.emit (s : Stmt) (d : Draft) : Draft := s.emitAs "if" d

def Function.emit (f : Function) (d : Draft) : Draft :=
  (d.line f.header).block (emitAllAs "if" f.body)

/-- Writes a node. An expression is no line: neither indentation nor line break is added to it. -/
def Node.emit : Node → Draft → Draft
  | .function f, d => f.emit d
  | .stmt s, d => s.emit d
  | .expr e, d => { d with text := d.text ++ e.text }

def Node.render (style : LayoutStyle) (n : Node) : String :=
  (n.emit (.start (.ofStyle style))).text

end AnnotatedToC.Target
