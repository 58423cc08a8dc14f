import AnnotatedToC.Layout
import AnnotatedToC.Target.Text

/-!
# Lines of C

Each block has its brackets on lines of their own. A conditional that is all there is in the other
branch of a conditional goes on in the same line.
-/
namespace AnnotatedToC.Target

/-- Puts `else` in front of the first line. -/
def elseLines : List Line → List Line
  | [] => []
  | l :: ls => { l with text := "else " ++ l.text } :: ls

mutual

def Stmt.lines : Stmt → List Line
  | .declaration d => [⟨0, d.text ++ ";"⟩]
  | .update u => [⟨0, u.text ++ ";"⟩]
  | .ret none => [⟨0, "return;"⟩]
  | .ret (some value) => [⟨0, "return " ++ value.text ++ ";"⟩]
  | .conditional cond thenBranch elseBranch =>
    ⟨0, "if (" ++ cond.text ++ ")"⟩ :: (block (linesOf thenBranch) ++ elseBranchLines elseBranch)
  | .loop init cond next body =>
    ⟨0, "for (" ++ init.text ++ "; " ++ cond.text ++ "; " ++ next.text ++ ")"⟩ ::
      block (linesOf body)

def elseBranchLines : Option (List Stmt) → List Line
  | none => []
  | some body =>
    match body with
    | [.conditional _ _ _] => elseLines (linesOf body)
    | _ => ⟨0, "else"⟩ :: block (linesOf body)

def linesOf : List Stmt → List Line
  | [] => []
  | s :: ss => s.lines ++ linesOf ss

end

def Function.lines (f : Function) : List Line := ⟨0, f.header⟩ :: block (linesOf f.body)

def Function.render (style : LayoutStyle) (f : Function) : String := (Page.ofStyle style).write f.lines

end AnnotatedToC.Target
