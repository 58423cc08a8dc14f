import AnnotatedToC.Source
import AnnotatedToC.Target

/-!
# Positions in trees

An expression stands in an expression and a statement in a block, at any depth. The tail of an expression
is the expression itself and, through conditional expressions, the tails of their branches: what stands
there is the value of the whole. A condition on everything that stands in a tree is a condition on the
root and on its parts.
-/
namespace AnnotatedToC

/-- Whether a part of an expression is the value of the whole. -/
inductive Position
  | tail
  | inner
  deriving DecidableEq, Repr

/-- The position of a part of a part. -/
def Position.within : Position → Position → Position
  | .tail, p => p
  | .inner, _ => .inner

section Expressions

variable {α : Type} {parts : α → List (Position × α)}

/-- `Occurs parts p x e` says that `x` stands in `e` at a place of position `p`. -/
inductive Occurs (parts : α → List (Position × α)) : Position → α → α → Prop
  | root (e : α) : Occurs parts .tail e e
  | part {e c x : α} {q p : Position} :
    (q, c) ∈ parts e → Occurs parts p x c → Occurs parts (q.within p) x e

theorem forall_occurs {P : Position → α → Prop} {e : α} :
    (∀ p x, Occurs parts p x e → P p x) ↔
      P .tail e ∧ ∀ q c, (q, c) ∈ parts e → ∀ p x, Occurs parts p x c → P (q.within p) x := by
  constructor
  · intro h
    exact ⟨h _ _ (.root e), fun q c hc p x hx => h _ _ (.part hc hx)⟩
  · rintro ⟨hroot, hparts⟩ p x hx
    cases hx with
    | root => exact hroot
    | part hc hx => exact hparts _ _ hc _ _ hx

theorem forall_mem_inner {P : Position → α → Prop} {es : List α} :
    (∀ q c, (q, c) ∈ es.map (Prod.mk .inner) → P q c) ↔ ∀ e ∈ es, P .inner e := by
  constructor
  · intro h e he
    exact h .inner e (List.mem_map_of_mem he)
  · intro h q c hc
    obtain ⟨e, he, hqc⟩ := List.mem_map.mp hc
    cases hqc
    exact h c he

end Expressions

section Statements

variable {α : Type} {blocks : α → List (List α)}

/-- `Within blocks s ss` says that `s` is a statement of `ss` or of a block inside it. -/
inductive Within (blocks : α → List (List α)) (s : α) : List α → Prop
  | here {ss : List α} : s ∈ ss → Within blocks s ss
  | deeper {ss block : List α} {t : α} :
    t ∈ ss → block ∈ blocks t → Within blocks s block → Within blocks s ss

theorem forall_within {P : α → Prop} {ss : List α} :
    (∀ s, Within blocks s ss → P s) ↔
      ∀ t ∈ ss, P t ∧ ∀ block ∈ blocks t, ∀ s, Within blocks s block → P s := by
  constructor
  · intro h t ht
    exact ⟨h t (.here ht), fun block hblock s hs => h s (.deeper ht hblock hs)⟩
  · intro h s hs
    cases hs with
    | here hs => exact (h s hs).1
    | deeper ht hblock hs => exact (h _ ht).2 _ hblock s hs

end Statements

namespace Source

/-- The expressions that an expression is made of. -/
def Expr.parts : Expr → List (Position × Expr)
  | .constant _ _ | .name _ _ | .unsupported _ _ => []
  | .binary _ _ left right => [(.inner, left), (.inner, right)]
  | .subscript _ value index => [(.inner, value), (.inner, index)]
  | .call _ _ args => args.map (Prod.mk .inner)
  | .conditional _ test body orelse => [(.inner, test), (.tail, body), (.tail, orelse)]
  | .tuple _ elements => elements.map (Prod.mk .inner)

/-- The blocks that a statement is made of. -/
def Stmt.blocks : Stmt → List (List Stmt)
  | .branch _ _ body orelse | .loop _ _ _ body orelse => [body, orelse]
  | _ => []

end Source

namespace Target

/-- The expressions that an expression is made of. -/
def Expr.parts : Expr → List (Position × Expr)
  | .identifier _ | .literal _ => []
  | .binary _ left right => [(.inner, left), (.inner, right)]
  | .index base i => [(.inner, base), (.inner, i)]
  | .call _ args => args.map (Prod.mk .inner)
  | .ternary cond thenExpr elseExpr => [(.inner, cond), (.tail, thenExpr), (.tail, elseExpr)]
  | .compound _ elements => elements.map (Prod.mk .inner)

/-- The blocks that a statement is made of. -/
def Stmt.blocks : Stmt → List (List Stmt)
  | .conditional _ thenBranch elseBranch => thenBranch :: elseBranch.toList
  | .loop _ _ _ body => [body]
  | _ => []

end Target

end AnnotatedToC
