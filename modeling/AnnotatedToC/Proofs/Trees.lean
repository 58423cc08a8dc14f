import AnnotatedToC.Source
import AnnotatedToC.Target
import Mathlib.Data.List.Basic

/-!
# Induction over trees

Expressions and statements hold lists of their own kind. These principles hand over the induction
hypothesis for every member of such a list, so that a proof has one case for each constructor and
treats lists by lemmas of their own. The float literals of an expression are collected in the same way.
-/
namespace AnnotatedToC

namespace Source

@[elab_as_elim, induction_eliminator]
theorem Hint.inductionOn {motive : Hint → Prop}
    (name : ∀ id, motive (.name id))
    (null : motive .null)
    (subscript : ∀ base index, motive index → motive (.subscript base index))
    (tuple : ∀ elements, (∀ a ∈ elements, motive a) → motive (.tuple elements)) :
    ∀ a, motive a := by
  intro a
  refine @Hint.rec motive (fun as => ∀ a ∈ as, motive a) name null subscript tuple
    (List.forall_mem_nil motive) ?_ a
  intro a as ha has
  exact List.forall_mem_cons.mpr ⟨ha, has⟩

@[elab_as_elim, induction_eliminator]
theorem Expr.inductionOn {motive : Expr → Prop}
    (constant : ∀ line value, motive (.constant line value))
    (name : ∀ line id, motive (.name line id))
    (binary : ∀ line op left right, motive left → motive right →
      motive (.binary line op left right))
    (subscript : ∀ line value index, motive value → motive index →
      motive (.subscript line value index))
    (call : ∀ line func args, (∀ e ∈ args, motive e) → motive (.call line func args))
    (conditional : ∀ line test body orelse, motive test → motive body → motive orelse →
      motive (.conditional line test body orelse))
    (tuple : ∀ line elements, (∀ e ∈ elements, motive e) → motive (.tuple line elements))
    (unsupported : ∀ line construct, motive (.unsupported line construct)) :
    ∀ e, motive e := by
  intro e
  refine @Expr.rec motive (fun es => ∀ e ∈ es, motive e) constant name binary subscript call
    conditional tuple unsupported (List.forall_mem_nil motive) ?_ e
  intro e es he hes
  exact List.forall_mem_cons.mpr ⟨he, hes⟩

@[elab_as_elim, induction_eliminator]
theorem Stmt.inductionOn {motive : Stmt → Prop}
    (ret : ∀ line value, motive (.ret line value))
    (annotated : ∀ line target hint value, motive (.annotated line target hint value))
    (augmented : ∀ line target op value, motive (.augmented line target op value))
    (assign : ∀ line targets value, motive (.assign line targets value))
    (branch : ∀ line test body orelse, (∀ s ∈ body, motive s) → (∀ s ∈ orelse, motive s) →
      motive (.branch line test body orelse))
    (loop : ∀ line target iter body orelse, (∀ s ∈ body, motive s) → (∀ s ∈ orelse, motive s) →
      motive (.loop line target iter body orelse))
    (unsupported : ∀ line construct, motive (.unsupported line construct)) :
    ∀ s, motive s := by
  intro s
  refine @Stmt.rec motive (fun ss => ∀ s ∈ ss, motive s) ret annotated augmented assign branch
    loop unsupported (List.forall_mem_nil motive) ?_ s
  intro s ss hs hss
  exact List.forall_mem_cons.mpr ⟨hs, hss⟩

end Source

namespace Target

@[elab_as_elim, induction_eliminator]
theorem Expr.inductionOn {motive : Expr → Prop}
    (identifier : ∀ name, motive (.identifier name))
    (literal : ∀ value, motive (.literal value))
    (binary : ∀ op left right, motive left → motive right → motive (.binary op left right))
    (index : ∀ base index, motive base → motive index → motive (.index base index))
    (call : ∀ callee args, (∀ e ∈ args, motive e) → motive (.call callee args))
    (ternary : ∀ cond thenExpr elseExpr, motive cond → motive thenExpr → motive elseExpr →
      motive (.ternary cond thenExpr elseExpr))
    (compound : ∀ ty elements, (∀ e ∈ elements, motive e) → motive (.compound ty elements)) :
    ∀ e, motive e := by
  intro e
  refine @Expr.rec motive (fun es => ∀ e ∈ es, motive e) identifier literal binary index call
    ternary compound (List.forall_mem_nil motive) ?_ e
  intro e es he hes
  exact List.forall_mem_cons.mpr ⟨he, hes⟩

@[elab_as_elim, induction_eliminator]
theorem Stmt.inductionOn {motive : Stmt → Prop}
    (declaration : ∀ d, motive (.declaration d))
    (update : ∀ u, motive (.update u))
    (conditional : ∀ cond thenBranch elseBranch, (∀ s ∈ thenBranch, motive s) →
      (∀ body ∈ elseBranch, ∀ s ∈ body, motive s) →
      motive (.conditional cond thenBranch elseBranch))
    (loop : ∀ init cond next body, (∀ s ∈ body, motive s) → motive (.loop init cond next body))
    (ret : ∀ value, motive (.ret value)) :
    ∀ s, motive s := by
  intro s
  refine @Stmt.rec motive (fun ss => ∀ s ∈ ss, motive s)
    (fun body? => ∀ body ∈ body?, ∀ s ∈ body, motive s) declaration update conditional loop ret
    (List.forall_mem_nil motive) ?_ ?_ ?_ s
  · intro s ss hs hss
    exact List.forall_mem_cons.mpr ⟨hs, hss⟩
  · intro body hbody
    simp at hbody
  · intro ss hss body hbody
    obtain rfl := Option.mem_some_iff.mp hbody
    exact hss

/-! ## Float literals -/

mutual

def Expr.floats : Expr → List Double
  | .literal (.float value) => [value]
  | .identifier _ | .literal _ => []
  | .binary _ left right => left.floats ++ right.floats
  | .index base index => base.floats ++ index.floats
  | .call _ args => floatsOf args
  | .ternary cond thenExpr elseExpr => cond.floats ++ (thenExpr.floats ++ elseExpr.floats)
  | .compound _ elements => floatsOf elements

def floatsOf : List Expr → List Double
  | [] => []
  | e :: es => e.floats ++ floatsOf es

end

theorem mem_floatsOf {es : List Expr} {d : Double} : d ∈ floatsOf es ↔ ∃ e ∈ es, d ∈ e.floats := by
  induction es with
  | nil => simp [floatsOf]
  | cons e es ih => simp [floatsOf, ih]

theorem forall_mem_floatsOf {p : Double → Prop} {es : List Expr} :
    (∀ d ∈ floatsOf es, p d) ↔ ∀ e ∈ es, ∀ d ∈ e.floats, p d := by
  simp only [mem_floatsOf]
  constructor
  · intro h e he d hd
    exact h d ⟨e, he, hd⟩
  · rintro h d ⟨e, he, hd⟩
    exact h e he d hd

end Target

end AnnotatedToC
