import AnnotatedToC.Proofs.Statements

/-!
# What the text does not show

A truth value is written like the integer that it is, all NaNs are written alike, and the initial value
of a parameter is not written. A function and its normal form have the same text.
-/
namespace AnnotatedToC

def Double.nan : Double := .ofMagnitude false (Double.infinity + 1)

def Target.Literal.normal : Target.Literal → Target.Literal
  | .int value => .int value
  | .float value => .float (if value.isNaN then .nan else value)
  | .bool value => .int (if value then 1 else 0)
  | .str value => .str value

namespace Target

mutual

/-- The expression with its truth values as integers and only one NaN. -/
def Expr.normal : Expr → Expr
  | .identifier name => .identifier name
  | .literal value => .literal value.normal
  | .binary op left right => .binary op left.normal right.normal
  | .index base index => .index base.normal index.normal
  | .call callee args => .call callee (normalOf args)
  | .ternary cond thenExpr elseExpr => .ternary cond.normal thenExpr.normal elseExpr.normal
  | .compound ty elements => .compound ty (normalOf elements)

def normalOf : List Expr → List Expr
  | [] => []
  | e :: es => e.normal :: normalOf es

end

def Declaration.normal (d : Declaration) : Declaration := { d with init := d.init.map Expr.normal }

def Update.normal (u : Update) : Update :=
  { u with target := u.target.normal, value := u.value.normal }

mutual

def Stmt.normal : Stmt → Stmt
  | .declaration d => .declaration d.normal
  | .update u => .update u.normal
  | .ret value => .ret (value.map Expr.normal)
  | .conditional cond thenBranch elseBranch =>
    .conditional cond.normal (normalBlock thenBranch) (normalElse elseBranch)
  | .loop init cond next body => .loop init.normal cond.normal next.normal (normalBlock body)

def normalElse : Option (List Stmt) → Option (List Stmt)
  | none => none
  | some body => some (normalBlock body)

def normalBlock : List Stmt → List Stmt
  | [] => []
  | s :: ss => s.normal :: normalBlock ss

end

def Declaration.bare (d : Declaration) : Declaration := { d with init := none }

/-- The function with its truth values as integers, only one NaN and no initial values of
parameters. -/
def Function.normal (f : Function) : Function :=
  { f with params := f.params.map Declaration.bare, body := normalBlock f.body }

/-! ## Normal forms have the same text -/

theorem Literal.text_normal (value : Literal) : value.normal.text = value.text := by
  cases value with
  | float value =>
    rw [normal, text, text]
    split_ifs with hnan
    · rw [doubleText, doubleText, if_pos hnan]
      rfl
    · rfl
  | bool value => cases value <;> decide
  | int _ | str _ => rfl

theorem Expr.operand_normal (e : Expr) : e.normal.operand = e.operand := by
  cases e <;> rfl

theorem texts_normalOf {es : List Expr} (hes : ∀ e ∈ es, e.normal.text = e.text) :
    texts (normalOf es) = texts es := by
  induction es with
  | nil => rfl
  | cons e es ih =>
    rw [List.forall_mem_cons] at hes
    rw [normalOf, texts, texts, hes.1, ih hes.2]

theorem Expr.text_normal (e : Expr) : e.normal.text = e.text := by
  induction e with
  | identifier name => rfl
  | literal value => exact value.text_normal
  | binary op left right ihl ihr =>
    simp only [normal, text, operand_normal, ihl, ihr]
  | index base index ihb ihi => simp only [normal, text, operand_normal, ihb, ihi]
  | call callee args ih => rw [normal, text, text, texts_normalOf ih]
  | ternary cond thenExpr elseExpr ihc iht ihe =>
    simp only [normal, text, operand_normal, ihc, iht, ihe]
  | compound ty elements ih => rw [normal, text, text, texts_normalOf ih]

theorem Declaration.text_normal (d : Declaration) : d.normal.text = d.text := by
  obtain ⟨name, ty, init⟩ := d
  cases init with
  | none => rfl
  | some init => simp only [normal, text, Option.map_some, init.text_normal]

theorem Update.text_normal (u : Update) : u.normal.text = u.text := by
  simp only [normal, text, Expr.text_normal]

theorem linesOf_normalBlock {ss : List Stmt} (hss : ∀ s ∈ ss, s.normal.lines = s.lines) :
    linesOf (normalBlock ss) = linesOf ss := by
  induction ss with
  | nil => rfl
  | cons s ss ih =>
    rw [List.forall_mem_cons] at hss
    rw [normalBlock, linesOf, linesOf, hss.1, ih hss.2]

theorem isChain_normalBlock {body : List Stmt} : IsChain (normalBlock body) ↔ IsChain body := by
  constructor
  · rintro ⟨cond, thenBranch, elseBranch, h⟩
    cases body with
    | nil => cases h
    | cons s ss =>
      cases ss with
      | cons s' ss => simp [normalBlock] at h
      | nil =>
        cases s with
        | conditional cond thenBranch elseBranch => exact ⟨cond, thenBranch, elseBranch, rfl⟩
        | declaration _ | update _ | loop _ _ _ _ | ret _ => cases h
  · rintro ⟨cond, thenBranch, elseBranch, rfl⟩
    exact ⟨_, _, _, rfl⟩

theorem elseBranchLines_normalElse {elseBranch : Option (List Stmt)}
    (helse : ∀ body ∈ elseBranch, ∀ s ∈ body, s.normal.lines = s.lines) :
    elseBranchLines (normalElse elseBranch) = elseBranchLines elseBranch := by
  cases elseBranch with
  | none => rfl
  | some body =>
    have hlines := linesOf_normalBlock (helse body rfl)
    rw [normalElse]
    by_cases hchain : IsChain body
    · rw [elseBranchLines_of_isChain hchain,
        elseBranchLines_of_isChain (isChain_normalBlock.mpr hchain), hlines]
    · rw [elseBranchLines_of_not_isChain hchain,
        elseBranchLines_of_not_isChain (mt isChain_normalBlock.mp hchain), hlines]

theorem Stmt.lines_normal (s : Stmt) : s.normal.lines = s.lines := by
  induction s with
  | declaration d => rw [normal, lines, lines, d.text_normal]
  | update u => rw [normal, lines, lines, u.text_normal]
  | conditional cond thenBranch elseBranch iht ihe =>
    rw [normal, lines, lines, cond.text_normal, linesOf_normalBlock iht,
      elseBranchLines_normalElse ihe]
  | loop init cond next body ih =>
    rw [normal, lines, lines, init.text_normal, cond.text_normal, next.text_normal,
      linesOf_normalBlock ih]
  | ret value =>
    cases value with
    | none => rfl
    | some value => rw [normal, Option.map_some, lines, lines, value.text_normal]

theorem Function.lines_normal (f : Function) : f.normal.lines = f.lines := by
  have hheader : f.normal.header = f.header := by
    obtain ⟨name, returnType, params, body⟩ := f
    cases params with
    | nil => rfl
    | cons p params =>
      simp only [header, normal, List.map_cons, List.map_map, Declaration.bare, Function.comp_def]
  rw [lines, lines, hheader, normal, linesOf_normalBlock fun s _ => s.lines_normal]

end Target

end AnnotatedToC
