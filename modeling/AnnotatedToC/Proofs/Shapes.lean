import AnnotatedToC.Proofs.Parsed
import AnnotatedToC.Proofs.Statements

/-!
# How statements start

A statement is told from the others by its first word or, where that belongs to a type or an
expression, by the first mark that neither of them holds.
-/
namespace AnnotatedToC.Target

open Json (stops_nil)
open Syntax

inductive Shape
  | declaration
  | update
  | conditional
  | loop
  | ret
  deriving DecidableEq

def Stmt.shape : Stmt → Shape
  | .declaration _ => .declaration
  | .update _ => .update
  | .conditional _ _ _ => .conditional
  | .loop _ _ _ _ => .loop
  | .ret _ => .ret

/-- Marks that no expression holds. -/
def isBreak : Token → Bool
  | .mark .assign | .mark .semicolon | .mark (.update _) => true
  | _ => false

/-- A statement is known by its first word, or else by the first mark that no expression holds. -/
def shapeOf (ts : List Token) : Shape :=
  if ts.head? = some (.word "return") then .ret
  else if ts.head? = some (.word "if") then .conditional
  else if ts.head? = some (.word "for") then .loop
  else
    match ts.find? isBreak with
    | some (.mark (.update _)) => .update
    | _ => .declaration

theorem isBreak_signed {t : Token} (ht : isBreak t = false) (negative : Bool) :
    ∀ u ∈ signed negative t, isBreak u = false := by
  intro u hu
  cases negative with
  | false =>
    obtain rfl := List.mem_singleton.mp hu
    exact ht
  | true =>
    rcases List.mem_cons.mp hu with rfl | hu
    · rfl
    · obtain rfl := List.mem_singleton.mp hu
      exact ht

theorem isBreak_enclosed {opening closing : Mark} {ts : List Token}
    (hopening : isBreak (.mark opening) = false) (hclosing : isBreak (.mark closing) = false)
    (hts : ∀ t ∈ ts, isBreak t = false) : ∀ t ∈ enclosed opening closing ts, isBreak t = false := by
  intro t ht
  simp only [enclosed, List.mem_cons, List.mem_append, List.not_mem_nil, or_false] at ht
  rcases ht with rfl | ht | rfl
  · exact hopening
  · exact hts t ht
  · exact hclosing

theorem isBreak_operand {e : Expr} (he : ∀ t ∈ e.tokens, isBreak t = false) :
    ∀ t ∈ e.operandTokens e.tokens, isBreak t = false := by
  rw [Expr.operandTokens]
  split_ifs
  · exact he
  · exact isBreak_enclosed rfl rfl he

theorem isBreak_separated {es : List Expr} (hes : ∀ e ∈ es, ∀ t ∈ e.tokens, isBreak t = false) :
    ∀ t ∈ separated (tokensOf es), isBreak t = false := by
  induction es with
  | nil => simp [tokensOf, separated]
  | cons e es ih =>
    rw [List.forall_mem_cons] at hes
    cases es with
    | nil => exact hes.1
    | cons e' es =>
      rw [tokensOf, tokensOf, separated, List.forall_mem_append, List.forall_mem_cons]
      exact ⟨hes.1, rfl, ih hes.2⟩

theorem Ty.isBreak_tokens (ty : Ty) : ∀ t ∈ ty.tokens, isBreak t = false := by
  induction ty with
  | pointer element ih =>
    rw [tokens, List.forall_mem_append]
    exact ⟨ih, by simp [isBreak]⟩
  | int | double | void | tuple => simp [tokens, isBreak]

theorem Literal.isBreak_constant (value : Literal) : isBreak value.constant = false := by
  cases value with
  | float value =>
    rw [constant]
    split_ifs <;> rfl
  | int _ | bool _ | str _ => rfl

theorem Expr.isBreak_tokens (e : Expr) : ∀ t ∈ e.tokens, isBreak t = false := by
  induction e with
  | identifier name => simp [tokens, isBreak]
  | literal value => exact isBreak_signed value.isBreak_constant _
  | binary op left right ihl ihr =>
    simp only [tokens, List.forall_mem_append, List.forall_mem_cons]
    exact ⟨isBreak_operand ihl, rfl, isBreak_operand ihr⟩
  | index base index ihb ihi =>
    simp only [tokens, List.forall_mem_append]
    exact ⟨isBreak_operand ihb, isBreak_enclosed rfl rfl ihi⟩
  | call callee args ih =>
    simp only [tokens, List.forall_mem_cons]
    exact ⟨rfl, isBreak_enclosed rfl rfl (isBreak_separated ih)⟩
  | ternary cond thenExpr elseExpr ihc iht ihe =>
    simp only [tokens, List.forall_mem_append, List.forall_mem_cons]
    exact ⟨isBreak_operand ihc, rfl, isBreak_operand iht, rfl, isBreak_operand ihe⟩
  | compound ty elements ih =>
    simp only [tokens, List.forall_mem_append]
    exact ⟨isBreak_enclosed rfl rfl ty.isBreak_tokens,
      isBreak_enclosed rfl rfl (isBreak_separated ih)⟩

/-- The first break is found behind tokens without any. -/
theorem find?_isBreak {ts : List Token} {t : Token} (us : List Token)
    (hts : ∀ t ∈ ts, isBreak t = false) (ht : isBreak t = true) : (ts ++ t :: us).find? isBreak = some t := by
  rw [List.find?_append, List.find?_eq_none.mpr (by simpa using hts), Option.none_or,
    List.find?_cons_of_pos ht]

/-- An expression does not start with a keyword. -/
theorem Expr.head_tokens (e : Expr) (hnames : ∀ x ∈ e.names, isIdentifier x = true) :
    ∃ t us, e.tokens = t :: us ∧ t.starts = true ∧ ∀ x ∈ keywords, t ≠ .word x := by
  obtain ⟨t, us, hts, ht⟩ := e.starts
  refine ⟨t, us, hts, ht, ?_⟩
  rintro x hx rfl
  have hread := (e.read_and_heads fun x hx => notMem_keywords_of_isIdentifier (hnames x hx)).1
    (8 * e.tokens.length + 3) [] (by omega) stops_nil
  rw [hts, List.append_nil, readExpr_keyword hx] at hread
  cases hread

theorem Ty.head_tokens (ty : Ty) :
    ∃ x us, ty.tokens = .word x :: us ∧ x ∈ ["int", "double", "void", "TUPLE"] := by
  induction ty with
  | pointer element ih =>
    obtain ⟨x, us, htokens, hx⟩ := ih
    exact ⟨x, us ++ [.mark (.op .mul)], by rw [tokens, htokens]; rfl, hx⟩
  | int | double | void | tuple => exact ⟨_, [], rfl, by simp⟩

theorem Declaration.head_tokens (d : Declaration) :
    ∃ x us, d.tokens = .word x :: us ∧ x ∈ ["int", "double", "void", "TUPLE"] := by
  obtain ⟨x, us, htokens, hx⟩ := d.ty.head_tokens
  exact ⟨x, _, by rw [tokens, htokens]; rfl, hx⟩

/-- Neither a bracket nor `else` starts a statement. -/
theorem Stmt.head_tokens (s : Stmt) (hnames : ∀ x ∈ s.names, isIdentifier x = true) :
    ∃ t us, s.tokens = t :: us ∧ t ≠ .mark .closeBrace ∧ t ≠ .word "else" := by
  cases s with
  | declaration d =>
    obtain ⟨x, us, htokens, hx⟩ := d.head_tokens
    refine ⟨.word x, _, by rw [tokens, htokens]; rfl, by simp, ?_⟩
    rintro ⟨⟩
    simp at hx
  | update u =>
    rw [names, Update.names, List.forall_mem_append] at hnames
    obtain ⟨t, us, htokens, hstarts, hkeyword⟩ := u.target.head_tokens hnames.1
    refine ⟨t, _, by rw [tokens, Update.tokens, htokens]; rfl, ?_, hkeyword _ (by decide)⟩
    rintro rfl
    cases hstarts
  | conditional cond thenBranch elseBranch => exact ⟨_, _, rfl, by simp, by simp⟩
  | loop init cond next body => exact ⟨_, _, rfl, by simp, by simp⟩
  | ret value =>
    cases value with
    | none => exact ⟨_, _, rfl, by simp, by simp⟩
    | some value => exact ⟨_, _, rfl, by simp, by simp⟩

theorem shapeOf_of_head {ts : List Token} (hret : ts.head? ≠ some (.word "return"))
    (hif : ts.head? ≠ some (.word "if")) (hfor : ts.head? ≠ some (.word "for")) :
    shapeOf ts = match ts.find? isBreak with
      | some (.mark (.update _)) => .update
      | _ => .declaration := by
  rw [shapeOf, if_neg hret, if_neg hif, if_neg hfor]

theorem Declaration.find?_isBreak (d : Declaration) (rest : List Token) :
    ∃ t, (d.tokens ++ .mark .semicolon :: rest).find? isBreak = some t ∧
      (t = .mark .assign ∨ t = .mark .semicolon) := by
  obtain ⟨name, ty, init⟩ := d
  have hty : ∀ t ∈ ty.tokens ++ [.word name], isBreak t = false := by
    rw [List.forall_mem_append]
    exact ⟨ty.isBreak_tokens, by simp [isBreak]⟩
  cases init with
  | none =>
    have hfind := Target.find?_isBreak rest hty (t := .mark .semicolon) rfl
    exact ⟨.mark .semicolon, by simpa [tokens] using hfind, .inr rfl⟩
  | some init =>
    have hfind := Target.find?_isBreak (init.tokens ++ .mark .semicolon :: rest) hty
      (t := .mark .assign) rfl
    exact ⟨.mark .assign, by simpa [tokens] using hfind, .inl rfl⟩

theorem Stmt.shapeOf_tokens (s : Stmt) (hnames : ∀ x ∈ s.names, isIdentifier x = true)
    (rest : List Token) : shapeOf (s.tokens ++ rest) = s.shape := by
  cases s with
  | declaration d =>
    obtain ⟨x, us, htokens, hx⟩ := d.head_tokens
    obtain ⟨t, hfind, ht⟩ := d.find?_isBreak rest
    have hword : ∀ y ∉ ["int", "double", "void", "TUPLE"],
        (d.tokens ++ .mark .semicolon :: rest).head? ≠ some (.word y) := by
      intro y hy
      rw [htokens, List.cons_append, List.head?_cons]
      rintro ⟨⟩
      exact hy hx
    rw [tokens, List.append_assoc, List.singleton_append, shapeOf_of_head (hword _ (by decide))
      (hword _ (by decide)) (hword _ (by decide)), hfind]
    rcases ht with rfl | rfl
    · rfl
    · rfl
  | update u =>
    rw [names, Update.names, List.forall_mem_append] at hnames
    obtain ⟨t, us, htokens, -, hkeyword⟩ := u.target.head_tokens hnames.1
    have hword : ∀ y ∈ keywords, (u.tokens ++ .mark .semicolon :: rest).head? ≠ some (.word y) := by
      intro y hy
      rw [Update.tokens, htokens, List.cons_append, List.cons_append, List.head?_cons, ne_eq,
        Option.some.injEq]
      exact hkeyword y hy
    have hfind : (u.tokens ++ .mark .semicolon :: rest).find? isBreak =
        some (.mark (.update u.operator)) := by
      rw [Update.tokens, List.append_assoc]
      exact find?_isBreak _ u.target.isBreak_tokens rfl
    rw [tokens, List.append_assoc, List.singleton_append, shapeOf_of_head (hword _ (by decide))
      (hword _ (by decide)) (hword _ (by decide)), hfind]
    rfl
  | conditional cond thenBranch elseBranch => rfl
  | loop init cond next body => rfl
  | ret value =>
    cases value with
    | none => rfl
    | some value => rfl

end AnnotatedToC.Target
