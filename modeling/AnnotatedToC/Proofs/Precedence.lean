import AnnotatedToC.Proofs.Normal
import AnnotatedToC.Proofs.Parsed

/-!
# Parentheses and precedence

Operands that are not atoms stand in parentheses, so the text of an expression is read as the
expression, with one exception: the minus of a negative literal is an operator of its own, and a
subscript behind the literal binds more tightly.
-/
namespace AnnotatedToC

open Syntax

/-! ## Reading back -/

/-- The literal of an integer that has 64 bits. -/
def Syntax.intLiteral? (n : Int) : Option Target.Expr :=
  if Int64.minValue.toInt ≤ n ∧ n ≤ Int64.maxValue.toInt then some (.literal (.int (.ofInt n)))
  else none

namespace Syntax

mutual

/-- The expression that a tree stands for. A minus has to belong to a constant, and only names are
called. -/
def Expr.readBack : Expr → Option Target.Expr
  | .name x => some (.identifier x)
  | .integer n => intLiteral? n
  | .neg (.integer n) => intLiteral? (-n)
  | .double m => some (.literal (.float (.ofMagnitude false m)))
  | .neg (.double m) => some (.literal (.float (.ofMagnitude true m)))
  | .neg _ => none
  | .string value => some (.literal (.str value))
  | .binary op left right => return .binary op (← left.readBack) (← right.readBack)
  | .index base index => return .index (← base.readBack) (← index.readBack)
  | .call (.name callee) args => return .call callee (← readBackAll args)
  | .call _ _ => none
  | .ternary cond thenExpr elseExpr =>
    return .ternary (← cond.readBack) (← thenExpr.readBack) (← elseExpr.readBack)
  | .compound ty elements => return .compound ty (← readBackAll elements)

def readBackAll : List Expr → Option (List Target.Expr)
  | [] => some []
  | e :: es => return (← e.readBack) :: (← readBackAll es)

end

end Syntax

namespace Target

def Expr.isNegativeLiteral : Expr → Bool
  | .literal value => value.isNegative
  | _ => false

mutual

/-- Some subscript stands behind a negative literal. -/
def Expr.hasNegativeBase : Expr → Bool
  | .identifier _ | .literal _ => false
  | .binary _ left right => left.hasNegativeBase || right.hasNegativeBase
  | .index base index =>
    base.isNegativeLiteral || base.hasNegativeBase || index.hasNegativeBase
  | .call _ args => anyNegativeBase args
  | .ternary cond thenExpr elseExpr =>
    cond.hasNegativeBase || thenExpr.hasNegativeBase || elseExpr.hasNegativeBase
  | .compound _ elements => anyNegativeBase elements

def anyNegativeBase : List Expr → Bool
  | [] => false
  | e :: es => e.hasNegativeBase || anyNegativeBase es

end

end Target

/-! ## Literals -/

theorem Syntax.intLiteral?_toInt (value : Int64) :
    intLiteral? value.toInt = some (.literal (.int value)) := by
  rw [intLiteral?, if_pos ⟨value.minValue_le_toInt, value.toInt_le⟩, Int64.ofInt_toInt]

theorem Double.isNaN_eq_false_of_isFinite {d : Double} (h : d.isFinite = true) : d.isNaN = false := by
  simp only [Double.isFinite, Double.isNaN, decide_eq_true_eq, decide_eq_false_iff_not] at h ⊢
  omega

namespace Target

theorem Literal.readBack_tree (value : Literal) (hfinite : ∀ d, value = .float d → d.isFinite = true) :
    (Expr.literal value).tree.readBack = some (.literal value.normal) := by
  cases value with
  | int value =>
    rw [normal, ← intLiteral?_toInt]
    rw [Expr.tree, Expr.isNegated, Expr.unsigned, isNegative, unsigned]
    by_cases hneg : value.toInt < 0
    · have habs : -(value.toInt.natAbs : Int) = value.toInt := by omega
      rw [decide_eq_true hneg, Syntax.Expr.negated, if_pos rfl, Syntax.Expr.readBack, habs]
    · have habs : (value.toInt.natAbs : Int) = value.toInt := by omega
      rw [decide_eq_false hneg, Syntax.Expr.negated, if_neg (by simp), Syntax.Expr.readBack, habs]
  | float value =>
    have hvalue := hfinite value rfl
    have hnan := Double.isNaN_eq_false_of_isFinite hvalue
    have hround := value.ofMagnitude_magnitude
    simp only [Expr.tree, Expr.isNegated, Expr.unsigned, isNegative, unsigned, normal, hnan, hvalue]
    cases hneg : value.isNegative with
    | false =>
      rw [hneg] at hround
      simp [Syntax.Expr.negated, Syntax.Expr.readBack, hround]
    | true =>
      rw [hneg] at hround
      simp [Syntax.Expr.negated, Syntax.Expr.readBack, hround]
  | bool value => cases value <;> rfl
  | str value => rfl

/-! ## Expressions -/

/-- What the text of an expression is read back as. -/
def Expr.seenAs (e : Expr) : Option Expr := if e.hasNegativeBase then none else some e.normal

theorem Expr.hasNegativeBase_of_isNegated {base : Expr} (index : Expr)
    (h : base.isNegated = true) : (Expr.index base index).hasNegativeBase = true := by
  induction base generalizing index with
  | literal value =>
    rw [isNegated] at h
    simp [hasNegativeBase, isNegativeLiteral, h]
  | index base index' ih _ =>
    rw [isNegated] at h
    rw [hasNegativeBase, ih index' h, Bool.or_true, Bool.true_or]
  | identifier _ | binary _ _ _ | call _ _ | ternary _ _ _ | compound _ _ => cases h

theorem Expr.isNegativeLiteral_of_not_isNegated {e : Expr} (h : e.isNegated = false) :
    e.isNegativeLiteral = false := by
  cases e with
  | literal value => exact h
  | identifier _ | binary _ _ _ | index _ _ | call _ _ | ternary _ _ _ | compound _ _ => rfl

theorem readBackAll_treesOf {es : List Expr} (hes : ∀ e ∈ es, e.tree.readBack = e.seenAs) :
    readBackAll (treesOf es) = if anyNegativeBase es then none else some (normalOf es) := by
  induction es with
  | nil => rfl
  | cons e es ih =>
    rw [List.forall_mem_cons] at hes
    rw [treesOf_cons, readBackAll, hes.1, ih hes.2, Expr.seenAs, anyNegativeBase]
    cases e.hasNegativeBase <;> cases anyNegativeBase es <;> rfl

theorem Expr.readBack_tree (e : Expr) (hfinite : ∀ d ∈ e.floats, d.isFinite = true) :
    e.tree.readBack = e.seenAs := by
  induction e with
  | identifier name => rfl
  | literal value =>
    refine value.readBack_tree fun d hd => hfinite d ?_
    subst hd
    simp [floats]
  | binary op left right ihl ihr =>
    rw [floats, List.forall_mem_append] at hfinite
    rw [tree_binary, Syntax.Expr.readBack, ihl hfinite.1, ihr hfinite.2]
    cases hl : left.hasNegativeBase <;> cases hr : right.hasNegativeBase <;>
      simp [seenAs, hasNegativeBase, normal, hl, hr]
  | index base index ihb ihi =>
    rw [floats, List.forall_mem_append] at hfinite
    cases hneg : base.isNegated with
    | true =>
      rw [seenAs, if_pos (hasNegativeBase_of_isNegated index hneg), tree_index_of_isNegated hneg]
      rfl
    | false =>
      rw [tree_index hneg, Syntax.Expr.readBack, ihb hfinite.1, ihi hfinite.2]
      have hliteral := isNegativeLiteral_of_not_isNegated hneg
      cases hb : base.hasNegativeBase <;> cases hi : index.hasNegativeBase <;>
        simp [seenAs, hasNegativeBase, normal, hliteral, hb, hi]
  | call callee args ih =>
    have hargs := readBackAll_treesOf fun e he =>
      ih e he fun d hd => hfinite d (mem_floatsOf.mpr ⟨e, he, hd⟩)
    rw [tree_call, Syntax.Expr.readBack, hargs]
    cases ha : anyNegativeBase args <;> simp [seenAs, hasNegativeBase, normal, ha]
  | ternary cond thenExpr elseExpr ihc iht ihe =>
    rw [floats, List.forall_mem_append, List.forall_mem_append] at hfinite
    rw [tree_ternary, Syntax.Expr.readBack, ihc hfinite.1, iht hfinite.2.1, ihe hfinite.2.2]
    cases hc : cond.hasNegativeBase <;> cases ht : thenExpr.hasNegativeBase <;>
      cases he : elseExpr.hasNegativeBase <;> simp [seenAs, hasNegativeBase, normal, hc, ht, he]
  | compound ty elements ih =>
    have helements := readBackAll_treesOf fun e he =>
      ih e he fun d hd => hfinite d (mem_floatsOf.mpr ⟨e, he, hd⟩)
    rw [tree_compound, Syntax.Expr.readBack, helements]
    cases ha : anyNegativeBase elements <;> simp [seenAs, hasNegativeBase, normal, ha]

/-- The text of an expression is read as the expression exactly if no subscript stands behind a
negative literal. -/
theorem Expr.precedence_kept_iff (e : Expr) (hnames : ∀ x ∈ e.names, isIdentifier x = true)
    (hfinite : ∀ d ∈ e.floats, d.isFinite = true) :
    (parse e.text).bind Syntax.Expr.readBack = some e.normal ↔ e.hasNegativeBase = false := by
  rw [e.parse_text hnames, Option.bind_some, e.readBack_tree hfinite, seenAs]
  cases e.hasNegativeBase <;> simp

/-- `(a + -2) < (f(x[-1], -0.5) * 3)` is read as it stands and `-5[0]` is not. -/
theorem Expr.precedence_kept_iff_minus :
    let sum := Expr.binary .add (.identifier "a") (.literal (.int (-2)))
    let product := Expr.binary .mul
      (.call "f" [.index (.identifier "x") (.literal (.int (-1))),
        .literal (.float ⟨0xBFE0000000000000⟩)])
      (.literal (.int 3))
    let kept := Expr.binary .lt sum product
    let unkept := Expr.index (.literal (.int (-5))) (.literal (.int 0))
    (parse kept.text).bind Syntax.Expr.readBack = some kept.normal ∧
      (parse unkept.text).bind Syntax.Expr.readBack ≠ some unkept.normal := by
  intro sum product kept unkept
  have hkept : ∀ x ∈ kept.names, isIdentifier x = true := by decide
  have hunkept : ∀ x ∈ unkept.names, isIdentifier x = true := by decide
  refine ⟨(Expr.precedence_kept_iff kept hkept (by decide)).mpr rfl, ?_⟩
  rw [ne_eq, Expr.precedence_kept_iff unkept hunkept (by decide)]
  decide

end Target

end AnnotatedToC
