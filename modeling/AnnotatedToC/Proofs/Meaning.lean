import AnnotatedToC.Proofs.Lowered
import Mathlib.Tactic.Common

/-!
# The meaning of expressions

A `Meaning` interprets the primitives that both languages share: literals, operators, calls by name,
elements, tuples and truth. Primitives act on a memory, which is everything outside the variables, and
they may fail. Evaluation goes from left to right. Expressions read the variables and never change them,
so an environment is all that an expression needs, and a lowered expression means what it meant before
in every environment.
-/
namespace AnnotatedToC

structure Meaning where
  Value : Type
  Memory : Type
  literal : Source.Literal → StateT Memory Option Value
  operator : Source.Operator → Value → Value → StateT Memory Option Value
  less : Value → Value → StateT Memory Option Value
  call : String → List Value → StateT Memory Option Value
  element : Value → Value → StateT Memory Option Value
  setElement : Value → Value → Value → StateT Memory Option Unit
  tuple : List Value → StateT Memory Option Value
  truth : Value → StateT Memory Option Bool
  /-- The values that are integers. Ranges count in these. -/
  integer? : Value → Option Int
  ofInteger : Int → Value

namespace Meaning

/-- A computation over the memory, which may fail. -/
abbrev Effect (M : Meaning) (α : Type) := StateT M.Memory Option α

abbrev Env (M : Meaning) := String → Option M.Value

variable {M : Meaning} {α β : Type}

def stuck : M.Effect α := fun _ => none

/-- What is there, or failure. -/
def demand (a : Option α) : M.Effect α := fun memory => a.map (·, memory)

theorem bind_eq_some {x : M.Effect α} {f : α → M.Effect β} {memory : M.Memory}
    {r : β × M.Memory} :
    (x >>= f) memory = some r ↔
      ∃ a memory', x memory = some (a, memory') ∧ f a memory' = some r := by
  change (x memory).bind (fun p => f p.1 p.2) = some r ↔ _
  rw [Option.bind_eq_some_iff]
  exact Prod.exists

theorem bind_of_eq_some {x : M.Effect α} {f : α → M.Effect β} {memory memory' : M.Memory} {a : α}
    (h : x memory = some (a, memory')) : (x >>= f) memory = f a memory' := by
  change (x memory).bind (fun p => f p.1 p.2) = f a memory'
  rw [h, Option.bind_some]

theorem bind_of_eq_none {x : M.Effect α} {f : α → M.Effect β} {memory : M.Memory}
    (h : x memory = none) : (x >>= f) memory = none := by
  change (x memory).bind (fun p => f p.1 p.2) = none
  rw [h, Option.bind_none]

theorem pure_eq_some {a : α} {memory : M.Memory} {r : α × M.Memory} :
    (pure a : M.Effect α) memory = some r ↔ r = (a, memory) := by
  change some (a, memory) = some r ↔ _
  rw [Option.some.injEq, eq_comm]

theorem demand_eq_some {a : Option α} {v : α} {memory memory' : M.Memory} :
    (demand a : M.Effect α) memory = some (v, memory') ↔ a = some v ∧ memory' = memory := by
  cases a with
  | none => simp [demand]
  | some a =>
    simp only [demand, Option.map_some, Option.some.injEq, Prod.mk.injEq]
    exact and_congr_right fun _ => eq_comm

theorem stuck_ne_some {memory : M.Memory} {r : α × M.Memory} :
    (stuck : M.Effect α) memory ≠ some r := by
  simp [stuck]

/-- Wherever the first computation has a result, the second one has the same. -/
def Refines (x y : M.Effect α) : Prop := ∀ memory r, x memory = some r → y memory = some r

theorem Refines.refl (x : M.Effect α) : Refines x x := fun _ _ h => h

theorem Refines.bind {x y : M.Effect α} {f g : α → M.Effect β} (hxy : Refines x y)
    (hfg : ∀ a, Refines (f a) (g a)) : Refines (x >>= f) (y >>= g) := by
  intro memory r h
  obtain ⟨a, memory', hx, hf⟩ := bind_eq_some.mp h
  exact bind_eq_some.mpr ⟨a, memory', hxy memory _ hx, hfg a memory' r hf⟩

/-- The first computation if the test holds, else the second. -/
def branch (test : M.Effect M.Value) (x y : M.Effect α) : M.Effect α := do
  if ← M.truth (← test) then x else y

theorem branch_eq_some {test : M.Effect M.Value} {x y : M.Effect α} {memory : M.Memory}
    {r : α × M.Memory} :
    branch test x y memory = some r ↔
      (∃ memory₁, (test >>= M.truth) memory = some (true, memory₁) ∧ x memory₁ = some r) ∨
      ∃ memory₁, (test >>= M.truth) memory = some (false, memory₁) ∧ y memory₁ = some r := by
  rw [branch, ← bind_assoc, bind_eq_some]
  constructor
  · rintro ⟨b, memory₁, htest, h⟩
    cases b with
    | true => exact .inl ⟨memory₁, htest, h⟩
    | false => exact .inr ⟨memory₁, htest, h⟩
  · rintro (⟨memory₁, htest, h⟩ | ⟨memory₁, htest, h⟩)
    · exact ⟨true, memory₁, htest, h⟩
    · exact ⟨false, memory₁, htest, h⟩

theorem Refines.branch {test test' : M.Effect M.Value} {x y x' y' : M.Effect α}
    (htest : Refines test test') (hx : Refines x x') (hy : Refines y y') :
    Refines (Meaning.branch test x y) (Meaning.branch test' x' y') := by
  refine .bind htest fun _ => .bind (.refl _) fun b => ?_
  cases b
  · exact hy
  · exact hx

/-- The new value of what is updated by an operator. -/
def updated (op : M.Value → M.Value → M.Effect M.Value) (old value : M.Effect M.Value) :
    M.Effect M.Value := do op (← old) (← value)

/-- The update of an element. -/
def updateElement (op : M.Value → M.Value → M.Effect M.Value) (array place value : M.Effect M.Value) :
    M.Effect Unit := do
  let a ← array
  let i ← place
  M.setElement a i (← updated op (M.element a i) value)

theorem Refines.updated (op : M.Value → M.Value → M.Effect M.Value)
    {old old' value value' : M.Effect M.Value} (hold : Refines old old')
    (hvalue : Refines value value') :
    Refines (Meaning.updated op old value) (Meaning.updated op old' value') :=
  .bind hold fun _ => .bind hvalue fun _ => .refl _

theorem Refines.updateElement (op : M.Value → M.Value → M.Effect M.Value)
    {array array' place place' value value' : M.Effect M.Value} (harray : Refines array array')
    (hplace : Refines place place') (hvalue : Refines value value') :
    Refines (Meaning.updateElement op array place value)
      (Meaning.updateElement op array' place' value') :=
  .bind harray fun _ => .bind hplace fun _ =>
    .bind (.updated op (.refl _) hvalue) fun _ => .refl _

theorem Refines.demand {a b : Option α} (h : ∀ v, a = some v → b = some v) :
    Refines (Meaning.demand a : M.Effect α) (Meaning.demand b) := by
  rintro memory ⟨v, memory'⟩ hr
  obtain ⟨ha, hm⟩ := demand_eq_some.mp hr
  exact demand_eq_some.mpr ⟨h v ha, hm⟩

end Meaning

variable (M : Meaning)

section Source

variable (env : M.Env)

mutual

def Source.Expr.eval : Source.Expr → M.Effect M.Value
  | .constant _ value => M.literal value
  | .name _ id => Meaning.demand (env id)
  | .binary _ op left right => do M.operator op (← left.eval) (← right.eval)
  | .subscript _ value index => do M.element (← value.eval) (← index.eval)
  | .call _ func args => do M.call func (← Source.evals args)
  | .conditional _ test body orelse => Meaning.branch test.eval body.eval orelse.eval
  | .tuple _ elements => do M.tuple (← Source.evals elements)
  | .unsupported _ _ => Meaning.stuck

def Source.evals : List Source.Expr → M.Effect (List M.Value)
  | [] => pure []
  | e :: es => do return (← e.eval) :: (← Source.evals es)

end

/-- What is returned. Returning the none literal is returning nothing. -/
def Source.evalReturn : Option Source.Expr → M.Effect (Option M.Value)
  | none | some (.constant _ .null) => return none
  | some e => do return some (← e.eval M env)

end Source

def Target.Literal.meaning : Target.Literal → M.Effect M.Value
  | .int value => M.literal (.int value)
  | .float value => M.literal (.float value)
  | .bool value => M.literal (.bool value)
  | .str value => M.literal (.str value)

def Target.Operator.meaning : Target.Operator → M.Value → M.Value → M.Effect M.Value
  | .add => M.operator .add
  | .sub => M.operator .sub
  | .mul => M.operator .mult
  | .div => M.operator .div
  | .lt => M.less

section Target

variable (env : M.Env)

mutual

def Target.Expr.eval : Target.Expr → M.Effect M.Value
  | .identifier name => Meaning.demand (env name)
  | .literal value => value.meaning M
  | .binary op left right => do op.meaning M (← left.eval) (← right.eval)
  | .index base index => do M.element (← base.eval) (← index.eval)
  | .call callee args => do M.call callee (← Target.evals args)
  | .ternary cond thenExpr elseExpr => Meaning.branch cond.eval thenExpr.eval elseExpr.eval
  | .compound _ elements => do M.tuple (← Target.evals elements)

def Target.evals : List Target.Expr → M.Effect (List M.Value)
  | [] => pure []
  | e :: es => do return (← e.eval) :: (← Target.evals es)

end

def Target.evalReturn : Option Target.Expr → M.Effect (Option M.Value)
  | none => return none
  | some e => do return some (← e.eval M env)

end Target

theorem meaning_lowerLiteral {line : Source.LineNumber} {value : Source.Literal}
    {v : Target.Literal} (h : lowerLiteral line value = .ok v) : v.meaning M = M.literal value := by
  cases value <;> cases h <;> rfl

theorem meaning_lowerOperator {line : Source.LineNumber} {op : Source.Operator}
    {op' : Target.Operator} (h : lowerOperator line op = .ok op') :
    op'.meaning M = M.operator op := by
  cases op <;> cases h <;> rfl

/-- Every value of the first environment is there in the second. -/
def EnvLe (env env' : M.Env) : Prop := ∀ x v, env x = some v → env' x = some v

theorem evals_mono {env env' : M.Env} {es : List Source.Expr}
    (hes : ∀ e ∈ es, Meaning.Refines (e.eval M env) (e.eval M env')) :
    Meaning.Refines (Source.evals M env es) (Source.evals M env' es) := by
  induction es with
  | nil => exact .refl _
  | cons e es ih =>
    rw [List.forall_mem_cons] at hes
    exact .bind hes.1 fun _ => .bind (ih hes.2) fun _ => .refl _

/-- With more variables an expression keeps the value that it has. -/
theorem eval_mono {env env' : M.Env} (h : EnvLe M env env') (e : Source.Expr) :
    Meaning.Refines (e.eval M env) (e.eval M env') := by
  induction e with
  | constant line value => exact .refl _
  | name line id => exact .demand (h id)
  | binary line op left right ihl ihr => exact .bind ihl fun _ => .bind ihr fun _ => .refl _
  | subscript line value index ihv ihi => exact .bind ihv fun _ => .bind ihi fun _ => .refl _
  | call line func args ih => exact .bind (evals_mono M ih) fun _ => .refl _
  | conditional line test body orelse iht ihb iho => exact .branch iht ihb iho
  | tuple line elements ih => exact .bind (evals_mono M ih) fun _ => .refl _
  | unsupported line construct => exact .refl _

theorem evalReturn_mono {env env' : M.Env} (h : EnvLe M env env') (value : Option Source.Expr) :
    Meaning.Refines (Source.evalReturn M env value) (Source.evalReturn M env' value) := by
  rw [Source.evalReturn.eq_def, Source.evalReturn.eq_def]
  split
  · exact .refl _
  · exact .refl _
  · exact .bind (eval_mono M h _) fun _ => .refl _

/-- Lists mean what they meant before if their members do. -/
theorem evals_lowerExprs (env : M.Env) {es : List Source.Expr}
    (hes : ∀ e ∈ es, ∀ expected t, lowerExpr expected e = .ok t → t.eval M env = e.eval M env)
    {ts : List Target.Expr} (h : lowerExprs es = .ok ts) :
    Target.evals M env ts = Source.evals M env es := by
  induction es generalizing ts with
  | nil =>
    obtain rfl := lowerExprs_nil_eq_ok.mp h
    rfl
  | cons e es ih =>
    obtain ⟨t, ht, ts, hts, rfl⟩ := lowerExprs_cons_eq_ok.mp h
    rw [List.forall_mem_cons] at hes
    simp only [Source.evals, Target.evals, hes.1 none t ht, ih hes.2 hts]

/-- A lowered expression means what it meant before, whatever type was expected of it. -/
theorem eval_lowerExpr (env : M.Env) (e : Source.Expr) (expected : Option Target.Ty)
    (t : Target.Expr) (h : lowerExpr expected e = .ok t) : t.eval M env = e.eval M env := by
  induction e generalizing expected t with
  | constant line value =>
    obtain ⟨v, hv, rfl⟩ := lowerExpr_constant_eq_ok.mp h
    simp only [Source.Expr.eval, Target.Expr.eval, meaning_lowerLiteral M hv]
  | name line id =>
    obtain rfl := lowerExpr_name_eq_ok.mp h
    simp only [Source.Expr.eval, Target.Expr.eval]
  | binary line op left right ihl ihr =>
    obtain ⟨op', hop, l, hl, r, hr, rfl⟩ := lowerExpr_binary_eq_ok.mp h
    simp only [Source.Expr.eval, Target.Expr.eval, meaning_lowerOperator M hop, ihl none l hl,
      ihr none r hr]
  | subscript line value index ihv ihi =>
    obtain ⟨v, hv, i, hi, rfl⟩ := lowerExpr_subscript_eq_ok.mp h
    simp only [Source.Expr.eval, Target.Expr.eval, ihv none v hv, ihi none i hi]
  | call line func args ih =>
    obtain ⟨args', hargs, rfl⟩ := lowerExpr_call_eq_ok.mp h
    simp only [Source.Expr.eval, Target.Expr.eval, evals_lowerExprs M env ih hargs]
  | conditional line test body orelse iht ihb iho =>
    obtain ⟨c, hc, b, hb, o, ho, rfl⟩ := lowerExpr_conditional_eq_ok.mp h
    simp only [Source.Expr.eval, Target.Expr.eval, iht none c hc, ihb expected b hb,
      iho expected o ho]
  | tuple line elements ih =>
    obtain ⟨ty, -, es, hes, rfl⟩ := lowerExpr_tuple_eq_ok.mp h
    simp only [Source.Expr.eval, Target.Expr.eval, evals_lowerExprs M env ih hes]
  | unsupported line construct => exact absurd h lowerExpr_unsupported_ne_ok

theorem evalReturn_lowerReturn (env : M.Env) {expected : Option Target.Ty}
    {value : Option Source.Expr} {v : Option Target.Expr}
    (h : lowerReturn expected value = .ok v) :
    Target.evalReturn M env v = Source.evalReturn M env value := by
  rcases lowerReturn_eq_ok.mp h with ⟨hvalue, rfl⟩ | ⟨e, rfl, hnull, e', he, rfl⟩
  · rcases hvalue with rfl | ⟨l, rfl⟩ <;> rfl
  · rw [Target.evalReturn, eval_lowerExpr M env e expected e' he, Source.evalReturn.eq_3 M env e]
    intro l hl
    exact hnull l hl

end AnnotatedToC
