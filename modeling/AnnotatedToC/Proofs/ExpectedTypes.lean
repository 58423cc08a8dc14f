import AnnotatedToC.Proofs.WellFormed

/-!
# Expected types

The type that is expected of an expression reaches only the tuples in its tail, where it becomes the type
of the compound literal. A void type is no better than none, an expression that needs no type is lowered
alike under every type, and under two types that are not void the results differ in those literals alone.
-/
namespace AnnotatedToC

namespace Target

/-- The expression with the type of its compound literals changed where they are its value. -/
def Expr.retypeTail (old new : Ty) : Expr → Expr
  | .ternary cond thenExpr elseExpr =>
    .ternary cond (thenExpr.retypeTail old new) (elseExpr.retypeTail old new)
  | .compound ty elements => .compound (if ty = old then new else ty) elements
  | e => e

end Target

open Source (LineNumber)

section Steps

variable {ε α α' β γ : Type} {x : Except ε α} {f : α → Except ε β} {g : β → γ}

/-- The result changes with that of the first step. -/
theorem map_bind_eq {x' : Except ε α'} {f' : α' → Except ε γ} {h : α → α'} (hx : x.map h = x')
    (hf : ∀ a, (f a).map g = f' (h a)) : (x >>= f).map g = x' >>= f' := by
  subst hx
  cases x with
  | error e => rfl
  | ok a => exact hf a

/-- The result changes after the first step. -/
theorem map_bind_congr {f' : α → Except ε γ} (hf : ∀ a, (f a).map g = f' a) :
    (x >>= f).map g = x >>= f' := by
  cases x with
  | error e => rfl
  | ok a => exact hf a

end Steps

/-- Expecting a void value is expecting nothing. -/
theorem lowerExpr_some_void (e : Source.Expr) : lowerExpr (some .void) e = lowerExpr none e := by
  induction e with
  | conditional line test body orelse iht ihb iho =>
    rw [lowerExpr, lowerExpr, ihb, iho]
  | _ => rfl

/-- What is lowered without an expected type is lowered alike whatever is expected. -/
theorem lowerExpr_some_of_none {e : Source.Expr} {t : Target.Expr} (h : lowerExpr none e = .ok t)
    (ty : Target.Ty) : lowerExpr (some ty) e = .ok t := by
  induction e generalizing t with
  | conditional line test body orelse iht ihb iho =>
    obtain ⟨c, hc, b, hb, o, ho, rfl⟩ := lowerExpr_conditional_eq_ok.mp h
    exact lowerExpr_conditional_eq_ok.mpr ⟨c, hc, b, ihb hb, o, iho ho, rfl⟩
  | tuple line elements ih =>
    -- a tuple is not lowered without a type
    obtain ⟨ty', hty, -⟩ := lowerExpr_tuple_eq_ok.mp h
    cases hty
  | _ => exact h

theorem map_retypeTail_of_fixed {old new : Target.Ty} {x : Lowered Target.Expr}
    (h : ∀ t, x = .ok t → t.retypeTail old new = t) : x.map (Target.Expr.retypeTail old new) = x := by
  cases x with
  | error e => rfl
  | ok t => rw [Except.map, h t rfl]

theorem tupleType_of_ne_void {ty : Target.Ty} (h : ty ≠ .void) (line : LineNumber) :
    tupleType line (some ty) = .ok ty := by
  cases ty with
  | void => exact absurd rfl h
  | _ => rfl

/-- Under another type that is not void an expression is lowered to the retyped expression, and it fails
with the same error. -/
theorem map_retypeTail_lowerExpr {old new : Target.Ty} (hold : old ≠ .void) (hnew : new ≠ .void)
    (e : Source.Expr) :
    (lowerExpr (some old) e).map (Target.Expr.retypeTail old new) = lowerExpr (some new) e := by
  induction e with
  | constant line value =>
    refine map_retypeTail_of_fixed fun t ht => ?_
    obtain ⟨v, -, rfl⟩ := lowerExpr_constant_eq_ok.mp ht
    rfl
  | name line id => rfl
  | binary line op left right ihl ihr =>
    refine map_retypeTail_of_fixed fun t ht => ?_
    obtain ⟨op', -, l, -, r, -, rfl⟩ := lowerExpr_binary_eq_ok.mp ht
    rfl
  | subscript line value index ihv ihi =>
    refine map_retypeTail_of_fixed fun t ht => ?_
    obtain ⟨v, -, i, -, rfl⟩ := lowerExpr_subscript_eq_ok.mp ht
    rfl
  | call line func args ih =>
    refine map_retypeTail_of_fixed fun t ht => ?_
    obtain ⟨ts, -, rfl⟩ := lowerExpr_call_eq_ok.mp ht
    rfl
  | conditional line test body orelse iht ihb iho =>
    exact map_bind_congr fun c => map_bind_eq ihb fun b => map_bind_eq iho fun o => rfl
  | tuple line elements ih =>
    rw [lowerExpr, lowerExpr, tupleType_of_ne_void hold, tupleType_of_ne_void hnew]
    refine map_bind_congr (x := lowerExprs elements) fun ts => ?_
    have hliteral : (Target.Expr.compound old ts).retypeTail old new = .compound new ts := by
      rw [Target.Expr.retypeTail, if_pos rfl]
    exact congrArg Except.ok hliteral
  | unsupported line construct => rfl

/-- A compound literal that is the value of a lowered expression has the type that was expected. -/
theorem ty_of_tail_compound {e : Source.Expr} {expected ty : Target.Ty} {t : Target.Expr}
    {elements : List Target.Expr} (h : lowerExpr (some expected) e = .ok t)
    (hx : Occurs Target.Expr.parts .tail (.compound ty elements) t) : ty = expected := by
  obtain ⟨-, hty, -⟩ := wellFormed_lowerExpr h _ _ hx
  exact (Option.some.inj hty).symm

/-- The expected type of an expression matters for the tuples in its tail and for nothing else. -/
theorem lowerExpr_expected (e : Source.Expr) :
    lowerExpr (some .void) e = lowerExpr none e ∧
      (∀ t, lowerExpr none e = .ok t → ∀ ty, lowerExpr (some ty) e = .ok t) ∧
      ∀ ty₁ ty₂, ty₁ ≠ .void → ty₂ ≠ .void →
        (∃ error, lowerExpr (some ty₁) e = .error error ∧ lowerExpr (some ty₂) e = .error error) ∨
        ∃ t₁ t₂, lowerExpr (some ty₁) e = .ok t₁ ∧ lowerExpr (some ty₂) e = .ok t₂ ∧
          t₁.retypeTail ty₁ ty₂ = t₂ ∧
          (∀ ty elements, Occurs Target.Expr.parts .tail (.compound ty elements) t₁ → ty = ty₁) ∧
          ∀ ty elements, Occurs Target.Expr.parts .tail (.compound ty elements) t₂ → ty = ty₂ := by
  refine ⟨lowerExpr_some_void e, fun t ht ty => lowerExpr_some_of_none ht ty, ?_⟩
  intro ty₁ ty₂ hty₁ hty₂
  have hretyped := map_retypeTail_lowerExpr hty₁ hty₂ e
  cases h : lowerExpr (some ty₁) e with
  | error error =>
    rw [h] at hretyped
    exact .inl ⟨error, rfl, hretyped.symm⟩
  | ok t =>
    rw [h] at hretyped
    have hnew : lowerExpr (some ty₂) e = .ok (t.retypeTail ty₁ ty₂) := hretyped.symm
    exact .inr ⟨t, _, rfl, hnew, rfl, fun ty elements hx => ty_of_tail_compound h hx,
      fun ty elements hx => ty_of_tail_compound hnew hx⟩

/-- A tuple in one branch, beside a call that is lowered alike whatever is expected. -/
def branchingPair : Source.Expr :=
  .conditional 1 (.name 1 "c") (.tuple 2 [.name 2 "x", .constant 2 (.int 1)])
    (.call 3 "swap" [.name 3 "p"])

theorem lowerExpr_expected_branchingPair :
    Target.Ty.double ≠ .void ∧ Target.Ty.tuple ≠ .void ∧
      (∃ t₁ t₂, lowerExpr (some .double) branchingPair = .ok t₁ ∧
        lowerExpr (some .tuple) branchingPair = .ok t₂ ∧ t₁.retypeTail .double .tuple = t₂) ∧
      lowerExpr (some .tuple) (.call 3 "swap" [.name 3 "p"]) = .ok (.call "swap" [.identifier "p"]) := by
  have hdouble : Target.Ty.double ≠ .void := by decide
  have htuple : Target.Ty.tuple ≠ .void := by decide
  refine ⟨hdouble, htuple, ?_, (lowerExpr_expected (.call 3 "swap" [.name 3 "p"])).2.1 _ rfl .tuple⟩
  rcases (lowerExpr_expected branchingPair).2.2 .double .tuple hdouble htuple with
    ⟨error, herror, -⟩ | ⟨t₁, t₂, h₁, h₂, hretyped, -⟩
  · cases herror
  · exact ⟨t₁, t₂, h₁, h₂, hretyped⟩

end AnnotatedToC
