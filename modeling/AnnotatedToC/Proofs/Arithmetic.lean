import AnnotatedToC.Proofs.Meaning
import AnnotatedToC.Proofs.Recovered
import AnnotatedToC.Proofs.Rounding

/-!
# Arithmetic

The value of a source expression and that of the lowered one, in exact arithmetic. Sums, differences and
products are the same on both sides. A quotient of the source is exact, and one of C is truncated where
both operands are of type `int`, which lowering does not look at.
-/
namespace AnnotatedToC

/-- The numbers of both languages: integers, and floats without rounding. -/
inductive Number
  | int (n : Int)
  | float (q : ℚ)
  deriving DecidableEq

namespace Number

def toRat : Number → ℚ
  | .int n => n
  | .float q => q

def ty : Number → Target.Ty
  | .int _ => .int
  | .float _ => .double

/-- The operation on integers where both numbers are, and otherwise the one on floats. -/
def lift (onInts : Int → Int → Int) (onFloats : ℚ → ℚ → ℚ) : Number → Number → Number
  | .int m, .int n => .int (onInts m n)
  | a, b => .float (onFloats a.toRat b.toRat)

/-- The quotient of the source. -/
def quotient (a b : Number) : Number := .float (a.toRat / b.toRat)

/-- The quotient of C. Between integers it is truncated toward zero. -/
def truncated : Number → Number → Number := lift Int.tdiv (· / ·)

/-- The operators that both languages have, which differ in their quotients. -/
def apply (divide : Number → Number → Number) : Source.Operator → Number → Number → Option Number
  | .add, a, b => some (lift (· + ·) (· + ·) a b)
  | .sub, a, b => some (lift (· - ·) (· - ·) a b)
  | .mult, a, b => some (lift (· * ·) (· * ·) a b)
  | .div, a, b => if b.toRat = 0 then none else some (divide a b)
  | _, _, _ => none

/-- The number as one of the type. -/
def convert : Target.Ty → Number → Number
  | .int, v => v
  | _, v => .float v.toRat

end Number

/-- The value of a double that has one. -/
def Double.toRat? (d : Double) : Option ℚ :=
  if d.isFinite then
    some (if d.isNegative then -(value d.magnitude).toRat else (value d.magnitude).toRat)
  else none

/-- The type of a result whose operands or branches are of the given types. -/
def Target.Ty.common (a b : Ty) : Ty := if a = .int ∧ b = .int then .int else .double

namespace Source

def Literal.number? : Literal → Option Number
  | .int n => some (.int n.toInt)
  | .float d => d.toRat?.map .float
  | _ => none

/-- The arithmetic of the source. All numbers but zero are true. -/
abbrev numbers : Meaning where
  Value := Number
  Memory := Unit
  literal value := StateT.lift value.number?
  operator op a b := StateT.lift (Number.apply Number.quotient op a b)
  less _ _ := StateT.lift none
  call _ _ := StateT.lift none
  element _ _ := StateT.lift none
  setElement _ _ _ := StateT.lift none
  tuple _ := StateT.lift none
  truth v := return v.toRat ≠ 0
  integer? _ := none
  ofInteger := .int

/-- The value of an expression of the source. -/
def Expr.number? (vars : String → Option Number) (e : Expr) : Option Number :=
  (e.eval numbers vars ()).map Prod.fst

/-- The expression and everything in it that is evaluated with it. -/
def Expr.evaluated (vars : String → Option Number) : Expr → List Expr
  | e@(.binary _ _ left right) => e :: (left.evaluated vars ++ right.evaluated vars)
  | e@(.conditional _ test body orelse) =>
    e :: (test.evaluated vars ++ (test.number? vars).elim [] fun v =>
      if v.toRat = 0 then orelse.evaluated vars else body.evaluated vars)
  | e => [e]

/-- An expression of numbers, with the annotations of its variables. -/
def Expr.IsArithmetic (declared : String → Option Hint) : Expr → Prop
  | .constant _ (.int _) | .constant _ (.float _) => True
  | .name _ x => declared x = some (.name "int") ∨ declared x = some (.name "float")
  | .binary _ _ left right => left.IsArithmetic declared ∧ right.IsArithmetic declared
  | .conditional _ test body orelse =>
    test.IsArithmetic declared ∧ body.IsArithmetic declared ∧ orelse.IsArithmetic declared
  | _ => False

end Source

namespace Target

variable (types : String → Option Ty) (vars : String → Option Number)

/-- The type that an arithmetic expression has in C. -/
def Expr.ty? : Expr → Option Ty
  | .identifier x => types x
  | .literal (.int _) => some .int
  | .literal (.float _) => some .double
  | .binary _ left right => do return .common (← left.ty?) (← right.ty?)
  | .ternary _ thenExpr elseExpr => do return .common (← thenExpr.ty?) (← elseExpr.ty?)
  | _ => none

/-- The value of an expression of C. Whichever branch is taken, its value becomes one of the type of
both branches. -/
def Expr.number? : Expr → Option Number
  | .identifier x => vars x
  | .literal value => value.source.number?
  | .binary op left right => do
    Number.apply Number.truncated (← op.source?) (← left.number?) (← right.number?)
  | .ternary cond thenExpr elseExpr => do
    let ty := Ty.common (← thenExpr.ty? types) (← elseExpr.ty? types)
    let test ← cond.number?
    (if test.toRat = 0 then elseExpr.number? else thenExpr.number?).map (Number.convert ty)
  | _ => none

end Target

/-! ## Operators -/

namespace Number

theorem toRat_lift {onInts : Int → Int → Int} {onFloats : ℚ → ℚ → ℚ}
    (h : ∀ m n : Int, (onInts m n : ℚ) = onFloats m n) (a b : Number) :
    (lift onInts onFloats a b).toRat = onFloats a.toRat b.toRat := by
  cases a with
  | int m =>
    cases b with
    | int n => exact h m n
    | float q => rfl
  | float q => rfl

theorem ty_lift (onInts : Int → Int → Int) (onFloats : ℚ → ℚ → ℚ) (a b : Number) :
    (lift onInts onFloats a b).ty = .common a.ty b.ty := by
  cases a <;> cases b <;> rfl

/-- A truncated quotient is exact if and only if the exact one is an integer. -/
theorem cast_tdiv_eq_iff {m n : Int} (hn : (n : ℚ) ≠ 0) :
    ((m.tdiv n : Int) : ℚ) = m / n ↔ ∃ k : Int, (m / n : ℚ) = k := by
  constructor
  · intro h
    exact ⟨m.tdiv n, h.symm⟩
  · rintro ⟨k, hk⟩
    have hm : m = k * n := by
      rw [div_eq_iff hn] at hk
      exact_mod_cast hk
    rw [hk, hm, Int.mul_tdiv_cancel k (by exact_mod_cast hn)]

theorem toRat_truncated_eq_iff {a b : Number} (hb : b.toRat ≠ 0) :
    (truncated a b).toRat = a.toRat / b.toRat ↔
      (a.ty = .int → b.ty = .int → ∃ k : Int, a.toRat / b.toRat = k) := by
  cases a with
  | int m =>
    cases b with
    | int n =>
      simp only [ty, forall_const]
      exact cast_tdiv_eq_iff hb
    | float q => exact iff_of_true rfl (by simp [ty])
  | float q => exact iff_of_true rfl (by simp [ty])

theorem ty_apply_truncated {op : Source.Operator} {a b v : Number}
    (h : apply truncated op a b = some v) : v.ty = .common a.ty b.ty := by
  cases op with
  | add | sub | mult =>
    cases h
    exact ty_lift _ _ a b
  | div =>
    rw [apply] at h
    split_ifs at h
    cases h
    exact ty_lift _ _ a b
  | _ => cases h

/-- From the same operands C computes the same, unless it truncates a quotient that is no integer. -/
theorem apply_truncated_iff {op : Source.Operator} {a b a' b' v : Number} (ha : a'.toRat = a.toRat)
    (hb : b'.toRat = b.toRat) (h : apply quotient op a b = some v) :
    (∃ w, apply truncated op a' b' = some w ∧ w.toRat = v.toRat) ↔
      (op = .div → a'.ty = .int → b'.ty = .int → ∃ k : Int, v.toRat = k) := by
  cases op with
  | add =>
    cases h
    simp [apply, toRat_lift, ha, hb]
  | sub =>
    cases h
    simp [apply, toRat_lift, ha, hb]
  | mult =>
    cases h
    simp [apply, toRat_lift, ha, hb]
  | div =>
    rw [apply] at h
    split_ifs at h with hzero
    cases h
    have hquotient : (quotient a b).toRat = a'.toRat / b'.toRat := by
      rw [ha, hb]
      rfl
    rw [← hb] at hzero
    rw [apply, if_neg hzero, hquotient, ← toRat_truncated_eq_iff hzero]
    simp
  | _ => cases h

end Number

/-! ## Values of the source -/

namespace Source

variable {vars : String → Option Number} {line : LineNumber}

theorem Expr.number?_constant (value : Literal) :
    (Expr.constant line value).number? vars = value.number? := by
  change (StateT.lift value.number? ()).map Prod.fst = value.number?
  cases value.number? <;> rfl

theorem Expr.number?_name (x : String) : (Expr.name line x).number? vars = vars x := by
  rw [number?, eval, Meaning.demand, Option.map_map]
  exact Option.map_id'

theorem Expr.number?_binary (op : Operator) (left right : Expr) :
    (Expr.binary line op left right).number? vars =
      (left.number? vars).bind fun a => (right.number? vars).bind fun b =>
        Number.apply Number.quotient op a b := by
  simp only [number?]
  rw [eval]
  cases hl : left.eval numbers vars () with
  | none => rw [Meaning.bind_of_eq_none hl, Option.map_none, Option.bind_none]
  | some l =>
    rw [Meaning.bind_of_eq_some hl, Option.map_some, Option.bind_some]
    cases hr : right.eval numbers vars () with
    | none => rw [Meaning.bind_of_eq_none hr, Option.map_none, Option.bind_none]
    | some r =>
      rw [Meaning.bind_of_eq_some hr, Option.map_some, Option.bind_some]
      change (StateT.lift (Number.apply Number.quotient op l.1 r.1) ()).map Prod.fst = _
      cases Number.apply Number.quotient op l.1 r.1 <;> rfl

theorem Expr.number?_conditional (test body orelse : Expr) :
    (Expr.conditional line test body orelse).number? vars =
      (test.number? vars).bind fun v =>
        if v.toRat = 0 then orelse.number? vars else body.number? vars := by
  simp only [number?]
  rw [eval, Meaning.branch]
  cases ht : test.eval numbers vars () with
  | none => rw [Meaning.bind_of_eq_none ht, Option.map_none, Option.bind_none]
  | some v =>
    have htruth : numbers.truth v.1 v.2 = some (decide (v.1.toRat ≠ 0), ()) := rfl
    rw [Meaning.bind_of_eq_some ht, Meaning.bind_of_eq_some htruth, Option.map_some,
      Option.bind_some]
    by_cases hzero : v.1.toRat = 0
    · rw [if_pos hzero, decide_eq_false (not_not.mpr hzero), if_neg Bool.false_ne_true]
    · rw [if_neg hzero, decide_eq_true hzero, if_pos rfl]

end Source

/-! ## Types and values of C -/

namespace Source

/-- The types that the variables get from their annotations. -/
def declaredTy (declared : String → Option Hint) (x : String) : Option Target.Ty :=
  (declared x).bind Hint.resolve?

/-- Every variable that has a value has one of its type. -/
def WellTyped (declared : String → Option Hint) (vars : String → Option Number) : Prop :=
  ∀ x v, vars x = some v → declaredTy declared x = some v.ty

/-- An arithmetic expression has a type in C. -/
theorem exists_ty?_lowerExpr {declared : String → Option Hint} (e : Expr)
    (he : e.IsArithmetic declared) (expected : Option Target.Ty) (t : Target.Expr)
    (h : lowerExpr expected e = .ok t) : ∃ ty, t.ty? (declaredTy declared) = some ty := by
  induction e generalizing expected t with
  | constant line value =>
    obtain ⟨v, hv, rfl⟩ := lowerExpr_constant_eq_ok.mp h
    cases value with
    | int n =>
      cases hv
      exact ⟨_, rfl⟩
    | float d =>
      cases hv
      exact ⟨_, rfl⟩
    | _ => exact he.elim
  | name line x =>
    obtain rfl := lowerExpr_name_eq_ok.mp h
    rcases he with hx | hx
    · exact ⟨.int, by rw [Target.Expr.ty?, declaredTy, hx]; rfl⟩
    · exact ⟨.double, by rw [Target.Expr.ty?, declaredTy, hx]; rfl⟩
  | binary line op left right ihl ihr =>
    obtain ⟨op', -, l, hl, r, hr, rfl⟩ := lowerExpr_binary_eq_ok.mp h
    obtain ⟨tl, htl⟩ := ihl he.1 none l hl
    obtain ⟨tr, htr⟩ := ihr he.2 none r hr
    exact ⟨.common tl tr, by rw [Target.Expr.ty?, htl, htr]; rfl⟩
  | conditional line test body orelse iht ihb iho =>
    obtain ⟨c, -, b, hb, o, ho, rfl⟩ := lowerExpr_conditional_eq_ok.mp h
    obtain ⟨tb, htb⟩ := ihb he.2.1 expected b hb
    obtain ⟨te, hte⟩ := iho he.2.2 expected o ho
    exact ⟨.common tb te, by rw [Target.Expr.ty?, htb, hte]; rfl⟩
  | subscript | call | tuple | unsupported => exact he.elim

end Source

theorem Number.ty_convert_common_left (v : Number) (ty : Target.Ty) :
    (v.convert (.common v.ty ty)).ty = .common v.ty ty := by
  cases v <;> cases ty <;> rfl

theorem Number.ty_convert_common_right (v : Number) (ty : Target.Ty) :
    (v.convert (.common ty v.ty)).ty = .common ty v.ty := by
  cases v <;> cases ty <;> rfl

theorem Number.toRat_convert (v : Number) (ty : Target.Ty) : (v.convert ty).toRat = v.toRat := by
  cases ty <;> rfl

namespace Target

variable {types : String → Option Ty} {vars : String → Option Number}

theorem Expr.number?_binary_eq_some {op : Operator} {left right : Expr} {w : Number} :
    (Expr.binary op left right).number? types vars = some w ↔
      ∃ op', op.source? = some op' ∧ ∃ a, left.number? types vars = some a ∧
        ∃ b, right.number? types vars = some b ∧ Number.apply Number.truncated op' a b = some w := by
  simp only [number?, bind, Option.bind_eq_some_iff]

theorem Expr.number?_ternary_eq_some {cond thenExpr elseExpr : Expr} {w : Number} :
    (Expr.ternary cond thenExpr elseExpr).number? types vars = some w ↔
      ∃ a, thenExpr.ty? types = some a ∧ ∃ b, elseExpr.ty? types = some b ∧
        ∃ test, cond.number? types vars = some test ∧
          ∃ v, (if test.toRat = 0 then elseExpr.number? types vars
            else thenExpr.number? types vars) = some v ∧ v.convert (.common a b) = w := by
  simp only [number?, bind, Option.bind_eq_some_iff, Option.map_eq_some_iff]

/-- Values are of the types of their expressions. -/
theorem Expr.ty?_of_number? (hvars : ∀ x v, vars x = some v → types x = some v.ty) (t : Expr)
    (w : Number) (h : t.number? types vars = some w) : t.ty? types = some w.ty := by
  induction t generalizing w with
  | identifier x => exact hvars x w h
  | literal value =>
    cases value with
    | int n =>
      cases h
      rfl
    | float d =>
      obtain ⟨q, -, rfl⟩ := Option.map_eq_some_iff.mp h
      rfl
    | _ => cases h
  | binary op left right ihl ihr =>
    obtain ⟨op', -, a, ha, b, hb, hw⟩ := number?_binary_eq_some.mp h
    rw [ty?, ihl a ha, ihr b hb, Number.ty_apply_truncated hw]
    rfl
  | ternary cond thenExpr elseExpr ihc iht ihe =>
    obtain ⟨a, ha, b, hb, test, -, v, hv, rfl⟩ := number?_ternary_eq_some.mp h
    rw [ty?, ha, hb]
    by_cases hzero : test.toRat = 0
    · rw [if_pos hzero] at hv
      obtain rfl : b = v.ty := Option.some.inj (hb.symm.trans (ihe v hv))
      exact congrArg some (v.ty_convert_common_right a).symm
    · rw [if_neg hzero] at hv
      obtain rfl : a = v.ty := Option.some.inj (ha.symm.trans (iht v hv))
      exact congrArg some (v.ty_convert_common_left b).symm
  | index | call | compound => cases h

end Target

/-! ## Values that are kept -/

namespace Source

variable (declared : String → Option Hint) (vars : String → Option Number)

/-- The lowered expression has the value of the expression. -/
def Expr.Kept (e : Expr) : Prop :=
  ∀ expected t, lowerExpr expected e = .ok t →
    ∃ v w, e.number? vars = some v ∧ t.number? (declaredTy declared) vars = some w ∧
      w.toRat = v.toRat

/-- The expression is of type `int` in C. -/
def Expr.IsInt (e : Expr) : Prop :=
  ∃ t, lowerExpr none e = .ok t ∧ t.ty? (declaredTy declared) = some .int

/-- If the expression is a quotient of two operands of type `int`, its value is an integer. -/
def Expr.DividesExactly (e : Expr) : Prop :=
  ∀ line left right, e = .binary line .div left right → left.IsInt declared →
    right.IsInt declared → ∀ v, e.number? vars = some v → ∃ k : Int, v.toRat = k

variable {declared} {vars}

theorem Expr.mem_evaluated (e : Expr) : e ∈ e.evaluated vars := by
  cases e <;> simp [evaluated]

theorem Expr.kept_constant {line : LineNumber} {value : Literal} {v : Number}
    (hv : value.number? = some v) : (Expr.constant line value).Kept declared vars := by
  intro expected t ht
  obtain ⟨l, hl, rfl⟩ := lowerExpr_constant_eq_ok.mp ht
  refine ⟨v, v, by rw [number?_constant, hv], ?_, rfl⟩
  rw [Target.Expr.number?, source_lowerLiteral hl, hv]

theorem Expr.kept_name {line : LineNumber} {x : String} {v : Number} (hv : vars x = some v) :
    (Expr.name line x).Kept declared vars := by
  intro expected t ht
  obtain rfl := lowerExpr_name_eq_ok.mp ht
  exact ⟨v, v, by rw [number?_name, hv], hv, rfl⟩

theorem Expr.isInt_iff (hvars : WellTyped declared vars) {e : Expr} {t : Target.Expr}
    (ht : lowerExpr none e = .ok t) {w : Number}
    (hw : t.number? (declaredTy declared) vars = some w) : e.IsInt declared ↔ w.ty = .int := by
  have hty := Target.Expr.ty?_of_number? hvars t w hw
  constructor
  · rintro ⟨t', ht', hint⟩
    obtain rfl : t = t' := Except.ok.inj (ht.symm.trans ht')
    exact Option.some.inj (hty.symm.trans hint)
  · intro hint
    exact ⟨t, ht, by rw [hty, hint]⟩

/-- From operands that are kept, the value of an operator is kept unless a quotient is truncated. -/
theorem Expr.kept_binary_iff (hvars : WellTyped declared vars) {line : LineNumber} {op : Operator}
    {left right : Expr} (hl : left.Kept declared vars) (hr : right.Kept declared vars) {v : Number}
    (hv : (Expr.binary line op left right).number? vars = some v) {expected : Option Target.Ty}
    {t : Target.Expr} (ht : lowerExpr expected (.binary line op left right) = .ok t) :
    (Expr.binary line op left right).Kept declared vars ↔
      (Expr.binary line op left right).DividesExactly declared vars := by
  obtain ⟨op', hop, l, hleft, r, hright, rfl⟩ := lowerExpr_binary_eq_ok.mp ht
  obtain ⟨a, a', ha, ha', haa⟩ := hl none l hleft
  obtain ⟨b, b', hb, hb', hbb⟩ := hr none r hright
  have hvalue := hv
  rw [number?_binary, ha, hb, Option.bind_some, Option.bind_some] at hvalue
  have hresult : (Expr.binary line op left right).Kept declared vars ↔
      ∃ w, Number.apply Number.truncated op a' b' = some w ∧ w.toRat = v.toRat := by
    have hsource := source?_lowerOperator hop
    constructor
    · intro h
      obtain ⟨v', w, hv', hw, hwv⟩ := h expected _ ht
      obtain rfl : v = v' := Option.some.inj (hv.symm.trans hv')
      obtain ⟨o, ho, x, hx, y, hy, hxy⟩ := Target.Expr.number?_binary_eq_some.mp hw
      obtain rfl : op = o := Option.some.inj (hsource.symm.trans ho)
      obtain rfl : a' = x := Option.some.inj (ha'.symm.trans hx)
      obtain rfl : b' = y := Option.some.inj (hb'.symm.trans hy)
      exact ⟨w, hxy, hwv⟩
    · rintro ⟨w, hw, hwv⟩ expected' t ht'
      obtain rfl : .binary op' l r = t := Except.ok.inj (ht.symm.trans ht')
      exact ⟨v, w, hv, Target.Expr.number?_binary_eq_some.mpr
        ⟨op, hsource, a', ha', b', hb', hw⟩, hwv⟩
  rw [hresult, Number.apply_truncated_iff haa hbb hvalue, ← isInt_iff hvars hleft ha',
    ← isInt_iff hvars hright hb']
  constructor
  · rintro h line' left' right' hdiv hleft' hright' v' hv'
    cases hdiv
    obtain rfl : v = v' := Option.some.inj (hv.symm.trans hv')
    exact h rfl hleft' hright'
  · rintro h rfl hleft' hright'
    exact h line left right rfl hleft' hright' v hv

/-- The value of a branch is kept in the type of both branches. -/
theorem Expr.kept_conditional {line : LineNumber} {test body orelse : Expr}
    (he : (Expr.conditional line test body orelse).IsArithmetic declared) {c : Number}
    (hc : test.number? vars = some c) (htest : test.Kept declared vars)
    (hchosen : if c.toRat = 0 then orelse.Kept declared vars else body.Kept declared vars) :
    (Expr.conditional line test body orelse).Kept declared vars := by
  intro expected t ht
  obtain ⟨t₁, ht₁, t₂, ht₂, t₃, ht₃, rfl⟩ := lowerExpr_conditional_eq_ok.mp ht
  -- the branch that is not taken matters for the type
  obtain ⟨ty₂, hty₂⟩ := exists_ty?_lowerExpr body he.2.1 expected t₂ ht₂
  obtain ⟨ty₃, hty₃⟩ := exists_ty?_lowerExpr orelse he.2.2 expected t₃ ht₃
  obtain ⟨c', d, hc', hd, hdc⟩ := htest none t₁ ht₁
  obtain rfl : c = c' := Option.some.inj (hc.symm.trans hc')
  have hbranch : ∃ v w, (if c.toRat = 0 then orelse.number? vars else body.number? vars) = some v ∧
      (if d.toRat = 0 then t₃.number? (declaredTy declared) vars
        else t₂.number? (declaredTy declared) vars) = some w ∧ w.toRat = v.toRat := by
    rw [hdc]
    by_cases hzero : c.toRat = 0
    · simp only [if_pos hzero] at hchosen ⊢
      exact hchosen expected t₃ ht₃
    · simp only [if_neg hzero] at hchosen ⊢
      exact hchosen expected t₂ ht₂
  obtain ⟨v, w, hv, hw, hwv⟩ := hbranch
  refine ⟨v, w.convert (.common ty₂ ty₃), ?_, ?_, (w.toRat_convert _).trans hwv⟩
  · rw [number?_conditional, hc, Option.bind_some, hv]
  · exact Target.Expr.number?_ternary_eq_some.mpr ⟨ty₂, hty₂, ty₃, hty₃, d, hd, w, hw, rfl⟩

theorem Expr.dividesExactly_of_ne {e : Expr}
    (h : ∀ line left right, e ≠ .binary line .div left right) : e.DividesExactly declared vars := by
  intro line left right he
  exact absurd he (h line left right)

/-- All values are kept if and only if no quotient is truncated. -/
theorem Expr.forall_kept_iff (hvars : WellTyped declared vars) (e : Expr)
    (he : e.IsArithmetic declared) (expected : Option Target.Ty) (t : Target.Expr)
    (ht : lowerExpr expected e = .ok t) (v : Number) (hv : e.number? vars = some v) :
    (∀ x ∈ e.evaluated vars, x.Kept declared vars) ↔
      ∀ x ∈ e.evaluated vars, x.DividesExactly declared vars := by
  induction e generalizing expected t v with
  | constant line value =>
    rw [number?_constant] at hv
    simp only [evaluated, List.forall_mem_singleton]
    exact iff_of_true (kept_constant hv) (dividesExactly_of_ne (by simp))
  | name line x =>
    rw [number?_name] at hv
    simp only [evaluated, List.forall_mem_singleton]
    exact iff_of_true (kept_name hv) (dividesExactly_of_ne (by simp))
  | binary line op left right ihl ihr =>
    have hvalue := hv
    rw [number?_binary] at hvalue
    obtain ⟨a, ha, hrest⟩ := Option.bind_eq_some_iff.mp hvalue
    obtain ⟨b, hb, -⟩ := Option.bind_eq_some_iff.mp hrest
    obtain ⟨op', -, l, hl, r, hr, rfl⟩ := lowerExpr_binary_eq_ok.mp ht
    rw [evaluated, List.forall_mem_cons, List.forall_mem_cons, List.forall_mem_append,
      List.forall_mem_append, ← ihl he.1 none l hl a ha, ← ihr he.2 none r hr b hb]
    -- where an operand is not kept, neither side holds
    refine and_congr_left ?_
    rintro ⟨hleft, hright⟩
    exact kept_binary_iff hvars (hleft left left.mem_evaluated) (hright right right.mem_evaluated)
      hv ht
  | conditional line test body orelse iht ihb iho =>
    rw [number?_conditional] at hv
    obtain ⟨c, hc, hchosen⟩ := Option.bind_eq_some_iff.mp hv
    obtain ⟨t₁, ht₁, t₂, ht₂, t₃, ht₃, rfl⟩ := lowerExpr_conditional_eq_ok.mp ht
    have hexact : (Expr.conditional line test body orelse).DividesExactly declared vars :=
      dividesExactly_of_ne (by simp)
    rw [evaluated, List.forall_mem_cons, List.forall_mem_cons, List.forall_mem_append,
      List.forall_mem_append, ← iht he.1 none t₁ ht₁ c hc, hc, Option.elim_some]
    by_cases hzero : c.toRat = 0
    · rw [if_pos hzero] at hchosen ⊢
      rw [← iho he.2.2 expected t₃ ht₃ v hchosen]
      refine and_congr_left ?_
      rintro ⟨htest, horelse⟩
      refine iff_of_true (kept_conditional he hc (htest test test.mem_evaluated) ?_) hexact
      rw [if_pos hzero]
      exact horelse orelse orelse.mem_evaluated
    · rw [if_neg hzero] at hchosen ⊢
      rw [← ihb he.2.1 expected t₂ ht₂ v hchosen]
      refine and_congr_left ?_
      rintro ⟨htest, hbody⟩
      refine iff_of_true (kept_conditional he hc (htest test test.mem_evaluated) ?_) hexact
      rw [if_neg hzero]
      exact hbody body body.mem_evaluated
  | subscript | call | tuple | unsupported => exact he.elim

/-- If every quotient of operands of type `int` that is evaluated is an integer, the lowered expression
has the value of the expression. Everything inside it keeps its value only then. -/
theorem lowerExpr_arithmetic_kept (hvars : WellTyped declared vars) (e : Expr)
    (he : e.IsArithmetic declared) (expected : Option Target.Ty) (t : Target.Expr)
    (ht : lowerExpr expected e = .ok t) (v : Number) (hv : e.number? vars = some v) :
    ((∀ x ∈ e.evaluated vars, x.DividesExactly declared vars) →
      ∃ w, t.number? (declaredTy declared) vars = some w ∧ w.toRat = v.toRat) ∧
    ((∀ x ∈ e.evaluated vars, x.Kept declared vars) ↔
      ∀ x ∈ e.evaluated vars, x.DividesExactly declared vars) := by
  have hiff := Expr.forall_kept_iff hvars e he expected t ht v hv
  refine ⟨fun hexact => ?_, hiff⟩
  obtain ⟨v', w, hv', hw, hwv⟩ := hiff.mpr hexact e e.mem_evaluated expected t ht
  obtain rfl : v = v' := Option.some.inj (hv.symm.trans hv')
  exact ⟨w, hw, hwv⟩

/-- One half is lowered to a quotient of two integers, which is zero in C. -/
theorem exists_arithmetic_not_kept :
    ∃ e t v w, e.IsArithmetic (fun _ => none) ∧ lowerExpr none e = .ok t ∧
      e.number? (fun _ => none) = some v ∧
      t.number? (declaredTy fun _ => none) (fun _ => none) = some w ∧ w.toRat ≠ v.toRat := by
  refine ⟨.binary 1 .div (.constant 1 (.int 1)) (.constant 1 (.int 2)), _, .float (1 / 2), .int 0,
    ⟨trivial, trivial⟩, rfl, rfl, rfl, ?_⟩
  norm_num [Number.toRat]

/-- A quotient of integers, scaled by a float. -/
def scaledQuotient : Expr :=
  .binary 1 .mult (.binary 1 .div (.name 1 "a") (.constant 1 (.int 3))) (.name 1 "x")

def scaledDeclared (x : String) : Option Hint :=
  if x = "a" then some (.name "int") else some (.name "float")

def scaledVars (x : String) : Option Number :=
  if x = "a" then some (.int 6) else some (.float (1 / 2))

theorem lowerExpr_arithmetic_kept_scaledQuotient :
    ∃ t w, lowerExpr none scaledQuotient = .ok t ∧
      t.number? (declaredTy scaledDeclared) scaledVars = some w ∧ w.toRat = 1 := by
  have hvars : WellTyped scaledDeclared scaledVars := by
    intro x v hv
    by_cases hx : x = "a"
    · rw [scaledVars, if_pos hx] at hv
      cases hv
      rw [declaredTy, scaledDeclared, if_pos hx]
      rfl
    · rw [scaledVars, if_neg hx] at hv
      cases hv
      rw [declaredTy, scaledDeclared, if_neg hx]
      rfl
  have hv : scaledQuotient.number? scaledVars = some (.float (6 / 3 * (1 / 2))) := rfl
  obtain ⟨hkept, -⟩ := lowerExpr_arithmetic_kept hvars scaledQuotient
    ⟨⟨.inl rfl, trivial⟩, .inr rfl⟩ none _ rfl _ hv
  have hquotient : (Expr.binary 1 .div (.name 1 "a") (.constant 1 (.int 3))).DividesExactly
      scaledDeclared scaledVars := by
    intro line left right _ _ _ v hv
    obtain rfl : Number.float (6 / 3) = v := Option.some.inj hv
    exact ⟨2, by norm_num [Number.toRat]⟩
  obtain ⟨w, hw, hwv⟩ := hkept (by
    simp only [scaledQuotient, Expr.evaluated, List.cons_append, List.nil_append,
      List.forall_mem_cons, List.not_mem_nil, false_imp_iff, implies_true, and_true]
    exact ⟨Expr.dividesExactly_of_ne (by simp), hquotient, Expr.dividesExactly_of_ne (by simp),
      Expr.dividesExactly_of_ne (by simp), Expr.dividesExactly_of_ne (by simp)⟩)
  exact ⟨_, w, rfl, hw, hwv.trans (by norm_num [Number.toRat])⟩

end Source

end AnnotatedToC
