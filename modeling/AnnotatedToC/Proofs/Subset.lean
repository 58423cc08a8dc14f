import AnnotatedToC.Proofs.HintTypes
import AnnotatedToC.Proofs.Lowered
import AnnotatedToC.Proofs.Positions

/-!
# The subset that is lowered

What a function has to look like in order to be lowered, said of everything that stands in it: each
statement at any depth, and in each of its expressions everything at any depth. Lowering succeeds on the
functions of the subset and on no others.
-/
namespace AnnotatedToC

namespace Source

/-- The operators that C has too. -/
def arithmetic : List Operator := [.add, .sub, .mult, .div]

/-- What may stand at a position of an expression. A tuple is the value of the whole, whose type has to
be known and not void. -/
def Expr.Allowed (typed : Prop) (p : Position) : Expr → Prop
  | .constant _ value => value ≠ .null
  | .binary _ op _ _ => op ∈ arithmetic
  | .tuple _ _ => p = .tail ∧ typed
  | .unsupported _ _ => False
  | .name _ _ | .subscript _ _ _ | .call _ _ _ | .conditional _ _ _ _ => True

/-- An expression in which only what is allowed stands. -/
def Expr.InSubset (typed : Prop) (e : Expr) : Prop :=
  ∀ p x, Occurs Expr.parts p x e → x.Allowed typed p

/-- A variable or an element. -/
def Expr.IsPlace : Expr → Prop
  | .name _ _ | .subscript _ _ _ => True
  | _ => False

/-- A call of `range` whose constant arguments are integers and whose constant step is positive. -/
def Expr.IsRange (iter : Expr) : Prop :=
  ∃ line args, iter = .call line "range" args ∧ 1 ≤ args.length ∧ args.length ≤ 3 ∧
    (∀ l value, .constant l value ∈ args → ∃ n, value = .int n) ∧
    ∀ l n, args[2]? = some (.constant l (.int n)) → 1 ≤ n.toInt

/-- What a statement has to look like, apart from the statements inside it, in a function of the given
return type. The none literal stands nowhere but directly in a return. -/
def Stmt.Allowed (returnType : Target.Ty) : Stmt → Prop
  | .ret _ value =>
    ∀ e ∈ value, (∃ l, e = .constant l .null) ∨ e.InSubset (returnType ≠ .void)
  | .annotated _ _ hint value =>
    ∃ ty, hint.resolve? = some ty ∧ ∀ e ∈ value, e.InSubset (ty ≠ .void)
  | .augmented _ target op value =>
    target.IsPlace ∧ op ∈ arithmetic ∧ target.InSubset False ∧ value.InSubset False
  | .branch _ test _ _ => test.InSubset False
  | .loop _ _ iter _ orelse => orelse = [] ∧ iter.IsRange ∧ iter.InSubset False
  | .assign _ _ _ | .unsupported _ _ => False

/-- The type of the return annotation, if it has one. Without an annotation nothing is returned. -/
def Function.returnType? (f : Function) : Option Target.Ty :=
  f.returns.elim (some .void) Hint.resolve?

/-- A function whose annotations have types and in which only allowed statements stand. -/
def Function.InSubset (f : Function) : Prop :=
  ∃ returnType, f.returnType? = some returnType ∧
    (∀ p ∈ f.params, ∃ a ∈ p.hint, ∃ ty, a.resolve? = some ty) ∧
    ∀ s, Within Stmt.blocks s f.body → s.Allowed returnType

/-! ## What is allowed, part by part -/

/-- Inside an expression no type is known. -/
theorem Expr.allowed_inner {typed : Prop} (p : Position) {x : Expr} :
    x.Allowed typed .inner ↔ x.Allowed False p := by
  cases x <;> simp [Allowed]

theorem Expr.inSubset_iff {typed : Prop} {e : Expr} :
    e.InSubset typed ↔
      e.Allowed typed .tail ∧ ∀ q c, (q, c) ∈ e.parts → c.InSubset (q = .tail ∧ typed) := by
  unfold InSubset
  rw [forall_occurs]
  refine and_congr_right fun _ => forall₃_congr fun q c _ => forall₃_congr fun p x _ => ?_
  cases q with
  | tail => simp [Position.within]
  | inner => simpa [Position.within] using allowed_inner p

section Parts

variable {typed : Prop} {line : LineNumber}

theorem Expr.inSubset_constant {value : Literal} :
    (Expr.constant line value).InSubset typed ↔ value ≠ .null := by
  rw [inSubset_iff]
  simp [Allowed, parts]

theorem Expr.inSubset_name {id : String} : (Expr.name line id).InSubset typed := by
  rw [inSubset_iff]
  simp [Allowed, parts]

theorem Expr.inSubset_binary {op : Operator} {left right : Expr} :
    (Expr.binary line op left right).InSubset typed ↔
      op ∈ arithmetic ∧ left.InSubset False ∧ right.InSubset False := by
  rw [inSubset_iff]
  simp [Allowed, parts, or_imp, forall_and]

theorem Expr.inSubset_subscript {value i : Expr} :
    (Expr.subscript line value i).InSubset typed ↔ value.InSubset False ∧ i.InSubset False := by
  rw [inSubset_iff]
  simp [Allowed, parts, or_imp, forall_and]

theorem Expr.inSubset_call {func : String} {args : List Expr} :
    (Expr.call line func args).InSubset typed ↔ ∀ e ∈ args, e.InSubset False := by
  rw [inSubset_iff, parts, forall_mem_inner]
  simp [Allowed]

theorem Expr.inSubset_conditional {test body orelse : Expr} :
    (Expr.conditional line test body orelse).InSubset typed ↔
      test.InSubset False ∧ body.InSubset typed ∧ orelse.InSubset typed := by
  rw [inSubset_iff]
  simp [Allowed, parts, or_imp, forall_and]

theorem Expr.inSubset_tuple {elements : List Expr} :
    (Expr.tuple line elements).InSubset typed ↔ typed ∧ ∀ e ∈ elements, e.InSubset False := by
  rw [inSubset_iff, parts, forall_mem_inner]
  simp [Allowed]

theorem Expr.not_inSubset_unsupported {construct : String} :
    ¬ (Expr.unsupported line construct).InSubset typed := by
  rw [inSubset_iff]
  simp [Allowed]

end Parts

/-- A block of the subset. -/
def BlockInSubset (returnType : Target.Ty) (ss : List Stmt) : Prop :=
  ∀ s, Within Stmt.blocks s ss → s.Allowed returnType

/-- A statement of the subset, with the blocks inside it. -/
def Stmt.InSubset (returnType : Target.Ty) (s : Stmt) : Prop :=
  s.Allowed returnType ∧ ∀ block ∈ s.blocks, BlockInSubset returnType block

theorem blockInSubset_iff {returnType : Target.Ty} {ss : List Stmt} :
    BlockInSubset returnType ss ↔ ∀ s ∈ ss, s.InSubset returnType :=
  forall_within

end Source

open Source (LineNumber arithmetic BlockInSubset)

/-! ## Expressions -/

theorem exists_lowerOperator_eq_ok (line : LineNumber) {op : Source.Operator} :
    (∃ op', lowerOperator line op = .ok op') ↔ op ∈ arithmetic := by
  cases op <;> simp [lowerOperator, arithmetic]

theorem exists_lowerLiteral_eq_ok (line : LineNumber) {value : Source.Literal} :
    (∃ v, lowerLiteral line value = .ok v) ↔ value ≠ .null := by
  cases value <;> simp [lowerLiteral]

/-- A type is known, and it is not void. -/
def IsTyped (expected : Option Target.Ty) : Prop := ∃ ty ∈ expected, ty ≠ .void

theorem isTyped_some {ty : Target.Ty} : IsTyped (some ty) ↔ ty ≠ .void := by
  simp [IsTyped]

theorem isTyped_none : IsTyped none ↔ False := by
  simp [IsTyped]

theorem exists_tupleType_eq_ok (line : LineNumber) {expected : Option Target.Ty} :
    (∃ ty, tupleType line expected = .ok ty) ↔ IsTyped expected := by
  cases expected with
  | none => simp [tupleType, isTyped_none]
  | some ty => cases ty <;> simp [tupleType, isTyped_some, Target.Ty.isVoid]

theorem exists_lowerExprs_eq_ok {es : List Source.Expr} :
    (∃ ts, lowerExprs es = .ok ts) ↔ ∀ e ∈ es, ∃ t, lowerExpr none e = .ok t := by
  rw [lowerExprs_eq_mapM, exists_mapM_eq_ok]

/-- An expression is lowered if and only if it is in the subset. -/
theorem exists_lowerExpr_eq_ok (e : Source.Expr) (expected : Option Target.Ty) :
    (∃ t, lowerExpr expected e = .ok t) ↔ e.InSubset (IsTyped expected) := by
  induction e generalizing expected with
  | constant line value =>
    rw [Source.Expr.inSubset_constant, ← exists_lowerLiteral_eq_ok line]
    simp only [lowerExpr_constant_eq_ok]
    exact ⟨fun ⟨_, v, hv, _⟩ => ⟨v, hv⟩, fun ⟨v, hv⟩ => ⟨_, v, hv, rfl⟩⟩
  | name line id =>
    exact iff_of_true ⟨_, lowerExpr_name_eq_ok.mpr rfl⟩ Source.Expr.inSubset_name
  | binary line op left right ihl ihr =>
    rw [Source.Expr.inSubset_binary, ← isTyped_none, ← ihl, ← ihr,
      ← exists_lowerOperator_eq_ok line]
    simp only [lowerExpr_binary_eq_ok]
    constructor
    · rintro ⟨_, op', hop, l, hl, r, hr, -⟩
      exact ⟨⟨op', hop⟩, ⟨l, hl⟩, r, hr⟩
    · rintro ⟨⟨op', hop⟩, ⟨l, hl⟩, r, hr⟩
      exact ⟨_, op', hop, l, hl, r, hr, rfl⟩
  | subscript line value i ihv ihi =>
    rw [Source.Expr.inSubset_subscript, ← isTyped_none, ← ihv, ← ihi]
    simp only [lowerExpr_subscript_eq_ok]
    constructor
    · rintro ⟨_, v, hv, i', hi, -⟩
      exact ⟨⟨v, hv⟩, i', hi⟩
    · rintro ⟨⟨v, hv⟩, i', hi⟩
      exact ⟨_, v, hv, i', hi, rfl⟩
  | call line func args ih =>
    have hargs : (∀ e ∈ args, e.InSubset False) ↔ ∃ ts, lowerExprs args = .ok ts := by
      rw [exists_lowerExprs_eq_ok, ← isTyped_none]
      exact forall₂_congr fun e he => (ih e he none).symm
    rw [Source.Expr.inSubset_call, hargs]
    simp only [lowerExpr_call_eq_ok]
    exact ⟨fun ⟨_, ts, hts, _⟩ => ⟨ts, hts⟩, fun ⟨ts, hts⟩ => ⟨_, ts, hts, rfl⟩⟩
  | conditional line test body orelse iht ihb iho =>
    rw [Source.Expr.inSubset_conditional, ← ihb, ← iho, ← isTyped_none, ← iht]
    simp only [lowerExpr_conditional_eq_ok]
    constructor
    · rintro ⟨_, c, hc, b, hb, o, ho, -⟩
      exact ⟨⟨c, hc⟩, ⟨b, hb⟩, o, ho⟩
    · rintro ⟨⟨c, hc⟩, ⟨b, hb⟩, o, ho⟩
      exact ⟨_, c, hc, b, hb, o, ho, rfl⟩
  | tuple line elements ih =>
    have helements : (∀ e ∈ elements, e.InSubset False) ↔ ∃ ts, lowerExprs elements = .ok ts := by
      rw [exists_lowerExprs_eq_ok, ← isTyped_none]
      exact forall₂_congr fun e he => (ih e he none).symm
    rw [Source.Expr.inSubset_tuple, helements, ← exists_tupleType_eq_ok line]
    simp only [lowerExpr_tuple_eq_ok]
    constructor
    · rintro ⟨_, ty, hty, ts, hts, -⟩
      exact ⟨⟨ty, hty⟩, ts, hts⟩
    · rintro ⟨⟨ty, hty⟩, ts, hts⟩
      exact ⟨_, ty, hty, ts, hts, rfl⟩
  | unsupported line construct =>
    exact iff_of_false (fun ⟨_, h⟩ => lowerExpr_unsupported_ne_ok h)
      Source.Expr.not_inSubset_unsupported

/-! ## Ranges -/

theorem RangeArgs.exists_ofList_eq_ok (line : LineNumber) {args : List Source.Expr} :
    (∃ range, RangeArgs.ofList line args = .ok range) ↔ 1 ≤ args.length ∧ args.length ≤ 3 := by
  match args with
  | [] => simp [ofList]
  | [a] => simp [ofList]
  | [a, b] => simp [ofList]
  | [a, b, c] => simp [ofList]
  | a :: b :: c :: d :: rest => simp [ofList]

/-- The step is the third argument. -/
theorem RangeArgs.step_eq {line : LineNumber} {args : List Source.Expr} {range : RangeArgs}
    (h : RangeArgs.ofList line args = .ok range) : range.step = args[2]? := by
  obtain ⟨start, stop, step⟩ := range
  obtain ⟨rfl, hstep⟩ := RangeArgs.ofList_eq_ok.mp h
  cases start with
  | none =>
    obtain rfl : step = none := hstep rfl
    rfl
  | some start => cases step <;> rfl

theorem exists_lowerBound_eq_ok (default : Int64) (e : Option Source.Expr) :
    (∃ t, lowerBound default e = .ok t) ↔ ∀ x ∈ e, ∃ t, lowerExpr none x = .ok t := by
  cases e <;> simp [lowerBound_eq_ok]

theorem exists_lowerRange_eq_ok (line : LineNumber) {iter : Source.Expr} :
    (∃ bounds, lowerRange line iter = .ok bounds) ↔ iter.IsRange ∧ iter.InSubset False := by
  constructor
  · rintro ⟨bounds, h⟩
    obtain ⟨l, args, range, rfl, hargs, hbounds, hstep, ha, hb, hc⟩ := lowerRange_eq_ok.mp h
    obtain ⟨hfew, hmany⟩ := (RangeArgs.exists_ofList_eq_ok line).mp ⟨range, hargs⟩
    rw [RangeArgs.step_eq hargs, checkStep_eq_ok] at hstep
    refine ⟨⟨l, args, rfl, hfew, hmany, ?_, hstep⟩, ?_⟩
    · intro l' value hvalue
      exact checkBound_eq_ok.mp (hbounds _ hvalue) l' value rfl
    · have hstart := (exists_lowerBound_eq_ok 0 range.start).mp ⟨_, ha⟩
      have hlast := (exists_lowerBound_eq_ok 1 range.step).mp ⟨_, hc⟩
      rw [Source.Expr.inSubset_call, ← isTyped_none]
      intro e he
      rw [← exists_lowerExpr_eq_ok]
      rw [(RangeArgs.ofList_eq_ok.mp hargs).1, List.mem_append, List.mem_cons, Option.mem_toList,
        Option.mem_toList] at he
      rcases he with he | rfl | he
      · exact hstart e he
      · exact ⟨_, hb⟩
      · exact hlast e he
  · rintro ⟨⟨l, args, rfl, hfew, hmany, hbounds, hstep⟩, hin⟩
    obtain ⟨range, hargs⟩ := (RangeArgs.exists_ofList_eq_ok line).mpr ⟨hfew, hmany⟩
    rw [← RangeArgs.step_eq hargs] at hstep
    have hlower : ∀ e ∈ range.start.toList ++ range.stop :: range.step.toList,
        ∃ t, lowerExpr none e = .ok t := by
      intro e he
      rw [← (RangeArgs.ofList_eq_ok.mp hargs).1] at he
      rw [exists_lowerExpr_eq_ok, isTyped_none]
      exact Source.Expr.inSubset_call.mp hin e he
    obtain ⟨a, ha⟩ := (exists_lowerBound_eq_ok 0 range.start).mpr
      fun x hx => hlower x (by simp [Option.mem_def.mp hx])
    obtain ⟨b, hb⟩ := hlower range.stop (by simp)
    obtain ⟨c, hc⟩ := (exists_lowerBound_eq_ok 1 range.step).mpr
      fun x hx => hlower x (by simp [Option.mem_def.mp hx])
    have hconstants : ∀ e ∈ args, checkBound line e = .ok () := by
      intro e he
      rw [checkBound_eq_ok]
      rintro l' value rfl
      exact hbounds l' value he
    exact ⟨⟨a, b, c⟩, lowerRange_eq_ok.mpr ⟨l, args, range, rfl, hargs, hconstants,
      checkStep_eq_ok.mpr hstep, ha, hb, hc⟩⟩

/-! ## Statements -/

theorem exists_lowerValue_eq_ok {ty : Target.Ty} {value : Option Source.Expr} :
    (∃ v, lowerValue (some ty) value = .ok v) ↔ ∀ e ∈ value, e.InSubset (ty ≠ .void) := by
  rw [← isTyped_some]
  cases value with
  | none => simp [lowerValue_none_eq_ok]
  | some e =>
    simp only [lowerValue_some_eq_ok, Option.mem_some_iff, forall_eq', ← exists_lowerExpr_eq_ok]
    exact ⟨fun ⟨_, t, ht, _⟩ => ⟨t, ht⟩, fun ⟨t, ht⟩ => ⟨_, t, ht, rfl⟩⟩

theorem exists_lowerReturn_eq_ok {ty : Target.Ty} {value : Option Source.Expr} :
    (∃ v, lowerReturn (some ty) value = .ok v) ↔
      ∀ e ∈ value, (∃ l, e = .constant l .null) ∨ e.InSubset (ty ≠ .void) := by
  rw [← isTyped_some]
  cases value with
  | none => simp [lowerReturn_eq_ok]
  | some e =>
    simp only [lowerReturn_eq_ok, Option.mem_some_iff, forall_eq', ← exists_lowerExpr_eq_ok]
    constructor
    · rintro ⟨v, ⟨hnone | ⟨l, hl⟩, -⟩ | ⟨x, hx, -, t, ht, -⟩⟩
      · cases hnone
      · exact .inl ⟨l, Option.some.inj hl⟩
      · cases hx
        exact .inr ⟨t, ht⟩
    · rintro (⟨l, rfl⟩ | ⟨t, ht⟩)
      · exact ⟨none, .inl ⟨.inr ⟨l, rfl⟩, rfl⟩⟩
      · refine ⟨some t, .inr ⟨e, rfl, ?_, t, ht, rfl⟩⟩
        rintro l rfl
        obtain ⟨v, hv, -⟩ := lowerExpr_constant_eq_ok.mp ht
        cases hv

theorem checkUpdated_eq_ok {line : LineNumber} {e : Source.Expr} :
    checkUpdated line e = .ok () ↔ e.IsPlace := by
  cases e <;> simp [checkUpdated, Source.Expr.IsPlace]

section Blocks

variable {ty : Target.Ty}

theorem exists_lowerBlock_eq_ok {ss : List Source.Stmt}
    (h : ∀ s ∈ ss, (∃ t, lowerStmt (some ty) s = .ok t) ↔ s.InSubset ty) :
    (∃ ts, lowerBlock (some ty) ss = .ok ts) ↔ BlockInSubset ty ss := by
  rw [lowerBlock_eq_mapM, exists_mapM_eq_ok, Source.blockInSubset_iff]
  exact forall₂_congr h

/-- A statement is lowered if and only if it is in the subset. -/
theorem exists_lowerStmt_eq_ok (s : Source.Stmt) :
    (∃ t, lowerStmt (some ty) s = .ok t) ↔ s.InSubset ty := by
  induction s with
  | ret line value =>
    simp only [Source.Stmt.InSubset, Source.Stmt.blocks, List.not_mem_nil, false_imp_iff,
      implies_true, and_true, Source.Stmt.Allowed, ← exists_lowerReturn_eq_ok, lowerStmt_ret_eq_ok]
    exact ⟨fun ⟨_, v, hv, _⟩ => ⟨v, hv⟩, fun ⟨v, hv⟩ => ⟨_, v, hv, rfl⟩⟩
  | annotated line target hint value =>
    simp only [Source.Stmt.InSubset, Source.Stmt.blocks, List.not_mem_nil, false_imp_iff,
      implies_true, and_true, Source.Stmt.Allowed, ← exists_lowerValue_eq_ok,
      lowerStmt_annotated_eq_ok, lowerHint_eq_ok]
    constructor
    · rintro ⟨_, ty', hty, v, hv, -⟩
      exact ⟨ty', hty, v, hv⟩
    · rintro ⟨ty', hty, v, hv⟩
      exact ⟨_, ty', hty, v, hv, rfl⟩
  | augmented line target op value =>
    simp only [Source.Stmt.InSubset, Source.Stmt.blocks, List.not_mem_nil, false_imp_iff,
      implies_true, and_true, Source.Stmt.Allowed, lowerStmt_augmented_eq_ok, checkUpdated_eq_ok]
    rw [← isTyped_none, ← exists_lowerExpr_eq_ok, ← exists_lowerExpr_eq_ok,
      ← exists_lowerOperator_eq_ok line]
    constructor
    · rintro ⟨_, hplace, op', hop, t, ht, v, hv, -⟩
      exact ⟨hplace, ⟨op', hop⟩, ⟨t, ht⟩, v, hv⟩
    · rintro ⟨hplace, ⟨op', hop⟩, ⟨t, ht⟩, v, hv⟩
      exact ⟨_, hplace, op', hop, t, ht, v, hv, rfl⟩
  | assign line targets value =>
    exact iff_of_false (fun ⟨_, h⟩ => lowerStmt_assign_ne_ok h) fun h => h.1
  | branch line test body orelse ihb iho =>
    simp only [Source.Stmt.InSubset, Source.Stmt.blocks, List.forall_mem_cons, List.not_mem_nil,
      false_imp_iff, implies_true, and_true, Source.Stmt.Allowed, ← exists_lowerBlock_eq_ok ihb,
      ← exists_lowerBlock_eq_ok iho, lowerStmt_branch_eq_ok, lowerElse_eq_ok]
    rw [← isTyped_none, ← exists_lowerExpr_eq_ok]
    constructor
    · rintro ⟨_, c, hc, b, hb, _, ⟨o, ho, -⟩, -⟩
      exact ⟨⟨c, hc⟩, ⟨b, hb⟩, o, ho⟩
    · rintro ⟨⟨c, hc⟩, ⟨b, hb⟩, o, ho⟩
      exact ⟨_, c, hc, b, hb, _, ⟨o, ho, rfl⟩, rfl⟩
  | loop line target iter body orelse ihb iho =>
    simp only [Source.Stmt.InSubset, Source.Stmt.blocks, List.forall_mem_cons, List.not_mem_nil,
      false_imp_iff, implies_true, and_true, Source.Stmt.Allowed, ← exists_lowerBlock_eq_ok ihb,
      ← exists_lowerBlock_eq_ok iho, lowerStmt_loop_eq_ok]
    rw [← exists_lowerRange_eq_ok line]
    constructor
    · rintro ⟨_, rfl, bounds, hbounds, b, hb, -⟩
      exact ⟨⟨rfl, bounds, hbounds⟩, ⟨b, hb⟩, [], rfl⟩
    · rintro ⟨⟨rfl, bounds, hbounds⟩, ⟨b, hb⟩, -⟩
      exact ⟨_, rfl, bounds, hbounds, b, hb, rfl⟩
  | unsupported line construct =>
    exact iff_of_false (fun ⟨_, h⟩ => lowerStmt_unsupported_ne_ok h) fun h => h.1

end Blocks

/-! ## Functions -/

theorem exists_lowerParams_eq_ok (line : LineNumber) {ps : List Source.Param} :
    (∃ ds, ps.mapM (lowerParam line) = .ok ds) ↔
      ∀ p ∈ ps, ∃ a ∈ p.hint, ∃ ty, a.resolve? = some ty := by
  rw [exists_mapM_eq_ok]
  refine forall₂_congr fun p _ => ?_
  simp only [lowerParam_eq_ok, lowerHint_eq_ok]
  constructor
  · rintro ⟨_, a, ha, ty, hty, -⟩
    exact ⟨a, ha, ty, hty⟩
  · rintro ⟨a, ha, ty, hty⟩
    exact ⟨_, a, ha, ty, hty, rfl⟩

theorem lowerReturnType_eq_ok {f : Source.Function} {ty : Target.Ty} :
    lowerReturnType f.line f.returns = .ok ty ↔ f.returnType? = some ty := by
  rw [Source.Function.returnType?]
  cases f.returns with
  | none => simp [lowerReturnType]
  | some a => exact lowerHint_eq_ok

/-- Lowering accepts the functions of the subset and no others. -/
theorem lowerFunction_accepts_iff (f : Source.Function) :
    (∃ g, lowerFunction f = .ok g) ↔ f.InSubset := by
  have hbody (ty : Target.Ty) : (∃ b, lowerBlock (some ty) f.body = .ok b) ↔
      ∀ s, Within Source.Stmt.blocks s f.body → s.Allowed ty :=
    exists_lowerBlock_eq_ok fun s _ => exists_lowerStmt_eq_ok s
  simp only [lowerFunction_eq_ok, lowerReturnType_eq_ok, Source.Function.InSubset, ← hbody,
    ← exists_lowerParams_eq_ok f.line]
  constructor
  · rintro ⟨_, ty, hty, ps, hps, b, hb, -⟩
    exact ⟨ty, hty, ⟨ps, hps⟩, b, hb⟩
  · rintro ⟨ty, hty, ⟨ps, hps⟩, b, hb⟩
    exact ⟨_, ty, hty, ps, hps, b, hb, rfl⟩

end AnnotatedToC
