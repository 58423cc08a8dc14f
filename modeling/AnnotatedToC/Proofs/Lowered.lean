import AnnotatedToC.Lowering.Stmt
import AnnotatedToC.Proofs.Results
import AnnotatedToC.Proofs.Trees

/-!
# What lowering yields

One equivalence for each construct: what it lowers to, in terms of what its parts lower to. Proofs about
lowered trees rewrite with these and never unfold the lowering itself.
-/
namespace AnnotatedToC

open Source (LineNumber)

section Expressions

variable {expected : Option Target.Ty} {line : LineNumber} {t : Target.Expr}

theorem lowerExpr_constant_eq_ok {value : Source.Literal} :
    lowerExpr expected (.constant line value) = .ok t ↔
      ∃ v, lowerLiteral line value = .ok v ∧ t = .literal v := by
  refine bind_eq_ok.trans ?_
  simp only [pure_eq_ok]

theorem lowerExpr_name_eq_ok {id : String} :
    lowerExpr expected (.name line id) = .ok t ↔ t = .identifier id :=
  pure_eq_ok

theorem lowerExpr_binary_eq_ok {op : Source.Operator} {left right : Source.Expr} :
    lowerExpr expected (.binary line op left right) = .ok t ↔
      ∃ op', lowerOperator line op = .ok op' ∧ ∃ l, lowerExpr none left = .ok l ∧
        ∃ r, lowerExpr none right = .ok r ∧ t = .binary op' l r := by
  refine bind_eq_ok.trans ?_
  simp only [bind_eq_ok, pure_eq_ok]

theorem lowerExpr_subscript_eq_ok {value index : Source.Expr} :
    lowerExpr expected (.subscript line value index) = .ok t ↔
      ∃ v, lowerExpr none value = .ok v ∧ ∃ i, lowerExpr none index = .ok i ∧ t = .index v i := by
  refine bind_eq_ok.trans ?_
  simp only [bind_eq_ok, pure_eq_ok]

theorem lowerExpr_call_eq_ok {func : String} {args : List Source.Expr} :
    lowerExpr expected (.call line func args) = .ok t ↔
      ∃ args', lowerExprs args = .ok args' ∧ t = .call func args' := by
  refine bind_eq_ok.trans ?_
  simp only [pure_eq_ok]

theorem lowerExpr_conditional_eq_ok {test body orelse : Source.Expr} :
    lowerExpr expected (.conditional line test body orelse) = .ok t ↔
      ∃ c, lowerExpr none test = .ok c ∧ ∃ b, lowerExpr expected body = .ok b ∧
        ∃ o, lowerExpr expected orelse = .ok o ∧ t = .ternary c b o := by
  refine bind_eq_ok.trans ?_
  simp only [bind_eq_ok, pure_eq_ok]

theorem lowerExpr_tuple_eq_ok {elements : List Source.Expr} :
    lowerExpr expected (.tuple line elements) = .ok t ↔
      ∃ ty, tupleType line expected = .ok ty ∧ ∃ es, lowerExprs elements = .ok es ∧
        t = .compound ty es := by
  refine bind_eq_ok.trans ?_
  simp only [bind_eq_ok, pure_eq_ok]

theorem lowerExpr_unsupported_ne_ok {construct : String} :
    lowerExpr expected (.unsupported line construct) ≠ .ok t := by
  rintro ⟨⟩

theorem lowerExprs_nil_eq_ok {ts : List Target.Expr} : lowerExprs [] = .ok ts ↔ ts = [] :=
  pure_eq_ok

theorem lowerExprs_cons_eq_ok {e : Source.Expr} {es : List Source.Expr} {ts : List Target.Expr} :
    lowerExprs (e :: es) = .ok ts ↔
      ∃ t, lowerExpr none e = .ok t ∧ ∃ ts', lowerExprs es = .ok ts' ∧ ts = t :: ts' := by
  refine bind_eq_ok.trans ?_
  simp only [bind_eq_ok, pure_eq_ok]

theorem lowerExprs_eq_mapM (es : List Source.Expr) : lowerExprs es = es.mapM (lowerExpr none) := by
  induction es with
  | nil => rfl
  | cons e es ih => rw [lowerExprs, List.mapM_cons, ih]

end Expressions

section Ranges

variable {line : LineNumber}

theorem rangeCall_eq_ok {iter : Source.Expr} {args : List Source.Expr} :
    rangeCall line iter = .ok args ↔ ∃ l, iter = .call l "range" args := by
  cases iter with
  | call l func args' =>
    by_cases hfunc : func = "range"
    · simp [rangeCall, hfunc]
    · simp [rangeCall, hfunc]
  | _ => simp [rangeCall]

theorem forM_eq_ok {ε α : Type} {f : α → Except ε Unit} {xs : List α} :
    xs.forM f = .ok () ↔ ∀ x ∈ xs, f x = .ok () := by
  induction xs with
  | nil => exact iff_of_true rfl (by simp)
  | cons x xs ih =>
    rw [List.forall_mem_cons, ← ih]
    refine bind_eq_ok.trans ?_
    exact ⟨fun ⟨(), hx, hxs⟩ => ⟨hx, hxs⟩, fun ⟨hx, hxs⟩ => ⟨(), hx, hxs⟩⟩

theorem lowerRange_eq_ok {iter : Source.Expr} {bounds : RangeBounds} :
    lowerRange line iter = .ok bounds ↔
      ∃ l args range, iter = .call l "range" args ∧ RangeArgs.ofList line args = .ok range ∧
        (∀ e ∈ args, checkBound line e = .ok ()) ∧ checkStep line range.step = .ok () ∧
        lowerBound 0 range.start = .ok bounds.start ∧
        lowerExpr none range.stop = .ok bounds.stop ∧ lowerBound 1 range.step = .ok bounds.step := by
  simp only [lowerRange, bind_eq_ok, pure_eq_ok, rangeCall_eq_ok]
  constructor
  · rintro ⟨args, ⟨l, rfl⟩, range, hrange, ⟨⟩, hbounds, ⟨⟩, hstep, a, ha, b, hb, c, hc, rfl⟩
    exact ⟨l, args, range, rfl, hrange, forM_eq_ok.mp hbounds, hstep, ha, hb, hc⟩
  · rintro ⟨l, args, range, rfl, hrange, hbounds, hstep, ha, hb, hc⟩
    exact ⟨args, ⟨l, rfl⟩, range, hrange, (), forM_eq_ok.mpr hbounds, (), hstep, _, ha, _, hb, _,
      hc, rfl⟩

/-- The arguments of a range are its start, stop and step. There is no step without a start. -/
theorem RangeArgs.ofList_eq_ok {args : List Source.Expr} {range : RangeArgs} :
    RangeArgs.ofList line args = .ok range ↔
      args = range.start.toList ++ range.stop :: range.step.toList ∧
        (range.start = none → range.step = none) := by
  obtain ⟨start, stop, step⟩ := range
  match args with
  | [] => simp [ofList]
  | [a] => cases start <;> cases step <;> simp [ofList]
  | [a, b] => cases start <;> cases step <;> simp [ofList]
  | [a, b, c] => cases start <;> cases step <;> simp [ofList]
  | a :: b :: c :: d :: rest => cases start <;> cases step <;> simp [ofList]

/-- Constant arguments are integers. -/
theorem checkBound_eq_ok {e : Source.Expr} :
    checkBound line e = .ok () ↔ ∀ l value, e = .constant l value → ∃ n, value = .int n := by
  cases e with
  | constant l value => cases value <;> simp [checkBound]
  | _ => simp [checkBound]

/-- A constant step is positive. -/
theorem checkStep_eq_ok {step : Option Source.Expr} :
    checkStep line step = .ok () ↔ ∀ l n, step = some (.constant l (.int n)) → 1 ≤ n.toInt := by
  rw [checkStep.eq_def]
  split
  · rename_i l n
    have hpos : 0 < n ↔ 1 ≤ n.toInt := by
      rw [Int64.lt_iff_toInt_lt, Int64.toInt_zero]
      rfl
    by_cases hn : 0 < n
    · simp [hn, hpos.mp hn]
    · simp [hn, mt hpos.mpr hn]
  · rename_i hne
    simp only [true_iff]
    intro l n hstep
    exact absurd hstep (hne l n)

theorem lowerBound_eq_ok {default : Int64} {e : Option Source.Expr} {t : Target.Expr} :
    lowerBound default e = .ok t ↔
      (e = none ∧ t = .literal (.int default)) ∨ ∃ x, e = some x ∧ lowerExpr none x = .ok t := by
  cases e with
  | none => simp [lowerBound, eq_comm]
  | some x => simp [lowerBound]

end Ranges

section Statements

variable {returnType : Option Target.Ty} {line : LineNumber} {t : Target.Stmt}

theorem lowerValue_none_eq_ok {expected : Option Target.Ty} {v : Option Target.Expr} :
    lowerValue expected none = .ok v ↔ v = none := by
  simp only [lowerValue, Except.ok.injEq, eq_comm]

theorem lowerValue_some_eq_ok {expected : Option Target.Ty} {e : Source.Expr}
    {v : Option Target.Expr} :
    lowerValue expected (some e) = .ok v ↔ ∃ e', lowerExpr expected e = .ok e' ∧ v = some e' := by
  simp only [lowerValue, bind_eq_ok, pure_eq_ok]

/-- A return is bare where it was, and where the none literal was returned. -/
theorem lowerReturn_eq_ok {expected : Option Target.Ty} {value : Option Source.Expr}
    {v : Option Target.Expr} :
    lowerReturn expected value = .ok v ↔
      ((value = none ∨ ∃ l, value = some (.constant l .null)) ∧ v = none) ∨
      ∃ e, value = some e ∧ (∀ l, e ≠ .constant l .null) ∧
        ∃ e', lowerExpr expected e = .ok e' ∧ v = some e' := by
  rw [lowerReturn.eq_def]
  split
  · simp [eq_comm]
  · rename_i hnull
    cases value with
    | none => simp [lowerValue_none_eq_ok]
    | some e =>
      have hne : ∀ l, e ≠ .constant l .null := by
        intro l hl
        exact hnull l (congrArg some hl)
      simp [lowerValue_some_eq_ok, hne]

theorem lowerStmt_ret_eq_ok {value : Option Source.Expr} :
    lowerStmt returnType (.ret line value) = .ok t ↔
      ∃ v, lowerReturn returnType value = .ok v ∧ t = .ret v := by
  refine bind_eq_ok.trans ?_
  simp only [pure_eq_ok]

theorem lowerStmt_annotated_eq_ok {target : String} {hint : Source.Hint}
    {value : Option Source.Expr} :
    lowerStmt returnType (.annotated line target hint value) = .ok t ↔
      ∃ ty, lowerHint line hint = .ok ty ∧ ∃ init, lowerValue (some ty) value = .ok init ∧
        t = .declaration ⟨target, ty, init⟩ := by
  refine bind_eq_ok.trans ?_
  simp only [bind_eq_ok, pure_eq_ok]

theorem lowerStmt_augmented_eq_ok {target value : Source.Expr} {op : Source.Operator} :
    lowerStmt returnType (.augmented line target op value) = .ok t ↔
      checkUpdated line target = .ok () ∧ ∃ op', lowerOperator line op = .ok op' ∧
        ∃ target', lowerExpr none target = .ok target' ∧
          ∃ value', lowerExpr none value = .ok value' ∧ t = .update ⟨op', target', value'⟩ := by
  refine bind_eq_ok.trans ?_
  simp only [bind_eq_ok, pure_eq_ok]
  exact ⟨fun ⟨(), h⟩ => h, fun h => ⟨(), h⟩⟩

theorem lowerStmt_assign_ne_ok {targets : List String} {value : Source.Expr} :
    lowerStmt returnType (.assign line targets value) ≠ .ok t := by
  rintro ⟨⟩

theorem lowerStmt_branch_eq_ok {test : Source.Expr} {body orelse : List Source.Stmt} :
    lowerStmt returnType (.branch line test body orelse) = .ok t ↔
      ∃ c, lowerExpr none test = .ok c ∧ ∃ b, lowerBlock returnType body = .ok b ∧
        ∃ o, lowerElse returnType orelse = .ok o ∧ t = .conditional c b o := by
  refine bind_eq_ok.trans ?_
  simp only [bind_eq_ok, pure_eq_ok]

theorem lowerStmt_loop_eq_ok {target : String} {iter : Source.Expr}
    {body orelse : List Source.Stmt} :
    lowerStmt returnType (.loop line target iter body orelse) = .ok t ↔
      orelse = [] ∧ ∃ bounds, lowerRange line iter = .ok bounds ∧
        ∃ b, lowerBlock returnType body = .ok b ∧ t = countingLoop target bounds b := by
  cases orelse with
  | nil =>
    simp only [lowerStmt, List.isEmpty_nil, Bool.not_true, Bool.false_eq_true, ↓reduceIte,
      bind_eq_ok, pure_eq_ok, true_and]
  | cons s ss => simp [lowerStmt, bind_eq_ok, throw, throwThe, MonadExceptOf.throw]

theorem lowerStmt_unsupported_ne_ok {construct : String} :
    lowerStmt returnType (.unsupported line construct) ≠ .ok t := by
  rintro ⟨⟩

theorem lowerBlock_nil_eq_ok {ts : List Target.Stmt} : lowerBlock returnType [] = .ok ts ↔ ts = [] :=
  pure_eq_ok

theorem lowerBlock_cons_eq_ok {s : Source.Stmt} {ss : List Source.Stmt} {ts : List Target.Stmt} :
    lowerBlock returnType (s :: ss) = .ok ts ↔
      ∃ t, lowerStmt returnType s = .ok t ∧ ∃ ts', lowerBlock returnType ss = .ok ts' ∧
        ts = t :: ts' := by
  refine bind_eq_ok.trans ?_
  simp only [bind_eq_ok, pure_eq_ok]

theorem lowerBlock_eq_mapM (ss : List Source.Stmt) :
    lowerBlock returnType ss = ss.mapM (lowerStmt returnType) := by
  induction ss with
  | nil => rfl
  | cons s ss ih => rw [lowerBlock, List.mapM_cons, ih]

/-- The other branch of a conditional is lowered like a block, and left out when it is empty. -/
theorem lowerElse_eq_ok {ss : List Source.Stmt} {o : Option (List Target.Stmt)} :
    lowerElse returnType ss = .ok o ↔
      ∃ ts, lowerBlock returnType ss = .ok ts ∧ o = if ss = [] then none else some ts := by
  cases ss with
  | nil => simp [lowerElse, lowerBlock, eq_comm]
  | cons s ss =>
    simp only [lowerElse, lowerBlock_cons_eq_ok, bind_eq_ok, pure_eq_ok]
    constructor
    · rintro ⟨t, ht, ts, hts, rfl⟩
      exact ⟨t :: ts, ⟨t, ht, ts, hts, rfl⟩, by simp⟩
    · rintro ⟨_, ⟨t, ht, ts, hts, rfl⟩, rfl⟩
      exact ⟨t, ht, ts, hts, by simp⟩

end Statements

theorem lowerParam_eq_ok {line : LineNumber} {p : Source.Param} {d : Target.Declaration} :
    lowerParam line p = .ok d ↔
      ∃ a, p.hint = some a ∧ ∃ ty, lowerHint line a = .ok ty ∧ d = ⟨p.name, ty, none⟩ := by
  cases h : p.hint with
  | none => simp [lowerParam, h]
  | some a =>
    simp only [lowerParam, h, bind_eq_ok, pure_eq_ok, Option.some.injEq, exists_eq_left']

theorem names_lowerParams {line : LineNumber} {ps : List Source.Param}
    {ds : List Target.Declaration} (h : ps.mapM (lowerParam line) = .ok ds) :
    ds.map Target.Declaration.name = ps.map Source.Param.name := by
  induction ps generalizing ds with
  | nil =>
    obtain rfl := pure_eq_ok.mp h
    rfl
  | cons p ps ih =>
    simp only [List.mapM_cons, bind_eq_ok, pure_eq_ok] at h
    obtain ⟨d, hd, ds, hds, rfl⟩ := h
    obtain ⟨a, -, ty, -, rfl⟩ := lowerParam_eq_ok.mp hd
    rw [List.map_cons, List.map_cons, ih hds]

theorem lowerFunction_eq_ok {f : Source.Function} {g : Target.Function} :
    lowerFunction f = .ok g ↔
      ∃ ty, lowerReturnType f.line f.returns = .ok ty ∧
        ∃ params, f.params.mapM (lowerParam f.line) = .ok params ∧
          ∃ body, lowerBlock (some ty) f.body = .ok body ∧ g = ⟨f.name, ty, params, body⟩ := by
  simp only [lowerFunction, bind_eq_ok, pure_eq_ok]

end AnnotatedToC
