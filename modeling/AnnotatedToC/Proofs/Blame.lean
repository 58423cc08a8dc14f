import AnnotatedToC.Proofs.Subset

/-!
# What an error is about

An error is earned by something in the function, and by the first thing that earns one: by the return
annotation, else by the first parameter without a type, else by a statement to which lowering comes after
everything before it was lowered. The cause and the line of the error are those of what earned it.
-/
namespace AnnotatedToC

open Source (LineNumber arithmetic)

namespace Source

/-- The expressions of a statement, those of the statements inside it apart. -/
def Stmt.exprs : Stmt → List Expr
  | .ret _ value | .annotated _ _ _ value => value.toList
  | .augmented _ target _ value => [target, value]
  | .assign _ _ value => [value]
  | .branch _ test _ _ => [test]
  | .loop _ _ iter _ _ => [iter]
  | .unsupported _ _ => []

/-- The type that is expected of the value of a statement. -/
def Stmt.expected? (returnType : Target.Ty) : Stmt → Option Target.Ty
  | .ret _ _ => some returnType
  | .annotated _ _ hint _ => hint.resolve?
  | _ => none

/-- The expression stands in one of those of the statement, at a place of position `p`. -/
def Stmt.Holds (s : Stmt) (p : Position) (x : Expr) : Prop :=
  ∃ e ∈ s.exprs, Occurs Expr.parts p x e

end Source

/-- What is wrong with the arguments is so of them. -/
def RangeFault.IsOf (args : List Source.Expr) : RangeFault → Prop
  | .notInteger bound => (∀ n, bound ≠ .int n) ∧ ∃ l, .constant l bound ∈ args
  | .stepNotPositive step => step.toInt ≤ 0 ∧ ∃ l, args[2]? = some (.constant l (.int step))

namespace Source

/-- The statement has the construct at the line, itself or in an expression. -/
def Stmt.HasConstruct (line : LineNumber) (s : Stmt) : Construct → Prop
  | .node name => s = .unsupported line name ∨ ∃ p, s.Holds p (.unsupported line name)
  | .noneLiteral =>
    (∃ p, s.Holds p (.constant line .null)) ∧ ∀ l, s ≠ .ret l (some (.constant line .null))
  | .loopElse => ∃ target iter body orelse, s = .loop line target iter body orelse ∧ orelse ≠ []
  | .augmentedTarget construct => ∃ target op value,
    s = .augmented line target op value ∧ ¬ target.IsPlace ∧ construct = target.construct
  | .iterationOver construct => ∃ target iter body, s = .loop line target iter body [] ∧
    (∀ l func args, iter ≠ .call l func args) ∧ construct = iter.construct
  | .iterationOverCall func => func ≠ "range" ∧
    ∃ target l args body, s = .loop line target (.call l func args) body []
  | .rangeArguments count => (count = 0 ∨ 3 < count) ∧ ∃ target l args body,
    s = .loop line target (.call l "range" args) body [] ∧ args.length = count

/-- The statement is to blame for an error of the cause at the line, in a function of the given return
type. The statements inside it are not looked at. -/
def Stmt.Earns (returnType : Target.Ty) (s : Stmt) (line : LineNumber) : Cause → Prop
  | .unknownOperator op => op ∉ arithmetic ∧
    ((∃ target value, s = .augmented line target op value) ∨
      ∃ p left right, s.Holds p (.binary line op left right))
  | .missingHint subject => ∃ targets value,
    subject = .assignment targets ∧ s = .assign line targets value
  | .unsupportedHint shown => ∃ a target value,
    s = .annotated line target a value ∧ a.resolve? = none ∧ shown.text = a.display
  | .missingExpectedType => ∃ p elements, s.Holds p (.tuple line elements) ∧
    ¬ (p = .tail ∧ IsTyped (s.expected? returnType))
  | .unknownRangeForm fault => ∃ target l args body,
    s = .loop line target (.call l "range" args) body [] ∧ fault.IsOf args
  | .unsupportedConstruct construct => s.HasConstruct line construct

/-- The parameter has an annotation with a type. -/
def Param.HasType (p : Param) : Prop := ∃ a ∈ p.hint, ∃ ty, a.resolve? = some ty

/-- The parameter is to blame for an error of the cause. -/
def Param.Earns (p : Param) : Cause → Prop
  | .missingHint subject => p.hint = none ∧ subject = .parameter p.name
  | .unsupportedHint shown => ∃ a, p.hint = some a ∧ a.resolve? = none ∧ shown.text = a.display
  | _ => False

/-- The return annotation is to blame, or it has a type and the first parameter without one is. -/
def Function.HeaderEarns (f : Function) (cause : Cause) : Prop :=
  (∃ a, f.returns = some a ∧ a.resolve? = none ∧ cause = .unsupportedHint (.of a)) ∨
    (∃ ty, f.returnType? = some ty) ∧ ∃ before p after, f.params = before ++ p :: after ∧
      (∀ q ∈ before, q.HasType) ∧ p.Earns cause

end Source

/-- Everything in the block before the statement is lowered. -/
def FirstIn (returnType : Option Target.Ty) (s : Source.Stmt) (ss : List Source.Stmt) : Prop :=
  ∃ before after, ss = before ++ s :: after ∧ ∀ t ∈ before, ∃ t', lowerStmt returnType t = .ok t'

/-- Lowering the statement `t` comes to `s`, which is `t` or stands inside it: all that is lowered before
`s` on the way, statements of its block and earlier blocks, is lowered. -/
inductive Reaches (returnType : Option Target.Ty) (s : Source.Stmt) : Source.Stmt → Prop
  | self : Reaches returnType s s
  | inside {t u : Source.Stmt} {earlier later : List (List Source.Stmt)} {block : List Source.Stmt} :
    t.blocks = earlier ++ block :: later →
    (∀ b ∈ earlier, ∃ ts, lowerBlock returnType b = .ok ts) →
    FirstIn returnType u block → Reaches returnType s u → Reaches returnType s t

/-! ## Expressions -/

namespace Source

/-- The expression is to blame for the error at a position of a whole whose type is known or not. -/
def Expr.Earns (typed : Prop) (p : Position) (e : LoweringError) : Expr → Prop
  | .constant line value => value = .null ∧ e = ⟨.unsupportedConstruct .noneLiteral, line⟩
  | .binary line op _ _ => op ∉ arithmetic ∧ e = ⟨.unknownOperator op, line⟩
  | .tuple line _ => ¬ (p = .tail ∧ typed) ∧ e = ⟨.missingExpectedType, line⟩
  | .unsupported line construct => e = ⟨.unsupportedConstruct (.node construct), line⟩
  | .name _ _ | .subscript _ _ _ | .call _ _ _ | .conditional _ _ _ _ => False

/-- Something in the expression is to blame. -/
def Expr.Blamed (typed : Prop) (e : LoweringError) (root : Expr) : Prop :=
  ∃ p x, Occurs Expr.parts p x root ∧ x.Earns typed p e

variable {typed : Prop} {e : LoweringError} {root c : Expr}

theorem Expr.blamed_root (h : root.Earns typed .tail e) : root.Blamed typed e :=
  ⟨.tail, root, .root root, h⟩

theorem Expr.Blamed.of_tail (h : c.Blamed typed e) (hc : (.tail, c) ∈ root.parts) :
    root.Blamed typed e := by
  obtain ⟨p, x, hx, hearns⟩ := h
  exact ⟨_, x, .part hc hx, hearns⟩

/-- Inside an expression no type is known. -/
theorem Expr.Blamed.of_inner (h : c.Blamed (IsTyped none) e) (hc : (.inner, c) ∈ root.parts) :
    root.Blamed typed e := by
  obtain ⟨p, x, hx, hearns⟩ := h
  refine ⟨_, x, .part hc hx, ?_⟩
  cases x with
  | tuple line elements => exact ⟨by simp [Position.within], hearns.2⟩
  | _ => exact hearns

end Source

theorem lowerOperator_eq_error {line : LineNumber} {op : Source.Operator} {e : LoweringError}
    (h : lowerOperator line op = .error e) : op ∉ arithmetic ∧ e = ⟨.unknownOperator op, line⟩ := by
  cases op <;> cases h
  all_goals exact ⟨by decide, rfl⟩

theorem lowerLiteral_eq_error {line : LineNumber} {value : Source.Literal} {e : LoweringError}
    (h : lowerLiteral line value = .error e) :
    value = .null ∧ e = ⟨.unsupportedConstruct .noneLiteral, line⟩ := by
  cases value <;> cases h
  exact ⟨rfl, rfl⟩

theorem tupleType_eq_error {line : LineNumber} {expected : Option Target.Ty} {e : LoweringError}
    (h : tupleType line expected = .error e) :
    ¬ IsTyped expected ∧ e = ⟨.missingExpectedType, line⟩ := by
  cases expected with
  | none =>
    cases h
    exact ⟨isTyped_none.mp, rfl⟩
  | some ty =>
    cases ty <;> cases h
    exact ⟨fun htyped => isTyped_some.mp htyped rfl, rfl⟩

theorem exists_of_lowerExprs_eq_error {es : List Source.Expr} {e : LoweringError}
    (h : lowerExprs es = .error e) : ∃ x ∈ es, lowerExpr none x = .error e := by
  rw [lowerExprs_eq_mapM] at h
  obtain ⟨before, x, after, rfl, -, hx⟩ := exists_of_mapM_eq_error h
  exact ⟨x, by simp, hx⟩

theorem blamed_of_lowerExpr_eq_error {x : Source.Expr} {expected : Option Target.Ty}
    {e : LoweringError} (h : lowerExpr expected x = .error e) : x.Blamed (IsTyped expected) e := by
  induction x generalizing expected with
  | constant line value =>
    rcases bind_eq_error.mp h with hvalue | ⟨v, -, h⟩
    · exact Source.Expr.blamed_root (lowerLiteral_eq_error hvalue)
    · cases h
  | name line id => cases h
  | binary line op left right ihl ihr =>
    rcases bind_eq_error.mp h with hop | ⟨op', -, h⟩
    · exact Source.Expr.blamed_root (lowerOperator_eq_error hop)
    rcases bind_eq_error.mp h with hl | ⟨l, -, h⟩
    · exact (ihl hl).of_inner (by simp [Source.Expr.parts])
    rcases bind_eq_error.mp h with hr | ⟨r, -, h⟩
    · exact (ihr hr).of_inner (by simp [Source.Expr.parts])
    · cases h
  | subscript line value index ihv ihi =>
    rcases bind_eq_error.mp h with hv | ⟨v, -, h⟩
    · exact (ihv hv).of_inner (by simp [Source.Expr.parts])
    rcases bind_eq_error.mp h with hi | ⟨i, -, h⟩
    · exact (ihi hi).of_inner (by simp [Source.Expr.parts])
    · cases h
  | call line func args ih =>
    rcases bind_eq_error.mp h with hargs | ⟨ts, -, h⟩
    · obtain ⟨arg, hmem, harg⟩ := exists_of_lowerExprs_eq_error hargs
      exact (ih arg hmem harg).of_inner (List.mem_map_of_mem hmem)
    · cases h
  | conditional line test body orelse iht ihb iho =>
    rcases bind_eq_error.mp h with hc | ⟨c, -, h⟩
    · exact (iht hc).of_inner (by simp [Source.Expr.parts])
    rcases bind_eq_error.mp h with hb | ⟨b, -, h⟩
    · exact (ihb hb).of_tail (by simp [Source.Expr.parts])
    rcases bind_eq_error.mp h with ho | ⟨o, -, h⟩
    · exact (iho ho).of_tail (by simp [Source.Expr.parts])
    · cases h
  | tuple line elements ih =>
    rcases bind_eq_error.mp h with hty | ⟨ty, -, h⟩
    · obtain ⟨htyped, he⟩ := tupleType_eq_error hty
      exact Source.Expr.blamed_root ⟨fun htail => htyped htail.2, he⟩
    rcases bind_eq_error.mp h with helements | ⟨ts, -, h⟩
    · obtain ⟨element, hmem, helement⟩ := exists_of_lowerExprs_eq_error helements
      exact (ih element hmem helement).of_inner (List.mem_map_of_mem hmem)
    · cases h
  | unsupported line construct =>
    cases h
    exact Source.Expr.blamed_root rfl

/-- A statement is to blame for what is wrong in its expressions. -/
theorem Source.Stmt.earns_of_blamed {returnType : Target.Ty} {s : Source.Stmt} {root : Source.Expr}
    {e : LoweringError} (hroot : root ∈ s.exprs)
    (hreturn : ∀ l l', s ≠ .ret l (some (.constant l' .null)))
    (h : root.Blamed (IsTyped (s.expected? returnType)) e) : s.Earns returnType e.line e.cause := by
  obtain ⟨p, x, hx, hearns⟩ := h
  have hholds : s.Holds p x := ⟨root, hroot, hx⟩
  cases x with
  | constant line value =>
    obtain ⟨rfl, rfl⟩ := hearns
    exact ⟨⟨p, hholds⟩, fun l => hreturn l line⟩
  | binary line op left right =>
    obtain ⟨hop, rfl⟩ := hearns
    exact ⟨hop, .inr ⟨p, left, right, hholds⟩⟩
  | tuple line elements =>
    obtain ⟨hplace, rfl⟩ := hearns
    exact ⟨p, elements, hholds, hplace⟩
  | unsupported line construct =>
    obtain rfl : e = _ := hearns
    exact .inr ⟨p, hholds⟩
  | name line id => exact hearns.elim
  | subscript line value index => exact hearns.elim
  | call line func args => exact hearns.elim
  | conditional line test body orelse => exact hearns.elim

/-! ## Ranges -/

theorem exists_of_forM_eq_error {ε α : Type} {f : α → Except ε Unit} {xs : List α} {e : ε}
    (h : xs.forM f = .error e) : ∃ x ∈ xs, f x = .error e := by
  induction xs with
  | nil => cases h
  | cons x xs ih =>
    rcases bind_eq_error.mp h with hx | ⟨u, -, hxs⟩
    · exact ⟨x, List.mem_cons_self, hx⟩
    · obtain ⟨y, hy, hfy⟩ := ih hxs
      exact ⟨y, List.mem_cons_of_mem x hy, hfy⟩

theorem checkBound_eq_error {line : LineNumber} {x : Source.Expr} {e : LoweringError}
    (h : checkBound line x = .error e) : ∃ l value, x = .constant l value ∧ (∀ n, value ≠ .int n) ∧
      e = ⟨.unknownRangeForm (.notInteger value), line⟩ := by
  cases x with
  | constant l value =>
    cases value with
    | int n => cases h
    | _ =>
      cases h
      exact ⟨l, _, rfl, by simp, rfl⟩
  | _ => cases h

theorem checkStep_eq_error {line : LineNumber} {step : Option Source.Expr} {e : LoweringError}
    (h : checkStep line step = .error e) : ∃ l n, step = some (.constant l (.int n)) ∧ n.toInt ≤ 0 ∧
      e = ⟨.unknownRangeForm (.stepNotPositive n), line⟩ := by
  rw [checkStep.eq_def] at h
  split at h
  · rename_i l n
    split_ifs at h with hn
    cases h
    rw [Int64.lt_iff_toInt_lt, Int64.toInt_zero] at hn
    exact ⟨l, n, rfl, by omega, rfl⟩
  · cases h

theorem rangeCall_eq_error {line : LineNumber} {iter : Source.Expr} {e : LoweringError}
    (h : rangeCall line iter = .error e) :
    (∃ l func args, iter = .call l func args ∧ func ≠ "range" ∧
      e = ⟨.unsupportedConstruct (.iterationOverCall func), line⟩) ∨
    (∀ l func args, iter ≠ .call l func args) ∧
      e = ⟨.unsupportedConstruct (.iterationOver iter.construct), line⟩ := by
  cases iter with
  | call l func args =>
    by_cases hfunc : func = "range"
    · rw [rangeCall, if_pos hfunc] at h
      cases h
    · rw [rangeCall, if_neg hfunc] at h
      cases h
      exact .inl ⟨l, func, args, rfl, hfunc, rfl⟩
  | _ =>
    cases h
    exact .inr ⟨by simp, rfl⟩

theorem RangeArgs.ofList_eq_error {line : LineNumber} {args : List Source.Expr} {e : LoweringError}
    (h : RangeArgs.ofList line args = .error e) : (args.length = 0 ∨ 3 < args.length) ∧
      e = ⟨.unsupportedConstruct (.rangeArguments args.length), line⟩ := by
  match args with
  | [] =>
    cases h
    exact ⟨.inl rfl, rfl⟩
  | [_] | [_, _] | [_, _, _] => cases h
  | a :: b :: c :: d :: rest =>
    cases h
    exact ⟨.inr (by simp), rfl⟩

theorem lowerBound_eq_error {default : Int64} {x : Option Source.Expr} {e : LoweringError}
    (h : lowerBound default x = .error e) : ∃ b, x = some b ∧ lowerExpr none b = .error e := by
  cases x with
  | none => cases h
  | some b => exact ⟨b, rfl, h⟩

/-- A loop without an else is to blame for what is wrong with its range. -/
theorem earns_of_lowerRange_eq_error {returnType : Target.Ty} {line : LineNumber} {target : String}
    {iter : Source.Expr} {body : List Source.Stmt} {e : LoweringError}
    (h : lowerRange line iter = .error e) :
    (Source.Stmt.loop line target iter body []).Earns returnType e.line e.cause := by
  rcases bind_eq_error.mp h with hcall | ⟨args, hcall, hbounds⟩
  · rcases rangeCall_eq_error hcall with ⟨l, func, args, rfl, hfunc, rfl⟩ | ⟨hiter, rfl⟩
    · exact ⟨hfunc, target, l, args, body, rfl⟩
    · exact ⟨target, iter, body, rfl, hiter, rfl⟩
  obtain ⟨l, rfl⟩ := rangeCall_eq_ok.mp hcall
  -- an argument that is not lowered stands inside the range
  have harg (x : Source.Expr) (hx : x ∈ args) (hlower : lowerExpr none x = .error e) :
      (Source.Stmt.loop line target (.call l "range" args) body []).Earns returnType e.line e.cause := by
    refine Source.Stmt.earns_of_blamed (List.mem_singleton.mpr rfl) (by simp) ?_
    exact (blamed_of_lowerExpr_eq_error hlower).of_inner (List.mem_map_of_mem hx)
  rcases bind_eq_error.mp hbounds with hcount | ⟨range, hrange, hbounds⟩
  · obtain ⟨hlength, rfl⟩ := RangeArgs.ofList_eq_error hcount
    exact ⟨hlength, target, l, args, body, rfl, rfl⟩
  have hargs := (RangeArgs.ofList_eq_ok.mp hrange).1
  rcases bind_eq_error.mp hbounds with hconstants | ⟨_, -, hbounds⟩
  · obtain ⟨x, hx, hbound⟩ := exists_of_forM_eq_error hconstants
    obtain ⟨l', value, rfl, hvalue, rfl⟩ := checkBound_eq_error hbound
    exact ⟨target, l, args, body, rfl, hvalue, l', hx⟩
  rcases bind_eq_error.mp hbounds with hstep | ⟨_, -, hbounds⟩
  · obtain ⟨l', n, hconstant, hn, rfl⟩ := checkStep_eq_error hstep
    rw [RangeArgs.step_eq hrange] at hconstant
    exact ⟨target, l, args, body, rfl, hn, l', hconstant⟩
  rcases bind_eq_error.mp hbounds with hstart | ⟨start, -, hbounds⟩
  · obtain ⟨x, hx, hlower⟩ := lowerBound_eq_error hstart
    exact harg x (by simp [hargs, hx]) hlower
  rcases bind_eq_error.mp hbounds with hstop | ⟨stop, -, hbounds⟩
  · exact harg range.stop (by simp [hargs]) hstop
  rcases bind_eq_error.mp hbounds with hlast | ⟨step, -, hbounds⟩
  · obtain ⟨x, hx, hlower⟩ := lowerBound_eq_error hlast
    exact harg x (by simp [hargs, hx]) hlower
  · cases hbounds

/-! ## Statements -/

theorem lowerValue_eq_error {expected : Option Target.Ty} {value : Option Source.Expr}
    {e : LoweringError} (h : lowerValue expected value = .error e) :
    ∃ x, value = some x ∧ lowerExpr expected x = .error e := by
  cases value with
  | none => cases h
  | some x =>
    rcases bind_eq_error.mp h with hx | ⟨t, -, h⟩
    · exact ⟨x, rfl, hx⟩
    · cases h

theorem lowerReturn_eq_error {expected : Option Target.Ty} {value : Option Source.Expr}
    {e : LoweringError} (h : lowerReturn expected value = .error e) :
    ∃ x, value = some x ∧ (∀ l, x ≠ .constant l .null) ∧ lowerExpr expected x = .error e := by
  rw [lowerReturn.eq_def] at h
  split at h
  · cases h
  · rename_i hnull
    obtain ⟨x, rfl, hx⟩ := lowerValue_eq_error h
    refine ⟨x, rfl, ?_, hx⟩
    rintro l rfl
    exact hnull l rfl

theorem checkUpdated_eq_error {line : LineNumber} {x : Source.Expr} {e : LoweringError}
    (h : checkUpdated line x = .error e) :
    ¬ x.IsPlace ∧ e = ⟨.unsupportedConstruct (.augmentedTarget x.construct), line⟩ := by
  cases x <;> cases h
  all_goals exact ⟨id, rfl⟩

theorem lowerElse_eq_error {returnType : Option Target.Ty} {ss : List Source.Stmt}
    {e : LoweringError} (h : lowerElse returnType ss = .error e) :
    lowerBlock returnType ss = .error e := by
  cases ss with
  | nil => cases h
  | cons s ss =>
    rcases bind_eq_error.mp h with hs | ⟨t, ht, h⟩
    · exact bind_eq_error.mpr (.inl hs)
    rcases bind_eq_error.mp h with hss | ⟨ts, -, h⟩
    · exact bind_eq_error.mpr (.inr ⟨t, ht, bind_eq_error.mpr (.inl hss)⟩)
    · cases h

section Blocks

variable {ty : Target.Ty} {e : LoweringError}

/-- Lowering the statement comes to one that is to blame for the error. -/
def Source.Stmt.Fails (ty : Target.Ty) (e : LoweringError) (s : Source.Stmt) : Prop :=
  ∃ t, Reaches (some ty) t s ∧ lowerStmt (some ty) t = .error e ∧ t.Earns ty e.line e.cause

theorem exists_firstIn_of_lowerBlock_eq_error {ss : List Source.Stmt}
    (h : lowerBlock (some ty) ss = .error e) :
    ∃ s ∈ ss, FirstIn (some ty) s ss ∧ lowerStmt (some ty) s = .error e := by
  rw [lowerBlock_eq_mapM] at h
  obtain ⟨before, s, after, rfl, hbefore, hs⟩ := exists_of_mapM_eq_error h
  exact ⟨s, by simp, ⟨before, after, rfl, hbefore⟩, hs⟩

/-- A statement fails if one of its blocks does, after those before it were lowered. -/
theorem fails_of_block {s : Source.Stmt} {earlier later : List (List Source.Stmt)}
    {block : List Source.Stmt} (hblocks : s.blocks = earlier ++ block :: later)
    (hearlier : ∀ b ∈ earlier, ∃ ts, lowerBlock (some ty) b = .ok ts)
    (hblock : lowerBlock (some ty) block = .error e)
    (ih : ∀ u ∈ block, lowerStmt (some ty) u = .error e → u.Fails ty e) : s.Fails ty e := by
  obtain ⟨u, hu, hfirst, herror⟩ := exists_firstIn_of_lowerBlock_eq_error hblock
  obtain ⟨t, hreaches, ht⟩ := ih u hu herror
  exact ⟨t, .inside hblocks hearlier hfirst hreaches, ht⟩

theorem fails_self {s : Source.Stmt} (h : lowerStmt (some ty) s = .error e)
    (hearns : s.Earns ty e.line e.cause) : s.Fails ty e :=
  ⟨s, .self, h, hearns⟩

theorem fails_of_lowerStmt_eq_error {s : Source.Stmt} (h : lowerStmt (some ty) s = .error e) :
    s.Fails ty e := by
  induction s with
  | ret line value =>
    rcases bind_eq_error.mp h with hvalue | ⟨v, -, hrest⟩
    · obtain ⟨x, rfl, hx, hlower⟩ := lowerReturn_eq_error hvalue
      refine fails_self h (Source.Stmt.earns_of_blamed (List.mem_singleton.mpr rfl) ?_
        (blamed_of_lowerExpr_eq_error hlower))
      rintro l l' ⟨⟩
      exact hx l' rfl
    · cases hrest
  | annotated line target hint value =>
    rcases bind_eq_error.mp h with hhint | ⟨ty', hty, hrest⟩
    · obtain ⟨hresolve, rfl⟩ := lowerHint_eq_error hhint
      exact fails_self h ⟨hint, target, value, rfl, hresolve, rfl⟩
    rcases bind_eq_error.mp hrest with hvalue | ⟨v, -, hrest⟩
    · obtain ⟨x, rfl, hlower⟩ := lowerValue_eq_error hvalue
      rw [← lowerHint_eq_ok.mp hty] at hlower
      exact fails_self h (Source.Stmt.earns_of_blamed (List.mem_singleton.mpr rfl) (by simp)
        (blamed_of_lowerExpr_eq_error hlower))
    · cases hrest
  | augmented line target op value =>
    rcases bind_eq_error.mp h with hplace | ⟨_, -, hrest⟩
    · obtain ⟨htarget, rfl⟩ := checkUpdated_eq_error hplace
      exact fails_self h ⟨target, op, value, rfl, htarget, rfl⟩
    rcases bind_eq_error.mp hrest with hop | ⟨op', -, hrest⟩
    · obtain ⟨hmem, rfl⟩ := lowerOperator_eq_error hop
      exact fails_self h ⟨hmem, .inl ⟨target, value, rfl⟩⟩
    rcases bind_eq_error.mp hrest with htarget | ⟨target', -, hrest⟩
    · exact fails_self h (Source.Stmt.earns_of_blamed List.mem_cons_self (by simp)
        (blamed_of_lowerExpr_eq_error htarget))
    rcases bind_eq_error.mp hrest with hvalue | ⟨value', -, hrest⟩
    · exact fails_self h (Source.Stmt.earns_of_blamed
        (List.mem_cons_of_mem _ (List.mem_singleton.mpr rfl)) (by simp)
        (blamed_of_lowerExpr_eq_error hvalue))
    · cases hrest
  | assign line targets value =>
    cases h
    exact fails_self rfl ⟨targets, value, rfl, rfl⟩
  | branch line test body orelse ihb iho =>
    rcases bind_eq_error.mp h with htest | ⟨c, -, hrest⟩
    · exact fails_self h (Source.Stmt.earns_of_blamed (List.mem_singleton.mpr rfl) (by simp)
        (blamed_of_lowerExpr_eq_error htest))
    rcases bind_eq_error.mp hrest with hbody | ⟨b, hb, hrest⟩
    · have hblocks : (Source.Stmt.branch line test body orelse).blocks = [] ++ body :: [orelse] := rfl
      exact fails_of_block hblocks (List.forall_mem_nil _) hbody ihb
    rcases bind_eq_error.mp hrest with horelse | ⟨o, -, hrest⟩
    · have hblocks : (Source.Stmt.branch line test body orelse).blocks = [body] ++ orelse :: [] := rfl
      exact fails_of_block hblocks (List.forall_mem_singleton.mpr ⟨b, hb⟩)
        (lowerElse_eq_error horelse) iho
    · cases hrest
  | loop line target iter body orelse ihb iho =>
    cases orelse with
    | nil =>
      rcases bind_eq_error.mp h with hrange | ⟨bounds, -, hrest⟩
      · exact fails_self h (earns_of_lowerRange_eq_error hrange)
      rcases bind_eq_error.mp hrest with hbody | ⟨b, -, hrest⟩
      · have hblocks : (Source.Stmt.loop line target iter body []).blocks = [] ++ body :: [[]] := rfl
        exact fails_of_block hblocks (List.forall_mem_nil _) hbody ihb
      · cases hrest
    | cons s ss =>
      cases h
      exact fails_self rfl ⟨target, iter, body, s :: ss, rfl, by simp⟩
  | unsupported line construct =>
    cases h
    exact fails_self rfl (.inl rfl)

end Blocks

/-! ## Functions -/

theorem lowerReturnType_eq_error {line : LineNumber} {returns : Option Source.Hint} {e : LoweringError}
    (h : lowerReturnType line returns = .error e) :
    ∃ a, returns = some a ∧ a.resolve? = none ∧ e = ⟨.unsupportedHint (.of a), line⟩ := by
  cases returns with
  | none => cases h
  | some a => exact ⟨a, rfl, lowerHint_eq_error h⟩

theorem lowerParam_eq_error {line : LineNumber} {p : Source.Param} {e : LoweringError}
    (h : lowerParam line p = .error e) : e.line = line ∧ p.Earns e.cause := by
  unfold lowerParam at h
  split at h
  · rename_i hnone
    cases h
    exact ⟨rfl, hnone, rfl⟩
  · rename_i a ha
    rcases bind_eq_error.mp h with hhint | ⟨ty, -, hrest⟩
    · obtain ⟨hresolve, rfl⟩ := lowerHint_eq_error hhint
      exact ⟨rfl, a, ha, hresolve, rfl⟩
    · cases hrest

theorem hasType_of_lowerParam {line : LineNumber} {p : Source.Param} {d : Target.Declaration}
    (h : lowerParam line p = .ok d) : p.HasType := by
  obtain ⟨a, ha, ty, hty, -⟩ := lowerParam_eq_ok.mp h
  exact ⟨a, ha, ty, lowerHint_eq_ok.mp hty⟩

/-- An error of lowering is about the header of the function, at its line, or about a statement of it to
which lowering comes after everything before was lowered. -/
theorem lowerFunction_error_earned {f : Source.Function} {e : LoweringError}
    (h : lowerFunction f = .error e) :
    (e.line = f.line ∧ f.HeaderEarns e.cause) ∨
      ∃ ty, f.returnType? = some ty ∧ (∀ p ∈ f.params, p.HasType) ∧
        ∃ t s, FirstIn (some ty) t f.body ∧ Reaches (some ty) s t ∧
          lowerStmt (some ty) s = .error e ∧ s.Earns ty e.line e.cause := by
  rcases bind_eq_error.mp h with hreturns | ⟨ty, hty, hrest⟩
  · obtain ⟨a, ha, hresolve, rfl⟩ := lowerReturnType_eq_error hreturns
    exact .inl ⟨rfl, .inl ⟨a, ha, hresolve, rfl⟩⟩
  have htype := lowerReturnType_eq_ok.mp hty
  rcases bind_eq_error.mp hrest with hparams | ⟨params, hparams, hrest⟩
  · obtain ⟨before, p, after, hsplit, hbefore, hp⟩ := exists_of_mapM_eq_error hparams
    obtain ⟨hline, hearns⟩ := lowerParam_eq_error hp
    refine .inl ⟨hline, .inr ⟨⟨ty, htype⟩, before, p, after, hsplit, ?_, hearns⟩⟩
    intro q hq
    obtain ⟨d, hd⟩ := hbefore q hq
    exact hasType_of_lowerParam hd
  rcases bind_eq_error.mp hrest with hbody | ⟨body, -, hrest⟩
  · obtain ⟨t, -, hfirst, ht⟩ := exists_firstIn_of_lowerBlock_eq_error hbody
    obtain ⟨s, hreaches, hs, hearns⟩ := fails_of_lowerStmt_eq_error ht
    exact .inr ⟨ty, htype, (exists_lowerParams_eq_ok f.line).mp ⟨params, hparams⟩, t, s, hfirst, hreaches,
      hs, hearns⟩
  · cases hrest

/-- An assignment without annotation, in the else branch of a conditional in a loop, and an unsupported
statement after the loop. -/
def nestedAssignment : Source.Function where
  name := "f"
  params := [⟨"n", some (.name "int")⟩]
  returns := none
  line := 1
  body := [
    .annotated 2 "x" (.name "int") (some (.constant 2 (.int 0))),
    .loop 3 "i" (.call 3 "range" [.name 3 "n"]) [
      .branch 4 (.name 4 "x")
        [.augmented 5 (.name 5 "x") .add (.name 5 "i")]
        [.augmented 7 (.name 7 "x") .sub (.name 7 "i"), .assign 8 ["y", "z"] (.name 8 "x")]] [],
    .unsupported 9 "While"]

theorem lowerFunction_error_earned_nestedAssignment :
    lowerFunction nestedAssignment = .error ⟨.missingHint (.assignment ["y", "z"]), 8⟩ ∧
      ∃ t value, FirstIn (some .void) t nestedAssignment.body ∧
        Reaches (some .void) (.assign 8 ["y", "z"] value) t := by
  have h : lowerFunction nestedAssignment = .error ⟨.missingHint (.assignment ["y", "z"]), 8⟩ := rfl
  refine ⟨h, ?_⟩
  rcases lowerFunction_error_earned h with ⟨hline, -⟩ | ⟨ty, hty, -, t, s, hfirst, hreaches, -, hearns⟩
  · exact absurd hline (by decide)
  · obtain ⟨targets, value, hsubject, rfl⟩ := hearns
    cases hty
    cases hsubject
    exact ⟨t, value, hfirst, hreaches⟩

end AnnotatedToC
