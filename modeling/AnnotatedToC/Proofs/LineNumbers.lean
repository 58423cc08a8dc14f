import AnnotatedToC.Proofs.Lowered

/-!
# Line numbers

The lines of a function can be renamed, those of the statements and expressions inside it included. No
decision of lowering depends on a line and none is computed: the renamed function lowers to the very same
function, or fails with the same cause at the renamed line.
-/
namespace AnnotatedToC

open Source (LineNumber)

namespace Source

mutual

/-- The expression with every line renamed. -/
def Expr.mapLines (r : LineNumber → LineNumber) : Expr → Expr
  | .constant line value => .constant (r line) value
  | .name line id => .name (r line) id
  | .binary line op left right => .binary (r line) op (left.mapLines r) (right.mapLines r)
  | .subscript line value index => .subscript (r line) (value.mapLines r) (index.mapLines r)
  | .call line func args => .call (r line) func (mapLinesOf r args)
  | .conditional line test body orelse =>
    .conditional (r line) (test.mapLines r) (body.mapLines r) (orelse.mapLines r)
  | .tuple line elements => .tuple (r line) (mapLinesOf r elements)
  | .unsupported line construct => .unsupported (r line) construct

def mapLinesOf (r : LineNumber → LineNumber) : List Expr → List Expr
  | [] => []
  | e :: es => e.mapLines r :: mapLinesOf r es

end

mutual

/-- The statement with every line renamed. -/
def Stmt.mapLines (r : LineNumber → LineNumber) : Stmt → Stmt
  | .ret line value => .ret (r line) (value.map (Expr.mapLines r))
  | .annotated line target hint value =>
    .annotated (r line) target hint (value.map (Expr.mapLines r))
  | .augmented line target op value => .augmented (r line) (target.mapLines r) op (value.mapLines r)
  | .assign line targets value => .assign (r line) targets (value.mapLines r)
  | .branch line test body orelse =>
    .branch (r line) (test.mapLines r) (mapLinesBlock r body) (mapLinesBlock r orelse)
  | .loop line target iter body orelse =>
    .loop (r line) target (iter.mapLines r) (mapLinesBlock r body) (mapLinesBlock r orelse)
  | .unsupported line construct => .unsupported (r line) construct

def mapLinesBlock (r : LineNumber → LineNumber) : List Stmt → List Stmt
  | [] => []
  | s :: ss => s.mapLines r :: mapLinesBlock r ss

end

/-- The function with its own line renamed and every line inside it. -/
def Function.mapLines (r : LineNumber → LineNumber) (f : Function) : Function :=
  { f with body := mapLinesBlock r f.body, line := r f.line }

/-- Constants are those of the expression before. -/
theorem Expr.mapLines_eq_constant {r : LineNumber → LineNumber} {e : Expr} {l : LineNumber}
    {value : Literal} (h : e.mapLines r = .constant l value) : ∃ l', e = .constant l' value := by
  cases e with
  | constant l' value' =>
    cases h
    exact ⟨l', rfl⟩
  | _ => cases h

theorem mapLinesOf_eq_map (r : LineNumber → LineNumber) (es : List Expr) :
    mapLinesOf r es = es.map (Expr.mapLines r) := by
  induction es with
  | nil => rfl
  | cons e es ih => rw [mapLinesOf, ih, List.map_cons]

end Source

/-- The same error at the renamed line. -/
def LoweringError.mapLine (r : LineNumber → LineNumber) (e : LoweringError) : LoweringError :=
  { e with line := r e.line }

section Renamed

variable {α β γ : Type} {r : LineNumber → LineNumber}

/-- What a computation gives when the lines are renamed: the same value, or the same error at the
renamed line. -/
def Lowered.mapLine (r : LineNumber → LineNumber) (x : Lowered α) : Lowered α :=
  x.mapError (LoweringError.mapLine r)

theorem Lowered.mapLine_eq_ok {x : Lowered α} {a : α} : x.mapLine r = .ok a ↔ x = .ok a := mapError_eq_ok

theorem Lowered.mapLine_bind {x x' : Lowered α} {f f' : α → Lowered β} (hx : x' = x.mapLine r)
    (hf : ∀ a, f' a = (f a).mapLine r) : x' >>= f' = (x >>= f).mapLine r := by
  subst hx
  cases x with
  | error e => rfl
  | ok a => exact hf a

/-- Two computations whose first steps differ in the lines of what they give. -/
theorem Lowered.mapLine_bind_map {x : Lowered α} {x' : Lowered β} {f : α → Lowered γ}
    {f' : β → Lowered γ} {g : α → β} (hx : x' = Lowered.mapLine r (x.map g))
    (hf : ∀ a, f' (g a) = (f a).mapLine r) : x' >>= f' = (x >>= f).mapLine r := by
  subst hx
  cases x with
  | error e => rfl
  | ok a => exact hf a

theorem Lowered.mapLine_mapM {f f' : α → Lowered β} {xs : List α}
    (h : ∀ x ∈ xs, f' x = (f x).mapLine r) : xs.mapM f' = Lowered.mapLine r (xs.mapM f) := by
  induction xs with
  | nil => rfl
  | cons x xs ih =>
    rw [List.forall_mem_cons] at h
    rw [List.mapM_cons, List.mapM_cons]
    refine mapLine_bind h.1 fun y => mapLine_bind (ih h.2) fun ys => rfl

end Renamed

variable (r : LineNumber → LineNumber) (line : LineNumber)

/-! ## Expressions -/

theorem lowerOperator_mapLine (op : Source.Operator) :
    lowerOperator (r line) op = (lowerOperator line op).mapLine r := by
  cases op <;> rfl

theorem lowerLiteral_mapLine (value : Source.Literal) :
    lowerLiteral (r line) value = (lowerLiteral line value).mapLine r := by
  cases value <;> rfl

theorem tupleType_mapLine (expected : Option Target.Ty) :
    tupleType (r line) expected = (tupleType line expected).mapLine r := by
  cases expected with
  | none => rfl
  | some ty => cases ty <;> rfl

theorem lowerExprs_mapLines {es : List Source.Expr}
    (h : ∀ e ∈ es, ∀ expected, lowerExpr expected (e.mapLines r) = (lowerExpr expected e).mapLine r) :
    lowerExprs (Source.mapLinesOf r es) = (lowerExprs es).mapLine r := by
  induction es with
  | nil => rfl
  | cons e es ih =>
    rw [List.forall_mem_cons] at h
    exact Lowered.mapLine_bind (h.1 none) fun t => Lowered.mapLine_bind (ih h.2) fun ts => rfl

theorem lowerExpr_mapLines (e : Source.Expr) (expected : Option Target.Ty) :
    lowerExpr expected (e.mapLines r) = (lowerExpr expected e).mapLine r := by
  induction e generalizing expected with
  | constant line value => exact Lowered.mapLine_bind (lowerLiteral_mapLine r line value) fun v => rfl
  | name line id => rfl
  | binary line op left right ihl ihr =>
    refine Lowered.mapLine_bind (lowerOperator_mapLine r line op) fun op' => ?_
    exact Lowered.mapLine_bind (ihl none) fun l => Lowered.mapLine_bind (ihr none) fun r => rfl
  | subscript line value index ihv ihi =>
    exact Lowered.mapLine_bind (ihv none) fun v => Lowered.mapLine_bind (ihi none) fun i => rfl
  | call line func args ih => exact Lowered.mapLine_bind (lowerExprs_mapLines r ih) fun ts => rfl
  | conditional line test body orelse iht ihb iho =>
    refine Lowered.mapLine_bind (iht none) fun c => ?_
    exact Lowered.mapLine_bind (ihb expected) fun b =>
      Lowered.mapLine_bind (iho expected) fun o => rfl
  | tuple line elements ih =>
    refine Lowered.mapLine_bind (tupleType_mapLine r line expected) fun ty => ?_
    exact Lowered.mapLine_bind (lowerExprs_mapLines r ih) fun ts => rfl
  | unsupported line construct => rfl

/-! ## Ranges -/

def RangeArgs.mapLines (range : RangeArgs) : RangeArgs where
  start := range.start.map (Source.Expr.mapLines r)
  stop := range.stop.mapLines r
  step := range.step.map (Source.Expr.mapLines r)

theorem rangeCall_mapLines (iter : Source.Expr) :
    rangeCall (r line) (iter.mapLines r) =
      Lowered.mapLine r ((rangeCall line iter).map (Source.mapLinesOf r)) := by
  cases iter with
  | call l func args =>
    by_cases hfunc : func = "range"
    · simp only [Source.Expr.mapLines, rangeCall, if_pos hfunc]
      rfl
    · simp only [Source.Expr.mapLines, rangeCall, if_neg hfunc]
      rfl
  | _ => rfl

theorem RangeArgs.ofList_mapLines (args : List Source.Expr) :
    RangeArgs.ofList (r line) (Source.mapLinesOf r args) =
      Lowered.mapLine r ((RangeArgs.ofList line args).map (RangeArgs.mapLines r)) := by
  match args with
  | [] | [_] | [_, _] | [_, _, _] => rfl
  | a :: b :: c :: d :: rest =>
    have hlength : (Source.mapLinesOf r rest).length = rest.length := by
      rw [Source.mapLinesOf_eq_map, List.length_map]
    simp only [Source.mapLinesOf, RangeArgs.ofList, List.length_cons, hlength]
    rfl

theorem checkBound_mapLines (e : Source.Expr) :
    checkBound (r line) (e.mapLines r) = (checkBound line e).mapLine r := by
  cases e with
  | constant l value => cases value <;> rfl
  | _ => rfl

theorem checkBounds_mapLines (args : List Source.Expr) :
    (Source.mapLinesOf r args).forM (checkBound (r line)) =
      Lowered.mapLine r (args.forM (checkBound line)) := by
  induction args with
  | nil => rfl
  | cons e es ih => exact Lowered.mapLine_bind (checkBound_mapLines r line e) fun _ => ih

theorem checkStep_mapLines (step : Option Source.Expr) :
    checkStep (r line) (step.map (Source.Expr.mapLines r)) = (checkStep line step).mapLine r := by
  by_cases hconstant : ∃ l n, step = some (.constant l (.int n))
  · obtain ⟨l, n, rfl⟩ := hconstant
    by_cases hn : 0 < n
    · simp only [Option.map_some, Source.Expr.mapLines, checkStep, if_pos hn]
      rfl
    · simp only [Option.map_some, Source.Expr.mapLines, checkStep, if_neg hn]
      rfl
  · have hstep : ∀ l n, step = some (.constant l (.int n)) → False :=
      fun l n h => hconstant ⟨l, n, h⟩
    have hmapped : ∀ l n, step.map (Source.Expr.mapLines r) = some (.constant l (.int n)) → False := by
      intro l n h
      obtain ⟨e, rfl, he⟩ := Option.map_eq_some_iff.mp h
      obtain ⟨l', rfl⟩ := Source.Expr.mapLines_eq_constant he
      exact hstep l' n rfl
    rw [checkStep.eq_2 _ _ hstep, checkStep.eq_2 _ _ hmapped]
    rfl

theorem lowerBound_mapLines (default : Int64) (e : Option Source.Expr) :
    lowerBound default (e.map (Source.Expr.mapLines r)) = (lowerBound default e).mapLine r := by
  cases e with
  | none => rfl
  | some e => exact lowerExpr_mapLines r e none

theorem lowerRange_mapLines (iter : Source.Expr) :
    lowerRange (r line) (iter.mapLines r) = (lowerRange line iter).mapLine r := by
  refine Lowered.mapLine_bind_map (rangeCall_mapLines r line iter) fun args => ?_
  refine Lowered.mapLine_bind_map (RangeArgs.ofList_mapLines r line args) fun range => ?_
  refine Lowered.mapLine_bind (checkBounds_mapLines r line args) fun _ => ?_
  refine Lowered.mapLine_bind (checkStep_mapLines r line range.step) fun _ => ?_
  refine Lowered.mapLine_bind (lowerBound_mapLines r 0 range.start) fun start => ?_
  refine Lowered.mapLine_bind (lowerExpr_mapLines r range.stop none) fun stop => ?_
  exact Lowered.mapLine_bind (lowerBound_mapLines r 1 range.step) fun step => rfl

/-! ## Statements -/

theorem lowerHint_mapLine (a : Source.Hint) : lowerHint (r line) a = (lowerHint line a).mapLine r := by
  unfold lowerHint
  cases a.resolve <;> rfl

theorem lowerValue_mapLines (expected : Option Target.Ty) (value : Option Source.Expr) :
    lowerValue expected (value.map (Source.Expr.mapLines r)) =
      (lowerValue expected value).mapLine r := by
  cases value with
  | none => rfl
  | some e => exact Lowered.mapLine_bind (lowerExpr_mapLines r e expected) fun t => rfl

theorem lowerReturn_mapLines (expected : Option Target.Ty) (value : Option Source.Expr) :
    lowerReturn expected (value.map (Source.Expr.mapLines r)) =
      (lowerReturn expected value).mapLine r := by
  by_cases hnull : ∃ l, value = some (.constant l .null)
  · obtain ⟨l, rfl⟩ := hnull
    rfl
  · have hvalue : ∀ l, value = some (.constant l .null) → False := fun l h => hnull ⟨l, h⟩
    have hmapped : ∀ l, value.map (Source.Expr.mapLines r) = some (.constant l .null) → False := by
      intro l h
      obtain ⟨e, rfl, he⟩ := Option.map_eq_some_iff.mp h
      obtain ⟨l', rfl⟩ := Source.Expr.mapLines_eq_constant he
      exact hvalue l' rfl
    rw [lowerReturn.eq_2 _ _ hvalue, lowerReturn.eq_2 _ _ hmapped, lowerValue_mapLines]

theorem checkUpdated_mapLines (e : Source.Expr) :
    checkUpdated (r line) (e.mapLines r) = (checkUpdated line e).mapLine r := by
  cases e <;> rfl

section Blocks

variable {r} {returnType : Option Target.Ty} {ss : List Source.Stmt}

theorem lowerBlock_mapLines
    (h : ∀ s ∈ ss, lowerStmt returnType (s.mapLines r) = (lowerStmt returnType s).mapLine r) :
    lowerBlock returnType (Source.mapLinesBlock r ss) = (lowerBlock returnType ss).mapLine r := by
  induction ss with
  | nil => rfl
  | cons s ss ih =>
    rw [List.forall_mem_cons] at h
    exact Lowered.mapLine_bind h.1 fun t => Lowered.mapLine_bind (ih h.2) fun ts => rfl

theorem lowerElse_mapLines
    (h : ∀ s ∈ ss, lowerStmt returnType (s.mapLines r) = (lowerStmt returnType s).mapLine r) :
    lowerElse returnType (Source.mapLinesBlock r ss) = (lowerElse returnType ss).mapLine r := by
  cases ss with
  | nil => rfl
  | cons s ss =>
    rw [List.forall_mem_cons] at h
    exact Lowered.mapLine_bind h.1 fun t => Lowered.mapLine_bind (lowerBlock_mapLines h.2) fun ts => rfl

end Blocks

theorem lowerStmt_mapLines (returnType : Option Target.Ty) (s : Source.Stmt) :
    lowerStmt returnType (s.mapLines r) = (lowerStmt returnType s).mapLine r := by
  induction s with
  | ret line value =>
    exact Lowered.mapLine_bind (lowerReturn_mapLines r returnType value) fun v => rfl
  | annotated line target hint value =>
    refine Lowered.mapLine_bind (lowerHint_mapLine r line hint) fun ty => ?_
    exact Lowered.mapLine_bind (lowerValue_mapLines r (some ty) value) fun init => rfl
  | augmented line target op value =>
    refine Lowered.mapLine_bind (checkUpdated_mapLines r line target) fun _ => ?_
    refine Lowered.mapLine_bind (lowerOperator_mapLine r line op) fun op' => ?_
    refine Lowered.mapLine_bind (lowerExpr_mapLines r target none) fun target' => ?_
    exact Lowered.mapLine_bind (lowerExpr_mapLines r value none) fun value' => rfl
  | assign line targets value => rfl
  | branch line test body orelse ihb iho =>
    refine Lowered.mapLine_bind (lowerExpr_mapLines r test none) fun c => ?_
    refine Lowered.mapLine_bind (lowerBlock_mapLines ihb) fun b => ?_
    exact Lowered.mapLine_bind (lowerElse_mapLines iho) fun o => rfl
  | loop line target iter body orelse ihb iho =>
    cases orelse with
    | nil =>
      refine Lowered.mapLine_bind (lowerRange_mapLines r line iter) fun bounds => ?_
      exact Lowered.mapLine_bind (lowerBlock_mapLines ihb) fun b => rfl
    | cons s ss => rfl
  | unsupported line construct => rfl

/-! ## Functions -/

theorem lowerParam_mapLine (p : Source.Param) :
    lowerParam (r line) p = (lowerParam line p).mapLine r := by
  unfold lowerParam
  cases p.hint with
  | none => rfl
  | some a => exact Lowered.mapLine_bind (lowerHint_mapLine r line a) fun ty => rfl

theorem lowerReturnType_mapLine (returns : Option Source.Hint) :
    lowerReturnType (r line) returns = (lowerReturnType line returns).mapLine r := by
  cases returns with
  | none => rfl
  | some a => exact lowerHint_mapLine r line a

/-- A function with renamed lines lowers to the same function, or fails with the same cause at the renamed
line. -/
theorem lowerFunction_mapLines (f : Source.Function) :
    lowerFunction (f.mapLines r) = (lowerFunction f).mapError (LoweringError.mapLine r) := by
  refine Lowered.mapLine_bind (lowerReturnType_mapLine r f.line f.returns) fun ty => ?_
  refine Lowered.mapLine_bind (Lowered.mapLine_mapM fun p _ => lowerParam_mapLine r f.line p)
    fun params => ?_
  exact Lowered.mapLine_bind (lowerBlock_mapLines fun s _ => lowerStmt_mapLines r (some ty) s)
    fun body => rfl

end AnnotatedToC
