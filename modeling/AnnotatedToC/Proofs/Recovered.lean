import AnnotatedToC.Proofs.LineNumbers
import AnnotatedToC.Proofs.Subset

/-!
# What lowering forgets

A lowered function does not show the lines of its source, the way its types were annotated, whether a
return had the none literal or nothing, and which bounds of a range were left out. In the canonical form
of a function these are always the same. The canonical form can be read off the lowered function, and it
is lowered to that function, so lowering forgets nothing else.
-/
namespace AnnotatedToC

open Source (LineNumber)

namespace Source

/-- The annotation that stands for all those of the type. -/
def Hint.ofTy : Target.Ty → Hint
  | .int => .name "int"
  | .double => .name "float"
  | .void => .null
  | .pointer element => .subscript "Array" (ofTy element)
  | .tuple => .subscript "tuple" (.tuple [])

/-- Of an annotation only its type is kept. -/
def Hint.canonical (a : Hint) : Hint := a.resolve?.elim a ofTy

theorem Hint.ofTy_ne_tuple (ty : Target.Ty) (elements : List Hint) : ofTy ty ≠ .tuple elements := by
  cases ty <;> simp [ofTy]

theorem Hint.resolve?_ofTy (ty : Target.Ty) : (ofTy ty).resolve? = some ty := by
  induction ty with
  | pointer element ih =>
    rw [resolve?_eq_some] at ih ⊢
    exact resolve_array rfl (ofTy_ne_tuple element) ih
  | int | double | void | tuple => rfl

theorem Hint.canonical_of_resolve? {a : Hint} {ty : Target.Ty} (h : a.resolve? = some ty) :
    a.canonical = ofTy ty := by
  rw [canonical, h, Option.elim_some]

mutual

/-- The expression without its lines. -/
def Expr.canonical : Expr → Expr
  | .constant _ value => .constant 0 value
  | .name _ id => .name 0 id
  | .binary _ op left right => .binary 0 op left.canonical right.canonical
  | .subscript _ value index => .subscript 0 value.canonical index.canonical
  | .call _ func args => .call 0 func (canonicalAll args)
  | .conditional _ test body orelse =>
    .conditional 0 test.canonical body.canonical orelse.canonical
  | .tuple _ elements => .tuple 0 (canonicalAll elements)
  | .unsupported _ construct => .unsupported 0 construct

def canonicalAll : List Expr → List Expr
  | [] => []
  | e :: es => e.canonical :: canonicalAll es

end

theorem canonicalAll_eq_mapLinesOf {es : List Expr}
    (h : ∀ e ∈ es, e.canonical = e.mapLines fun _ => 0) :
    canonicalAll es = mapLinesOf (fun _ => 0) es := by
  induction es with
  | nil => rfl
  | cons e es ih =>
    rw [List.forall_mem_cons] at h
    rw [canonicalAll, mapLinesOf, h.1, ih h.2]

/-- Every line is renamed to the same one. -/
theorem Expr.canonical_eq_mapLines (e : Expr) : e.canonical = e.mapLines fun _ => 0 := by
  induction e with
  | constant line value => rfl
  | name line id => rfl
  | binary line op left right ihl ihr => rw [canonical, mapLines, ihl, ihr]
  | subscript line value index ihv ihi => rw [canonical, mapLines, ihv, ihi]
  | call line func args ih => rw [canonical, mapLines, canonicalAll_eq_mapLinesOf ih]
  | conditional line test body orelse iht ihb iho => rw [canonical, mapLines, iht, ihb, iho]
  | tuple line elements ih => rw [canonical, mapLines, canonicalAll_eq_mapLinesOf ih]
  | unsupported line construct => rfl

/-- What a loop goes through, with the start and the step of a range that does not give them. -/
def Expr.canonicalRange : Expr → Expr
  | .call _ "range" [stop] =>
    .call 0 "range" [.constant 0 (.int 0), stop.canonical, .constant 0 (.int 1)]
  | .call _ "range" [start, stop] =>
    .call 0 "range" [start.canonical, stop.canonical, .constant 0 (.int 1)]
  | iter => iter.canonical

/-- What is returned, where returning the none literal is returning nothing. -/
def canonicalReturn : Option Expr → Option Expr
  | some (.constant _ .null) => none
  | value => value.map Expr.canonical

mutual

def Stmt.canonical : Stmt → Stmt
  | .ret _ value => .ret 0 (canonicalReturn value)
  | .annotated _ target hint value =>
    .annotated 0 target hint.canonical (value.map Expr.canonical)
  | .augmented _ target op value => .augmented 0 target.canonical op value.canonical
  | .assign _ targets value => .assign 0 targets value.canonical
  | .branch _ test body orelse =>
    .branch 0 test.canonical (canonicalBlock body) (canonicalBlock orelse)
  | .loop _ target iter body orelse =>
    .loop 0 target iter.canonicalRange (canonicalBlock body) (canonicalBlock orelse)
  | .unsupported _ construct => .unsupported 0 construct

def canonicalBlock : List Stmt → List Stmt
  | [] => []
  | s :: ss => s.canonical :: canonicalBlock ss

end

def Param.canonical (p : Param) : Param := { p with hint := p.hint.map Hint.canonical }

/-- A missing return annotation is that of the void type. -/
def canonicalReturns (returns : Option Hint) : Hint := returns.elim (.ofTy .void) Hint.canonical

/-- The function without its lines, with one annotation for each type, bare returns, and ranges that
give all their bounds. -/
def Function.canonical (f : Function) : Function where
  name := f.name
  params := f.params.map Param.canonical
  returns := some (canonicalReturns f.returns)
  body := canonicalBlock f.body
  line := 0

end Source

/-! ## The source of a lowered tree -/

namespace Target

def Operator.source? : Operator → Option Source.Operator
  | .add => some .add
  | .sub => some .sub
  | .mul => some .mult
  | .div => some .div
  | .lt => none

def Literal.source : Literal → Source.Literal
  | .int value => .int value
  | .float value => .float value
  | .bool value => .bool value
  | .str value => .str value

mutual

/-- The canonical expression that is lowered to the given one. -/
def Expr.source? : Expr → Option Source.Expr
  | .identifier name => some (.name 0 name)
  | .literal value => some (.constant 0 value.source)
  | .binary op left right => do return .binary 0 (← op.source?) (← left.source?) (← right.source?)
  | .index base index => do return .subscript 0 (← base.source?) (← index.source?)
  | .call callee args => do return .call 0 callee (← sources? args)
  | .ternary cond thenExpr elseExpr => do
    return .conditional 0 (← cond.source?) (← thenExpr.source?) (← elseExpr.source?)
  | .compound _ elements => do return .tuple 0 (← sources? elements)

def sources? : List Expr → Option (List Source.Expr)
  | [] => some []
  | e :: es => do return (← e.source?) :: (← sources? es)

end

def valueSource? : Option Expr → Option (Option Source.Expr)
  | none => some none
  | some e => do return some (← e.source?)

/-- The canonical range of a counting loop. -/
def loopSource? (init : Declaration) (cond : Expr) (next : Update) : Option Source.Expr :=
  match init.init, cond with
  | some start, .binary .lt _ stop => do
    return .call 0 "range" [← start.source?, ← stop.source?, ← next.value.source?]
  | _, _ => none

mutual

/-- The canonical statement that is lowered to the given one. -/
def Stmt.source? : Stmt → Option Source.Stmt
  | .declaration d => do return .annotated 0 d.name (.ofTy d.ty) (← valueSource? d.init)
  | .update u => do
    return .augmented 0 (← u.target.source?) (← u.operator.source?) (← u.value.source?)
  | .conditional cond thenBranch elseBranch => do
    return .branch 0 (← cond.source?) (← blockSource? thenBranch) (← elseSource? elseBranch)
  | .loop init cond next body => do
    return .loop 0 init.name (← loopSource? init cond next) (← blockSource? body) []
  | .ret value => do return .ret 0 (← valueSource? value)

def blockSource? : List Stmt → Option (List Source.Stmt)
  | [] => some []
  | s :: ss => do return (← s.source?) :: (← blockSource? ss)

def elseSource? : Option (List Stmt) → Option (List Source.Stmt)
  | none => some []
  | some body => blockSource? body

end

def Declaration.param (d : Declaration) : Source.Param := ⟨d.name, some (.ofTy d.ty)⟩

/-- The canonical function that is lowered to the given one. -/
def Function.source? (f : Function) : Option Source.Function := do
  return ⟨f.name, f.params.map Declaration.param, some (.ofTy f.returnType), ← blockSource? f.body, 0⟩

end Target

/-! ## Expressions -/

theorem source?_lowerOperator {line : LineNumber} {op : Source.Operator} {op' : Target.Operator}
    (h : lowerOperator line op = .ok op') : op'.source? = some op := by
  cases op <;> cases h <;> rfl

theorem source_lowerLiteral {line : LineNumber} {value : Source.Literal} {v : Target.Literal}
    (h : lowerLiteral line value = .ok v) : v.source = value := by
  cases value <;> cases h <;> rfl

theorem sources?_lowerExprs {es : List Source.Expr} {ts : List Target.Expr}
    (hes : ∀ e ∈ es, ∀ expected t, lowerExpr expected e = .ok t → t.source? = some e.canonical)
    (h : lowerExprs es = .ok ts) : Target.sources? ts = some (Source.canonicalAll es) := by
  induction es generalizing ts with
  | nil =>
    obtain rfl := lowerExprs_nil_eq_ok.mp h
    rfl
  | cons e es ih =>
    obtain ⟨t, ht, ts, hts, rfl⟩ := lowerExprs_cons_eq_ok.mp h
    rw [List.forall_mem_cons] at hes
    rw [Target.sources?, hes.1 none t ht, ih hes.2 hts]
    rfl

/-- A lowered expression shows all of its source but the lines. -/
theorem source?_lowerExpr (e : Source.Expr) (expected : Option Target.Ty) (t : Target.Expr)
    (h : lowerExpr expected e = .ok t) : t.source? = some e.canonical := by
  induction e generalizing expected t with
  | constant line value =>
    obtain ⟨v, hv, rfl⟩ := lowerExpr_constant_eq_ok.mp h
    rw [Target.Expr.source?, source_lowerLiteral hv, Source.Expr.canonical]
  | name line id =>
    obtain rfl := lowerExpr_name_eq_ok.mp h
    rfl
  | binary line op left right ihl ihr =>
    obtain ⟨op', hop, l, hl, r, hr, rfl⟩ := lowerExpr_binary_eq_ok.mp h
    rw [Target.Expr.source?, source?_lowerOperator hop, ihl none l hl, ihr none r hr]
    rfl
  | subscript line value index ihv ihi =>
    obtain ⟨v, hv, i, hi, rfl⟩ := lowerExpr_subscript_eq_ok.mp h
    rw [Target.Expr.source?, ihv none v hv, ihi none i hi]
    rfl
  | call line func args ih =>
    obtain ⟨args', hargs, rfl⟩ := lowerExpr_call_eq_ok.mp h
    rw [Target.Expr.source?, sources?_lowerExprs ih hargs]
    rfl
  | conditional line test body orelse iht ihb iho =>
    obtain ⟨c, hc, b, hb, o, ho, rfl⟩ := lowerExpr_conditional_eq_ok.mp h
    rw [Target.Expr.source?, iht none c hc, ihb expected b hb, iho expected o ho]
    rfl
  | tuple line elements ih =>
    -- the type comes from elsewhere and is no part of the source
    obtain ⟨ty, -, es, hes, rfl⟩ := lowerExpr_tuple_eq_ok.mp h
    rw [Target.Expr.source?, sources?_lowerExprs ih hes]
    rfl
  | unsupported line construct => exact absurd h lowerExpr_unsupported_ne_ok

/-- The lines of an expression do not matter. -/
theorem lowerExpr_canonical (e : Source.Expr) (expected : Option Target.Ty) (t : Target.Expr)
    (h : lowerExpr expected e = .ok t) : lowerExpr expected e.canonical = .ok t := by
  rw [Source.Expr.canonical_eq_mapLines, lowerExpr_mapLines]
  exact Lowered.mapLine_eq_ok.mpr h

/-! ## Ranges -/

/-- A bound that is given, or its default. -/
def canonicalBound (default : Int64) (e : Option Source.Expr) : Source.Expr :=
  e.elim (.constant 0 (.int default)) Source.Expr.canonical

theorem canonicalRange_eq {line l : LineNumber} {args : List Source.Expr} {range : RangeArgs}
    (h : RangeArgs.ofList line args = .ok range) :
    (Source.Expr.call l "range" args).canonicalRange =
      .call 0 "range" [canonicalBound 0 range.start, range.stop.canonical,
        canonicalBound 1 range.step] := by
  obtain ⟨start, stop, step⟩ := range
  obtain ⟨rfl, hstep⟩ := RangeArgs.ofList_eq_ok.mp h
  cases start with
  | none =>
    obtain rfl : step = none := hstep rfl
    rfl
  | some start => cases step <;> rfl

theorem source?_lowerBound {default : Int64} {e : Option Source.Expr} {t : Target.Expr}
    (h : lowerBound default e = .ok t) : t.source? = some (canonicalBound default e) := by
  rcases lowerBound_eq_ok.mp h with ⟨rfl, rfl⟩ | ⟨x, rfl, hx⟩
  · rfl
  · exact source?_lowerExpr x none t hx

theorem loopSource?_lowerRange {line : LineNumber} {counter : String} {iter : Source.Expr}
    {bounds : RangeBounds} (h : lowerRange line iter = .ok bounds) :
    Target.loopSource? ⟨counter, .int, some bounds.start⟩
        (.binary .lt (.identifier counter) bounds.stop) ⟨.add, .identifier counter, bounds.step⟩ =
      some iter.canonicalRange := by
  obtain ⟨l, args, range, rfl, hargs, -, -, ha, hb, hc⟩ := lowerRange_eq_ok.mp h
  simp only [Target.loopSource?, source?_lowerBound ha, source?_lowerExpr _ _ _ hb,
    source?_lowerBound hc, canonicalRange_eq hargs]
  rfl

theorem lowerExpr_canonicalBound {default : Int64} {e : Option Source.Expr} {t : Target.Expr}
    (h : lowerBound default e = .ok t) : lowerExpr none (canonicalBound default e) = .ok t := by
  rcases lowerBound_eq_ok.mp h with ⟨rfl, rfl⟩ | ⟨x, rfl, hx⟩
  · rfl
  · exact lowerExpr_canonical x none t hx

theorem exists_of_canonical_eq_constant {e : Source.Expr} {l : LineNumber} {value : Source.Literal}
    (h : e.canonical = .constant l value) : ∃ l', e = .constant l' value := by
  rw [Source.Expr.canonical_eq_mapLines] at h
  exact Source.Expr.mapLines_eq_constant h

theorem checkBound_canonical {line : LineNumber} {e : Source.Expr} (h : checkBound line e = .ok ()) :
    checkBound 0 e.canonical = .ok () := by
  rw [Source.Expr.canonical_eq_mapLines]
  exact (checkBound_mapLines (fun _ => 0) line e).trans (Lowered.mapLine_eq_ok.mpr h)

theorem checkBound_canonicalBound {line : LineNumber} {default : Int64} {e : Option Source.Expr}
    (h : ∀ x ∈ e, checkBound line x = .ok ()) : checkBound 0 (canonicalBound default e) = .ok () := by
  cases e with
  | none => rfl
  | some x => exact checkBound_canonical (h x rfl)

theorem checkStep_canonicalBound {line : LineNumber} {e : Option Source.Expr}
    (h : checkStep line e = .ok ()) : checkStep 0 (some (canonicalBound 1 e)) = .ok () := by
  cases e with
  | none => rfl
  | some x =>
    rw [checkStep_eq_ok] at h ⊢
    intro l n hn
    obtain ⟨l', rfl⟩ := exists_of_canonical_eq_constant (Option.some.inj hn)
    exact h l' n rfl

/-- Bounds that are left out are the same as their defaults. -/
theorem lowerRange_canonicalRange {line : LineNumber} {iter : Source.Expr} {bounds : RangeBounds}
    (h : lowerRange line iter = .ok bounds) : lowerRange 0 iter.canonicalRange = .ok bounds := by
  obtain ⟨l, args, range, rfl, hargs, hbounds, hstep, ha, hb, hc⟩ := lowerRange_eq_ok.mp h
  rw [canonicalRange_eq hargs]
  rw [(RangeArgs.ofList_eq_ok.mp hargs).1, List.forall_mem_append, List.forall_mem_cons] at hbounds
  simp only [Option.mem_toList] at hbounds
  refine lowerRange_eq_ok.mpr ⟨0, _, ⟨some (canonicalBound 0 range.start), range.stop.canonical,
    some (canonicalBound 1 range.step)⟩, rfl, rfl, ?_, checkStep_canonicalBound hstep,
    lowerExpr_canonicalBound ha, lowerExpr_canonical _ _ _ hb, lowerExpr_canonicalBound hc⟩
  simp only [List.forall_mem_cons, List.not_mem_nil, false_imp_iff, implies_true, and_true]
  exact ⟨checkBound_canonicalBound hbounds.1, checkBound_canonical hbounds.2.1,
    checkBound_canonicalBound hbounds.2.2⟩

/-! ## Statements -/

theorem valueSource?_lowerValue {expected : Option Target.Ty} {value : Option Source.Expr}
    {v : Option Target.Expr} (h : lowerValue expected value = .ok v) :
    Target.valueSource? v = some (value.map Source.Expr.canonical) := by
  cases value with
  | none =>
    obtain rfl := lowerValue_none_eq_ok.mp h
    rfl
  | some e =>
    obtain ⟨t, ht, rfl⟩ := lowerValue_some_eq_ok.mp h
    rw [Target.valueSource?, source?_lowerExpr e expected t ht]
    rfl

theorem lowerValue_canonical {expected : Option Target.Ty} {value : Option Source.Expr}
    {v : Option Target.Expr} (h : lowerValue expected value = .ok v) :
    lowerValue expected (value.map Source.Expr.canonical) = .ok v := by
  cases value with
  | none => exact h
  | some e =>
    obtain ⟨t, ht, rfl⟩ := lowerValue_some_eq_ok.mp h
    exact lowerValue_some_eq_ok.mpr ⟨t, lowerExpr_canonical e expected t ht, rfl⟩

theorem canonicalReturn_some {e : Source.Expr} (h : ∀ l, e ≠ .constant l .null) :
    Source.canonicalReturn (some e) = some e.canonical := by
  refine Source.canonicalReturn.eq_2 (some e) ?_
  intro l hl
  exact h l (Option.some.inj hl)

theorem valueSource?_lowerReturn {expected : Option Target.Ty} {value : Option Source.Expr}
    {v : Option Target.Expr} (h : lowerReturn expected value = .ok v) :
    Target.valueSource? v = some (Source.canonicalReturn value) := by
  rcases lowerReturn_eq_ok.mp h with ⟨rfl | ⟨l, rfl⟩, rfl⟩ | ⟨e, rfl, hne, t, ht, rfl⟩
  · rfl
  · rfl
  · rw [canonicalReturn_some hne, Target.valueSource?, source?_lowerExpr e expected t ht]
    rfl

theorem lowerReturn_canonicalReturn {expected : Option Target.Ty} {value : Option Source.Expr}
    {v : Option Target.Expr} (h : lowerReturn expected value = .ok v) :
    lowerReturn expected (Source.canonicalReturn value) = .ok v := by
  rcases lowerReturn_eq_ok.mp h with ⟨rfl | ⟨l, rfl⟩, rfl⟩ | ⟨e, rfl, hne, t, ht, rfl⟩
  · rfl
  · rfl
  · rw [canonicalReturn_some hne]
    refine lowerReturn_eq_ok.mpr
      (.inr ⟨e.canonical, rfl, ?_, t, lowerExpr_canonical e expected t ht, rfl⟩)
    intro l hl
    obtain ⟨l', rfl⟩ := exists_of_canonical_eq_constant hl
    exact hne l' rfl

theorem lowerHint_canonical {line : LineNumber} {a : Source.Hint} {ty : Target.Ty}
    (h : lowerHint line a = .ok ty) : a.canonical = .ofTy ty ∧ lowerHint 0 a.canonical = .ok ty := by
  rw [lowerHint_eq_ok] at h ⊢
  rw [Source.Hint.canonical_of_resolve? h]
  exact ⟨rfl, Source.Hint.resolve?_ofTy ty⟩

theorem Source.Expr.IsPlace.canonical {e : Source.Expr} (h : e.IsPlace) : e.canonical.IsPlace := by
  cases e with
  | name | subscript => exact h
  | _ => cases h

section Blocks

variable {returnType : Option Target.Ty} {ss : List Source.Stmt}

theorem blockSource?_lowerBlock {ts : List Target.Stmt}
    (hss : ∀ s ∈ ss, ∀ t, lowerStmt returnType s = .ok t → t.source? = some s.canonical)
    (h : lowerBlock returnType ss = .ok ts) :
    Target.blockSource? ts = some (Source.canonicalBlock ss) := by
  induction ss generalizing ts with
  | nil =>
    obtain rfl := lowerBlock_nil_eq_ok.mp h
    rfl
  | cons s ss ih =>
    obtain ⟨t, ht, ts, hts, rfl⟩ := lowerBlock_cons_eq_ok.mp h
    rw [List.forall_mem_cons] at hss
    rw [Target.blockSource?, hss.1 t ht, ih hss.2 hts]
    rfl

/-- An empty branch and an absent one have the same source. -/
theorem elseSource?_lowerElse {o : Option (List Target.Stmt)}
    (hss : ∀ s ∈ ss, ∀ t, lowerStmt returnType s = .ok t → t.source? = some s.canonical)
    (h : lowerElse returnType ss = .ok o) :
    Target.elseSource? o = some (Source.canonicalBlock ss) := by
  obtain ⟨ts, hts, rfl⟩ := lowerElse_eq_ok.mp h
  by_cases hnil : ss = []
  · subst hnil
    rfl
  · rw [if_neg hnil, Target.elseSource?]
    exact blockSource?_lowerBlock hss hts

/-- A lowered statement shows its canonical form. -/
theorem source?_lowerStmt (s : Source.Stmt) (t : Target.Stmt) (h : lowerStmt returnType s = .ok t) :
    t.source? = some s.canonical := by
  induction s generalizing t with
  | ret line value =>
    obtain ⟨v, hv, rfl⟩ := lowerStmt_ret_eq_ok.mp h
    rw [Target.Stmt.source?, valueSource?_lowerReturn hv]
    rfl
  | annotated line target hint value =>
    obtain ⟨ty, hty, v, hv, rfl⟩ := lowerStmt_annotated_eq_ok.mp h
    rw [Target.Stmt.source?, valueSource?_lowerValue hv, Source.Stmt.canonical,
      (lowerHint_canonical hty).1]
    rfl
  | augmented line target op value =>
    obtain ⟨-, op', hop, x, hx, v, hv, rfl⟩ := lowerStmt_augmented_eq_ok.mp h
    rw [Target.Stmt.source?, source?_lowerExpr target none x hx, source?_lowerOperator hop,
      source?_lowerExpr value none v hv]
    rfl
  | assign line targets value => exact absurd h lowerStmt_assign_ne_ok
  | branch line test body orelse ihb iho =>
    obtain ⟨c, hc, b, hb, o, ho, rfl⟩ := lowerStmt_branch_eq_ok.mp h
    rw [Target.Stmt.source?, source?_lowerExpr test none c hc, blockSource?_lowerBlock ihb hb,
      elseSource?_lowerElse iho ho]
    rfl
  | loop line target iter body orelse ihb =>
    obtain ⟨rfl, bounds, hbounds, b, hb, rfl⟩ := lowerStmt_loop_eq_ok.mp h
    rw [countingLoop, Target.Stmt.source?, loopSource?_lowerRange hbounds,
      blockSource?_lowerBlock ihb hb]
    rfl
  | unsupported line construct => exact absurd h lowerStmt_unsupported_ne_ok

theorem lowerBlock_canonical {ts : List Target.Stmt}
    (hss : ∀ s ∈ ss, ∀ t, lowerStmt returnType s = .ok t → lowerStmt returnType s.canonical = .ok t)
    (h : lowerBlock returnType ss = .ok ts) :
    lowerBlock returnType (Source.canonicalBlock ss) = .ok ts := by
  induction ss generalizing ts with
  | nil => exact h
  | cons s ss ih =>
    obtain ⟨t, ht, ts, hts, rfl⟩ := lowerBlock_cons_eq_ok.mp h
    rw [List.forall_mem_cons] at hss
    exact lowerBlock_cons_eq_ok.mpr ⟨t, hss.1 t ht, ts, ih hss.2 hts, rfl⟩

theorem canonicalBlock_eq_nil : Source.canonicalBlock ss = [] ↔ ss = [] := by
  cases ss <;> simp [Source.canonicalBlock]

theorem lowerElse_canonical {o : Option (List Target.Stmt)}
    (hss : ∀ s ∈ ss, ∀ t, lowerStmt returnType s = .ok t → lowerStmt returnType s.canonical = .ok t)
    (h : lowerElse returnType ss = .ok o) :
    lowerElse returnType (Source.canonicalBlock ss) = .ok o := by
  obtain ⟨ts, hts, rfl⟩ := lowerElse_eq_ok.mp h
  refine lowerElse_eq_ok.mpr ⟨ts, lowerBlock_canonical hss hts, ?_⟩
  simp only [canonicalBlock_eq_nil]

/-- The canonical form of a statement is lowered like it. -/
theorem lowerStmt_canonical (s : Source.Stmt) (t : Target.Stmt)
    (h : lowerStmt returnType s = .ok t) : lowerStmt returnType s.canonical = .ok t := by
  induction s generalizing t with
  | ret line value =>
    obtain ⟨v, hv, rfl⟩ := lowerStmt_ret_eq_ok.mp h
    exact lowerStmt_ret_eq_ok.mpr ⟨v, lowerReturn_canonicalReturn hv, rfl⟩
  | annotated line target hint value =>
    obtain ⟨ty, hty, v, hv, rfl⟩ := lowerStmt_annotated_eq_ok.mp h
    exact lowerStmt_annotated_eq_ok.mpr
      ⟨ty, (lowerHint_canonical hty).2, v, lowerValue_canonical hv, rfl⟩
  | augmented line target op value =>
    obtain ⟨hplace, op', hop, x, hx, v, hv, rfl⟩ := lowerStmt_augmented_eq_ok.mp h
    rw [checkUpdated_eq_ok] at hplace
    have hop₀ : lowerOperator 0 op = .ok op' :=
      (lowerOperator_mapLine (fun _ => 0) line op).trans (Lowered.mapLine_eq_ok.mpr hop)
    exact lowerStmt_augmented_eq_ok.mpr ⟨checkUpdated_eq_ok.mpr hplace.canonical, op', hop₀, x,
      lowerExpr_canonical target none x hx, v, lowerExpr_canonical value none v hv, rfl⟩
  | assign line targets value => exact absurd h lowerStmt_assign_ne_ok
  | branch line test body orelse ihb iho =>
    obtain ⟨c, hc, b, hb, o, ho, rfl⟩ := lowerStmt_branch_eq_ok.mp h
    exact lowerStmt_branch_eq_ok.mpr ⟨c, lowerExpr_canonical test none c hc, b,
      lowerBlock_canonical ihb hb, o, lowerElse_canonical iho ho, rfl⟩
  | loop line target iter body orelse ihb =>
    obtain ⟨rfl, bounds, hbounds, b, hb, rfl⟩ := lowerStmt_loop_eq_ok.mp h
    exact lowerStmt_loop_eq_ok.mpr
      ⟨rfl, bounds, lowerRange_canonicalRange hbounds, b, lowerBlock_canonical ihb hb, rfl⟩
  | unsupported line construct => exact absurd h lowerStmt_unsupported_ne_ok

end Blocks

/-! ## Functions -/

theorem lowerParam_canonical {line : LineNumber} {p : Source.Param} {d : Target.Declaration}
    (h : lowerParam line p = .ok d) : p.canonical = d.param ∧ lowerParam 0 p.canonical = .ok d := by
  obtain ⟨a, ha, ty, hty, rfl⟩ := lowerParam_eq_ok.mp h
  obtain ⟨hcanonical, hlower⟩ := lowerHint_canonical hty
  refine ⟨?_, lowerParam_eq_ok.mpr ⟨a.canonical, ?_, ty, hlower, rfl⟩⟩
  · rw [Source.Param.canonical, ha, Option.map_some, hcanonical]
    rfl
  · rw [Source.Param.canonical, ha, Option.map_some]

theorem lowerParams_canonical {line : LineNumber} {ps : List Source.Param}
    {ds : List Target.Declaration} (h : ps.mapM (lowerParam line) = .ok ds) :
    ps.map Source.Param.canonical = ds.map Target.Declaration.param ∧
      (ps.map Source.Param.canonical).mapM (lowerParam 0) = .ok ds := by
  induction ps generalizing ds with
  | nil =>
    obtain rfl := pure_eq_ok.mp h
    exact ⟨rfl, rfl⟩
  | cons p ps ih =>
    simp only [List.mapM_cons, bind_eq_ok, pure_eq_ok] at h
    obtain ⟨d, hd, ds, hds, rfl⟩ := h
    obtain ⟨hparam, hlower⟩ := lowerParam_canonical hd
    obtain ⟨hparams, hlowers⟩ := ih hds
    simp only [List.map_cons, List.mapM_cons, bind_eq_ok, pure_eq_ok]
    exact ⟨by rw [hparam, hparams], d, hlower, ds, hlowers, rfl⟩

theorem canonicalReturns_eq {line : LineNumber} {returns : Option Source.Hint} {ty : Target.Ty}
    (h : lowerReturnType line returns = .ok ty) : Source.canonicalReturns returns = .ofTy ty := by
  cases returns with
  | none =>
    cases h
    rfl
  | some a => exact (lowerHint_canonical h).1

theorem lowerReturnType_ofTy (ty : Target.Ty) : lowerReturnType 0 (some (.ofTy ty)) = .ok ty :=
  lowerHint_eq_ok.mpr (Source.Hint.resolve?_ofTy ty)

section Functions

variable {f : Source.Function} {a : Target.Function}

/-- A lowered function shows its canonical form. -/
theorem source?_lowerFunction (h : lowerFunction f = .ok a) : a.source? = some f.canonical := by
  obtain ⟨ty, hty, params, hparams, body, hbody, rfl⟩ := lowerFunction_eq_ok.mp h
  have hblock := blockSource?_lowerBlock (fun s _ => source?_lowerStmt s) hbody
  rw [Target.Function.source?, hblock, Source.Function.canonical, (lowerParams_canonical hparams).1,
    canonicalReturns_eq hty]
  rfl

/-- The canonical form of a function is lowered like it. -/
theorem lowerFunction_canonical (h : lowerFunction f = .ok a) : lowerFunction f.canonical = .ok a := by
  obtain ⟨ty, hty, params, hparams, body, hbody, rfl⟩ := lowerFunction_eq_ok.mp h
  rw [Source.Function.canonical, canonicalReturns_eq hty]
  exact lowerFunction_eq_ok.mpr ⟨ty, lowerReturnType_ofTy ty, params,
    (lowerParams_canonical hparams).2, body,
    lowerBlock_canonical (fun s _ => lowerStmt_canonical s) hbody, rfl⟩

/-- Functions are lowered to the same function if and only if they have the same canonical form. -/
theorem lowerFunction_eq_iff_canonical_eq {g : Source.Function} {b : Target.Function}
    (hf : lowerFunction f = .ok a) (hg : lowerFunction g = .ok b) :
    a = b ↔ f.canonical = g.canonical := by
  constructor
  · rintro rfl
    have hfg := (source?_lowerFunction hf).symm.trans (source?_lowerFunction hg)
    exact Option.some.inj hfg
  · intro hfg
    have ha := lowerFunction_canonical hf
    rw [hfg, lowerFunction_canonical hg] at ha
    exact (Except.ok.inj ha).symm

/-- Counts up in an array, with everything left out that can be. -/
def Source.Function.terse : Source.Function where
  name := "mark"
  params := [⟨"xs", some (.subscript "view" (.name "float"))⟩, ⟨"n", some (.name "int")⟩]
  returns := none
  body := [
    .loop 2 "i" (.call 2 "range" [.name 2 "n"])
      [.augmented 3 (.subscript 3 (.name 3 "xs") (.name 3 "i")) .add (.constant 3 (.int 1))] [],
    .ret 4 none]
  line := 1

/-- The same function on other lines, with everything written out. -/
def Source.Function.explicit : Source.Function where
  name := "mark"
  params := [⟨"xs", some (.subscript "Array" (.name "float"))⟩, ⟨"n", some (.name "int")⟩]
  returns := some .null
  body := [
    .loop 12 "i"
      (.call 12 "range" [.constant 12 (.int 0), .name 12 "n", .constant 12 (.int 1)])
      [.augmented 13 (.subscript 13 (.name 13 "xs") (.name 13 "i")) .add (.constant 13 (.int 1))] [],
    .ret 14 (some (.constant 14 .null))]
  line := 11

theorem lowerFunction_eq_iff_canonical_eq_terse :
    ∃ a b, lowerFunction .terse = .ok a ∧ lowerFunction .explicit = .ok b ∧ a = b ∧
      Source.Function.terse.canonical = Source.Function.explicit.canonical := by
  refine ⟨_, _, rfl, rfl, rfl, ?_⟩
  rw [← lowerFunction_eq_iff_canonical_eq rfl rfl]
  rfl

end Functions

end AnnotatedToC
