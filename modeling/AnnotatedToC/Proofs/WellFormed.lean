import AnnotatedToC.Proofs.Lowered
import AnnotatedToC.Proofs.Positions

/-!
# Well-formed C functions

Nothing that can be written down is checked when it is written, so the text relies on the shape of
lowered functions: `a <= b` is what an update by a comparison would look like. Here the shape is said
of everything that stands in a function, and lowering is shown to yield no other.
-/
namespace AnnotatedToC

namespace Target

/-- The operators of updates and of expressions, comparison apart. -/
def arithmetic : List Operator := [.add, .sub, .mul, .div]

def Expr.IsCompound (e : Expr) : Prop := ∃ ty elements, e = .compound ty elements

/-- What may stand at a position of an expression. A compound literal is the value of the whole and has
the type that is expected of it. -/
def Expr.Allowed (expected : Option Ty) (p : Position) : Expr → Prop
  | .binary op _ _ => op ∈ arithmetic
  | .compound ty elements => p = .tail ∧ expected = some ty ∧ ty ≠ .void ∧
    ∀ e ∈ elements, ∀ q x, Occurs Expr.parts q x e → ¬ x.IsCompound
  | .identifier _ | .literal _ | .index _ _ | .call _ _ | .ternary _ _ _ => True

/-- An expression in which only what is allowed stands. -/
def Expr.WellFormed (expected : Option Ty) (e : Expr) : Prop :=
  ∀ p x, Occurs Expr.parts p x e → x.Allowed expected p

/-- A variable or an element. -/
def Expr.IsPlace : Expr → Prop
  | .identifier _ | .index _ _ => True
  | _ => False

/-- A bound of a loop. Of literals only integers are bounds. -/
def Expr.IsBound (e : Expr) : Prop :=
  e.WellFormed none ∧ ∀ value, e = .literal value → ∃ n, value = .int n

/-- What a statement has to look like, apart from the statements inside it, in a function of the given
return type. The only comparison is the one that ends a loop. -/
def Stmt.Allowed (returnType : Ty) : Stmt → Prop
  | .declaration d => ∀ e ∈ d.init, e.WellFormed (some d.ty)
  | .update u => u.operator ∈ arithmetic ∧ u.target.IsPlace ∧ u.target.WellFormed none ∧
    u.value.WellFormed none
  | .conditional cond _ elseBranch => cond.WellFormed none ∧ elseBranch ≠ some []
  | .loop init cond next _ => ∃ counter start stop step, init = ⟨counter, .int, some start⟩ ∧
    cond = .binary .lt (.identifier counter) stop ∧ next = ⟨.add, .identifier counter, step⟩ ∧
    start.IsBound ∧ stop.IsBound ∧ step.IsBound ∧ ∀ n, step = .literal (.int n) → 1 ≤ n.toInt
  | .ret value => ∀ e ∈ value, e.WellFormed (some returnType)

/-- A function whose parameters have no initial values and in which only allowed statements stand. -/
def Function.WellFormed (f : Function) : Prop :=
  (∀ d ∈ f.params, d.init = none) ∧ ∀ s, Within Stmt.blocks s f.body → s.Allowed f.returnType

/-! ## Well-formedness, part by part -/

/-- Inside an expression no type is expected. -/
theorem Expr.allowed_inner {expected : Option Ty} (p : Position) {x : Expr} :
    x.Allowed expected .inner ↔ x.Allowed none p := by
  cases x <;> simp [Allowed]

theorem Expr.wellFormed_iff {expected : Option Ty} {e : Expr} :
    e.WellFormed expected ↔ e.Allowed expected .tail ∧
      ∀ q c, (q, c) ∈ e.parts → c.WellFormed (if q = .tail then expected else none) := by
  unfold WellFormed
  rw [forall_occurs]
  refine and_congr_right fun _ => forall₃_congr fun q c _ => forall₃_congr fun p x _ => ?_
  cases q with
  | tail => simp [Position.within]
  | inner => simpa [Position.within] using allowed_inner p

/-- No compound literal stands where no type is expected. -/
theorem Expr.WellFormed.not_isCompound {e : Expr} (h : e.WellFormed none) {q : Position} {x : Expr}
    (hx : Occurs Expr.parts q x e) : ¬ x.IsCompound := by
  rintro ⟨ty, elements, rfl⟩
  obtain ⟨-, hty, -⟩ := h _ _ hx
  cases hty

/-- A block in which only allowed statements stand. -/
def BlockWellFormed (returnType : Ty) (ss : List Stmt) : Prop :=
  ∀ s, Within Stmt.blocks s ss → s.Allowed returnType

/-- A statement that is well-formed with the blocks inside it. -/
def Stmt.WellFormed (returnType : Ty) (s : Stmt) : Prop :=
  s.Allowed returnType ∧ ∀ block ∈ s.blocks, BlockWellFormed returnType block

theorem blockWellFormed_iff {returnType : Ty} {ss : List Stmt} :
    BlockWellFormed returnType ss ↔ ∀ s ∈ ss, s.WellFormed returnType :=
  forall_within

end Target

open Source (LineNumber)
open Target (BlockWellFormed)

/-! ## Expressions -/

theorem lowerOperator_mem {line : LineNumber} {op : Source.Operator} {op' : Target.Operator}
    (h : lowerOperator line op = .ok op') : op' ∈ Target.arithmetic := by
  cases op <;> cases h <;> simp [Target.arithmetic]

theorem tupleType_eq_ok {line : LineNumber} {expected : Option Target.Ty} {ty : Target.Ty}
    (h : tupleType line expected = .ok ty) : expected = some ty ∧ ty ≠ .void := by
  cases expected with
  | none => cases h
  | some ty' => cases ty' <;> cases h <;> simp

theorem exists_of_mem_lowerExprs {es : List Source.Expr} {ts : List Target.Expr}
    (h : lowerExprs es = .ok ts) {t : Target.Expr} (ht : t ∈ ts) :
    ∃ e ∈ es, lowerExpr none e = .ok t := by
  rw [lowerExprs_eq_mapM] at h
  exact exists_of_mem_mapM h ht

theorem wellFormed_lowerExpr {e : Source.Expr} {expected : Option Target.Ty} {t : Target.Expr}
    (h : lowerExpr expected e = .ok t) : t.WellFormed expected := by
  induction e generalizing expected t with
  | constant line value =>
    obtain ⟨v, -, rfl⟩ := lowerExpr_constant_eq_ok.mp h
    rw [Target.Expr.wellFormed_iff]
    simp [Target.Expr.Allowed, Target.Expr.parts]
  | name line id =>
    obtain rfl := lowerExpr_name_eq_ok.mp h
    rw [Target.Expr.wellFormed_iff]
    simp [Target.Expr.Allowed, Target.Expr.parts]
  | binary line op left right ihl ihr =>
    obtain ⟨op', hop, l, hl, r, hr, rfl⟩ := lowerExpr_binary_eq_ok.mp h
    rw [Target.Expr.wellFormed_iff]
    refine ⟨lowerOperator_mem hop, ?_⟩
    simp [Target.Expr.parts, or_imp, forall_and, ihl hl, ihr hr]
  | subscript line value i ihv ihi =>
    obtain ⟨v, hv, i', hi, rfl⟩ := lowerExpr_subscript_eq_ok.mp h
    rw [Target.Expr.wellFormed_iff]
    refine ⟨trivial, ?_⟩
    simp [Target.Expr.parts, or_imp, forall_and, ihv hv, ihi hi]
  | call line func args ih =>
    obtain ⟨ts, hts, rfl⟩ := lowerExpr_call_eq_ok.mp h
    rw [Target.Expr.wellFormed_iff, Target.Expr.parts, forall_mem_inner]
    refine ⟨trivial, fun t ht => ?_⟩
    obtain ⟨e, he, hlower⟩ := exists_of_mem_lowerExprs hts ht
    exact ih e he hlower
  | conditional line test body orelse iht ihb iho =>
    obtain ⟨c, hc, b, hb, o, ho, rfl⟩ := lowerExpr_conditional_eq_ok.mp h
    rw [Target.Expr.wellFormed_iff]
    refine ⟨trivial, ?_⟩
    simp [Target.Expr.parts, or_imp, forall_and, iht hc, ihb hb, iho ho]
  | tuple line elements ih =>
    obtain ⟨ty, hty, ts, hts, rfl⟩ := lowerExpr_tuple_eq_ok.mp h
    obtain ⟨hexpected, hvoid⟩ := tupleType_eq_ok hty
    have helements : ∀ t ∈ ts, t.WellFormed none := by
      intro t ht
      obtain ⟨e, he, hlower⟩ := exists_of_mem_lowerExprs hts ht
      exact ih e he hlower
    rw [Target.Expr.wellFormed_iff, Target.Expr.parts, forall_mem_inner]
    exact ⟨⟨rfl, hexpected, hvoid, fun t ht q x hx => (helements t ht).not_isCompound hx⟩,
      helements⟩
  | unsupported line construct => exact absurd h lowerExpr_unsupported_ne_ok

theorem wellFormed_lowerValue {expected : Option Target.Ty} {value : Option Source.Expr}
    {v : Option Target.Expr} (h : lowerValue expected value = .ok v) :
    ∀ t ∈ v, t.WellFormed expected := by
  cases value with
  | none =>
    obtain rfl := lowerValue_none_eq_ok.mp h
    simp
  | some e =>
    obtain ⟨t, ht, rfl⟩ := lowerValue_some_eq_ok.mp h
    simpa using wellFormed_lowerExpr ht

theorem wellFormed_lowerReturn {expected : Option Target.Ty} {value : Option Source.Expr}
    {v : Option Target.Expr} (h : lowerReturn expected value = .ok v) :
    ∀ t ∈ v, t.WellFormed expected := by
  rcases lowerReturn_eq_ok.mp h with ⟨-, rfl⟩ | ⟨e, -, -, t, ht, rfl⟩
  · simp
  · simpa using wellFormed_lowerExpr ht

/-! ## Ranges -/

/-- Only constants are lowered to literals. -/
theorem eq_constant_of_lowerExpr {e : Source.Expr} {expected : Option Target.Ty}
    {v : Target.Literal} (h : lowerExpr expected e = .ok (.literal v)) :
    ∃ l value, e = .constant l value ∧ lowerLiteral l value = .ok v := by
  cases e with
  | constant l value =>
    obtain ⟨v', hv, hliteral⟩ := lowerExpr_constant_eq_ok.mp h
    cases hliteral
    exact ⟨l, value, rfl, hv⟩
  | name l id => cases lowerExpr_name_eq_ok.mp h
  | binary l op left right =>
    obtain ⟨_, -, _, -, _, -, hliteral⟩ := lowerExpr_binary_eq_ok.mp h
    cases hliteral
  | subscript l value i =>
    obtain ⟨_, -, _, -, hliteral⟩ := lowerExpr_subscript_eq_ok.mp h
    cases hliteral
  | call l func args =>
    obtain ⟨_, -, hliteral⟩ := lowerExpr_call_eq_ok.mp h
    cases hliteral
  | conditional l test body orelse =>
    obtain ⟨_, -, _, -, _, -, hliteral⟩ := lowerExpr_conditional_eq_ok.mp h
    cases hliteral
  | tuple l elements =>
    obtain ⟨_, -, _, -, hliteral⟩ := lowerExpr_tuple_eq_ok.mp h
    cases hliteral
  | unsupported l construct => exact absurd h lowerExpr_unsupported_ne_ok

theorem isBound_lowerExpr {line : LineNumber} {e : Source.Expr} {t : Target.Expr}
    (hcheck : checkBound line e = .ok ()) (h : lowerExpr none e = .ok t) : t.IsBound := by
  refine ⟨wellFormed_lowerExpr h, ?_⟩
  rintro v rfl
  obtain ⟨l, value, rfl, hv⟩ := eq_constant_of_lowerExpr h
  obtain ⟨n, rfl⟩ := checkBound_eq_ok.mp hcheck l value rfl
  cases hv
  exact ⟨n, rfl⟩

theorem isBound_lowerBound {line : LineNumber} {default : Int64} {e : Option Source.Expr}
    {t : Target.Expr} (hcheck : ∀ x ∈ e, checkBound line x = .ok ())
    (h : lowerBound default e = .ok t) : t.IsBound := by
  rcases lowerBound_eq_ok.mp h with ⟨-, rfl⟩ | ⟨x, rfl, hx⟩
  · refine ⟨?_, ?_⟩
    · rw [Target.Expr.wellFormed_iff]
      simp [Target.Expr.Allowed, Target.Expr.parts]
    · rintro v ⟨⟩
      exact ⟨default, rfl⟩
  · exact isBound_lowerExpr (hcheck x rfl) hx

/-- A step that is a literal is positive, given or not. -/
theorem one_le_lowerBound {line : LineNumber} {step : Option Source.Expr} {n : Int64}
    (hcheck : checkStep line step = .ok ()) (h : lowerBound 1 step = .ok (.literal (.int n))) :
    1 ≤ n.toInt := by
  rcases lowerBound_eq_ok.mp h with ⟨-, hn⟩ | ⟨e, rfl, he⟩
  · cases hn
    decide
  · obtain ⟨l, value, rfl, hv⟩ := eq_constant_of_lowerExpr he
    cases value <;> cases hv
    exact checkStep_eq_ok.mp hcheck l n rfl

theorem allowed_countingLoop {line : LineNumber} {iter : Source.Expr} {bounds : RangeBounds}
    (h : lowerRange line iter = .ok bounds) (returnType : Target.Ty) (counter : String)
    (body : List Target.Stmt) : (countingLoop counter bounds body).Allowed returnType := by
  obtain ⟨l, args, range, rfl, hargs, hchecks, hstep, ha, hb, hc⟩ := lowerRange_eq_ok.mp h
  obtain ⟨rfl, -⟩ := RangeArgs.ofList_eq_ok.mp hargs
  refine ⟨counter, bounds.start, bounds.stop, bounds.step, rfl, rfl, rfl,
    isBound_lowerBound (fun x hx => hchecks x ?_) ha, isBound_lowerExpr (hchecks _ ?_) hb,
    isBound_lowerBound (fun x hx => hchecks x ?_) hc, ?_⟩
  · simp [Option.mem_def.mp hx]
  · simp
  · simp [Option.mem_def.mp hx]
  · intro n hn
    rw [hn] at hc
    exact one_le_lowerBound hstep hc

/-! ## Statements -/

section Blocks

variable {ty : Target.Ty}

theorem isPlace_lowerExpr {line : LineNumber} {e : Source.Expr} {t : Target.Expr}
    (hcheck : checkUpdated line e = .ok ()) (h : lowerExpr none e = .ok t) : t.IsPlace := by
  cases e with
  | name l id =>
    obtain rfl := lowerExpr_name_eq_ok.mp h
    trivial
  | subscript l value i =>
    obtain ⟨_, -, _, -, rfl⟩ := lowerExpr_subscript_eq_ok.mp h
    trivial
  | _ => cases hcheck

theorem blockWellFormed_lowerBlock {ss : List Source.Stmt} {ts : List Target.Stmt}
    (ih : ∀ s ∈ ss, ∀ t, lowerStmt (some ty) s = .ok t → t.WellFormed ty)
    (h : lowerBlock (some ty) ss = .ok ts) : BlockWellFormed ty ts := by
  rw [lowerBlock_eq_mapM] at h
  rw [Target.blockWellFormed_iff]
  intro t ht
  obtain ⟨s, hs, hlower⟩ := exists_of_mem_mapM h ht
  exact ih s hs t hlower

theorem lowerBlock_ne_nil {ss : List Source.Stmt} (hss : ss ≠ [])
    (h : lowerBlock (some ty) ss = .ok []) : False := by
  cases ss with
  | nil => exact hss rfl
  | cons s ss =>
    obtain ⟨_, -, _, -, hnil⟩ := lowerBlock_cons_eq_ok.mp h
    cases hnil

theorem wellFormed_lowerStmt {s : Source.Stmt} {t : Target.Stmt}
    (h : lowerStmt (some ty) s = .ok t) : t.WellFormed ty := by
  induction s generalizing t with
  | ret line value =>
    obtain ⟨v, hv, rfl⟩ := lowerStmt_ret_eq_ok.mp h
    exact ⟨wellFormed_lowerReturn hv, by simp [Target.Stmt.blocks]⟩
  | annotated line target hint value =>
    obtain ⟨ty', -, v, hv, rfl⟩ := lowerStmt_annotated_eq_ok.mp h
    exact ⟨wellFormed_lowerValue hv, by simp [Target.Stmt.blocks]⟩
  | augmented line target op value =>
    obtain ⟨hcheck, op', hop, target', htarget, value', hvalue, rfl⟩ :=
      lowerStmt_augmented_eq_ok.mp h
    exact ⟨⟨lowerOperator_mem hop, isPlace_lowerExpr hcheck htarget, wellFormed_lowerExpr htarget,
      wellFormed_lowerExpr hvalue⟩, by simp [Target.Stmt.blocks]⟩
  | assign line targets value => exact absurd h lowerStmt_assign_ne_ok
  | branch line test body orelse ihb iho =>
    obtain ⟨c, hc, b, hb, o, ho, rfl⟩ := lowerStmt_branch_eq_ok.mp h
    obtain ⟨os, hos, rfl⟩ := lowerElse_eq_ok.mp ho
    have hbody := blockWellFormed_lowerBlock (fun s hs t => ihb s hs) hb
    have helse := blockWellFormed_lowerBlock (fun s hs t => iho s hs) hos
    by_cases hempty : orelse = []
    · refine ⟨⟨wellFormed_lowerExpr hc, by simp [hempty]⟩, ?_⟩
      simpa [Target.Stmt.blocks, hempty] using hbody
    · refine ⟨⟨wellFormed_lowerExpr hc, ?_⟩, ?_⟩
      · rw [if_neg hempty]
        rintro ⟨⟩
        exact lowerBlock_ne_nil hempty hos
      · simpa [Target.Stmt.blocks, hempty] using ⟨hbody, helse⟩
  | loop line target iter body orelse ihb iho =>
    obtain ⟨-, bounds, hbounds, b, hb, rfl⟩ := lowerStmt_loop_eq_ok.mp h
    refine ⟨allowed_countingLoop hbounds ty target b, ?_⟩
    have hbody := blockWellFormed_lowerBlock (fun s hs t => ihb s hs) hb
    simpa [countingLoop, Target.Stmt.blocks] using hbody
  | unsupported line construct => exact absurd h lowerStmt_unsupported_ne_ok

end Blocks

/-! ## Functions -/

theorem init_lowerParams {line : LineNumber} {ps : List Source.Param}
    {ds : List Target.Declaration} (h : ps.mapM (lowerParam line) = .ok ds) :
    ∀ d ∈ ds, d.init = none := by
  intro d hd
  obtain ⟨p, -, hp⟩ := exists_of_mem_mapM h hd
  obtain ⟨a, -, ty, -, rfl⟩ := lowerParam_eq_ok.mp hp
  rfl

/-- Every lowered function is well-formed. -/
theorem lowerFunction_wellFormed {f : Source.Function} {g : Target.Function}
    (h : lowerFunction f = .ok g) : g.WellFormed := by
  obtain ⟨ty, -, params, hparams, body, hbody, rfl⟩ := lowerFunction_eq_ok.mp h
  exact ⟨init_lowerParams hparams,
    blockWellFormed_lowerBlock (fun s _ t => wellFormed_lowerStmt) hbody⟩

/-- A loop with a branch in it, and a tuple on each side of a conditional return. -/
def tupleLoop : Source.Function where
  name := "f"
  params := [⟨"a", some (.subscript "Array" (.name "float"))⟩, ⟨"n", some (.name "int")⟩]
  returns := some (.subscript "Array" (.name "int"))
  line := 1
  body := [
    .loop 2 "i" (.call 2 "range" [.constant 2 (.int 0), .name 2 "n", .constant 2 (.int 2)])
      [.branch 3 (.name 3 "n")
        [.augmented 4 (.subscript 4 (.name 4 "a") (.name 4 "i")) .mult (.constant 4 (.int 2))]
        [.annotated 5 "b" (.subscript "Array" (.name "int"))
          (some (.tuple 5 [.name 5 "i", .name 5 "n"]))]]
      [],
    .ret 6 (some (.conditional 6 (.name 6 "n") (.tuple 6 [.name 6 "n"]) (.tuple 6 [])))]

theorem lowerFunction_wellFormed_tupleLoop :
    ∃ g, lowerFunction tupleLoop = .ok g ∧ g.WellFormed :=
  ⟨_, rfl, lowerFunction_wellFormed (f := tupleLoop) rfl⟩

end AnnotatedToC
