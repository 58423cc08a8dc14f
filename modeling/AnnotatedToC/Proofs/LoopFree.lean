import AnnotatedToC.Proofs.Integers
import Mathlib.Data.List.Nodup

/-!
# Functions without loops keep their meaning

The source has one scope and the lowered function a stack of them. As long as no name is declared
twice, every variable that the stack shows has its value in the source as well, so whatever a lowered
function computes without touching a variable out of its scope, the source computes too.
-/
namespace AnnotatedToC

namespace Source

mutual

def Stmt.isLoopFree : Stmt → Bool
  | .branch _ _ body orelse => isLoopFreeBlock body && isLoopFreeBlock orelse
  | .loop _ _ _ _ _ => false
  | _ => true

def isLoopFreeBlock : List Stmt → Bool
  | [] => true
  | s :: ss => s.isLoopFree && isLoopFreeBlock ss

end

mutual

/-- The targets of annotated assignments, at any depth. -/
def Stmt.targets : Stmt → List String
  | .annotated _ target _ _ => [target]
  | .branch _ _ body orelse => blockTargets body ++ blockTargets orelse
  | .loop _ _ _ body orelse => blockTargets body ++ blockTargets orelse
  | _ => []

def blockTargets : List Stmt → List String
  | [] => []
  | s :: ss => s.targets ++ blockTargets ss

end

/-- The parameters and the targets of annotated assignments. -/
def Function.declaredNames (f : Function) : List String :=
  f.params.map Param.name ++ blockTargets f.body

end Source

variable {M : Meaning} {returnType : Option Target.Ty}

theorem declares_subset_targets (s : Source.Stmt) : s.declares ⊆ s.targets := by
  cases s with
  | annotated line target hint value => exact List.Subset.refl _
  | _ => exact List.nil_subset _

theorem flatMap_declares_subset (ss : List Source.Stmt) :
    ss.flatMap Source.Stmt.declares ⊆ Source.blockTargets ss := by
  induction ss with
  | nil => exact List.nil_subset _
  | cons s ss ih =>
    rw [List.flatMap_cons, Source.blockTargets, List.append_subset]
    exact ⟨List.Subset.trans (declares_subset_targets s) (List.subset_append_left _ _),
      List.Subset.trans ih (List.subset_append_right _ _)⟩

/-- A lowered expression has no value but the one that the source has with at least its variables. -/
theorem eval_refines {expected : Option Target.Ty} {e : Source.Expr} {t : Target.Expr}
    (h : lowerExpr expected e = .ok t) {env env' : M.Env} (henv : EnvLe M env env') :
    Meaning.Refines (t.eval M env) (e.eval M env') := by
  rw [eval_lowerExpr M env e expected t h]
  exact eval_mono M henv e

namespace Stack

variable {V : Type}

theorem mem_flatten_names {x : String} {σ : Stack V} :
    x ∈ σ.names.flatten ↔ ∃ scope ∈ σ, x ∈ scope.names := by
  simp [names]

theorem GrowsBy.flatten_subset {allowed : List String} {σ σ' : Stack V}
    (h : GrowsBy allowed σ σ') : σ'.names.flatten ⊆ allowed ++ σ.names.flatten := by
  obtain ⟨new, hnew, hn⟩ := h
  rw [hn]
  cases names σ with
  | nil => exact List.nil_subset _
  | cons head tail =>
    intro x hx
    simp only [List.modifyHead_cons, List.flatten_cons, List.mem_append] at hx ⊢
    rcases hx with (hx | hx) | hx
    · exact .inl (hnew hx)
    · exact .inr (.inl hx)
    · exact .inr (.inr hx)

end Stack

section Variables

variable {σ σ' : Stack M.Value} {env : M.Env} {x : String}

theorem envLe_declare (h : EnvLe M σ.value? env) (hd : σ.declare x = some σ') :
    EnvLe M σ'.value? env := by
  intro y v hy
  by_cases hyx : y = x
  · rw [hyx, Stack.value?_declare_self hd] at hy
    cases hy
  · exact h y v ((Stack.value?_declare_of_ne hd hyx).symm.trans hy)

theorem envLe_assign {v : M.Value} (h : EnvLe M σ.value? env) (ha : σ.assign x v = some σ') :
    EnvLe M σ'.value? (Function.update env x (some v)) := by
  intro y w hy
  by_cases hyx : y = x
  · subst hyx
    rw [Function.update_self, ← hy, Stack.value?_assign_self ha]
  · rw [Function.update_of_ne hyx]
    exact h y w ((Stack.value?_assign_of_ne ha hyx).symm.trans hy)

/-- Leaving a block whose names are new hides no variable. -/
theorem envLe_tail {scope : Scope M.Value} {rest : Stack M.Value}
    (h : EnvLe M (Stack.value? (scope :: rest)) env)
    (hnew : List.Disjoint scope.names rest.names.flatten) : EnvLe M rest.value? env := by
  intro y v hy
  apply h
  rw [Stack.value?_cons_of_notMem _ rest, hy]
  intro hs
  exact hnew hs (Stack.mem_flatten_names.mpr (Stack.mem_names_of_value? hy))

end Variables

/-- A lowered computation keeps the meaning of a source computation if each of its results, from a stack
that shows the source's variables and has none of the names yet to be declared, is a result of the
source. -/
def Kept (targets : List String) (source : M.Env → M.Effect (M.Env × Ending M.Value))
    (lowered : Stack M.Value → M.Effect (Stack M.Value × Ending M.Value)) : Prop :=
  ∀ σ env, EnvLe M σ.value? env → List.Disjoint targets σ.names.flatten →
    ∀ memory σ' ending memory', lowered σ memory = some ((σ', ending), memory') →
      ∃ env', source env memory = some ((env', ending), memory') ∧ EnvLe M σ'.value? env'

section Statements

variable {source source₁ source₂ : M.Env → M.Effect (M.Env × Ending M.Value)}
  {lowered lowered₁ lowered₂ : Stack M.Value → M.Effect (Stack M.Value × Ending M.Value)}
  {targets targets₁ targets₂ : List String}

theorem Kept.inBlock (h : Kept targets source lowered) (hgrow : Grows targets lowered) :
    Kept targets source (Target.inBlock M lowered) := by
  intro σ env henv hnew memory σ' ending memory' hrun
  obtain ⟨σ₁, hσ₁, rfl⟩ := Target.inBlock_eq_some.mp hrun
  obtain ⟨env', hsource, henv'⟩ := h ([] :: σ) env (by simpa using henv)
    (by simpa [Stack.names, Scope.names] using hnew) memory σ₁ ending memory' hσ₁
  obtain ⟨scope, rest, rfl, hscope, hrest⟩ := (hgrow _ _ _ _ _ hσ₁).nil_cons
  refine ⟨env', hsource, envLe_tail henv' ?_⟩
  rw [List.tail_cons, hrest]
  exact List.disjoint_of_subset_left hscope hnew

theorem Kept.andThen (h₁ : Kept targets₁ source₁ lowered₁) (hgrow : Grows targets₁ lowered₁)
    (h₂ : Kept targets₂ source₂ lowered₂) (hdisjoint : List.Disjoint targets₁ targets₂) :
    Kept (targets₁ ++ targets₂) (fun env => Meaning.andThen (source₁ env) source₂)
      (fun σ => Meaning.andThen (lowered₁ σ) lowered₂) := by
  intro σ env henv hnew memory σ' ending memory' hrun
  obtain ⟨hnew₁, hnew₂⟩ := List.disjoint_append_left.mp hnew
  rcases Meaning.andThen_eq_some.mp hrun with ⟨σ₁, memory₁, hfirst, hrest⟩ | ⟨value, rfl, hfirst⟩
  · obtain ⟨env₁, hsource₁, henv₁⟩ := h₁ σ env henv hnew₁ memory σ₁ _ memory₁ hfirst
    -- the first computation has declared at most its own names, which the second one does not
    have hnew₂' : List.Disjoint targets₂ σ₁.names.flatten :=
      List.disjoint_of_subset_right (hgrow _ _ _ _ _ hfirst).flatten_subset
        (List.disjoint_append_right.mpr ⟨List.disjoint_symm hdisjoint, hnew₂⟩)
    obtain ⟨env', hsource₂, henv'⟩ := h₂ σ₁ env₁ henv₁ hnew₂' memory₁ σ' ending memory' hrest
    exact ⟨env', Meaning.andThen_eq_some.mpr (.inl ⟨env₁, memory₁, hsource₁, hsource₂⟩), henv'⟩
  · obtain ⟨env', hsource₁, henv'⟩ := h₁ σ env henv hnew₁ memory σ' _ memory' hfirst
    exact ⟨env', Meaning.andThen_eq_some.mpr (.inr ⟨value, rfl, hsource₁⟩), henv'⟩

theorem Kept.branch {test : Source.Expr} {cond : Target.Expr}
    (htest : lowerExpr none test = .ok cond) (h₁ : Kept targets₁ source₁ lowered₁)
    (h₂ : Kept targets₂ source₂ lowered₂) :
    Kept (targets₁ ++ targets₂)
      (fun env => Meaning.branch (test.eval M env) (source₁ env) (source₂ env))
      (fun σ => Meaning.branch (cond.eval M σ.value?) (lowered₁ σ) (lowered₂ σ)) := by
  intro σ env henv hnew memory σ' ending memory' hrun
  obtain ⟨hnew₁, hnew₂⟩ := List.disjoint_append_left.mp hnew
  have hrefines : Meaning.Refines (cond.eval M σ.value? >>= M.truth) (test.eval M env >>= M.truth) :=
    .bind (eval_refines htest henv) fun _ => .refl _
  rcases Meaning.branch_eq_some.mp hrun with ⟨memory₁, hcond, hthen⟩ | ⟨memory₁, hcond, helse⟩
  · obtain ⟨env', hsource, henv'⟩ := h₁ σ env henv hnew₁ memory₁ σ' ending memory' hthen
    exact ⟨env', Meaning.branch_eq_some.mpr (.inl ⟨memory₁, hrefines _ _ hcond, hsource⟩), henv'⟩
  · obtain ⟨env', hsource, henv'⟩ := h₂ σ env henv hnew₂ memory₁ σ' ending memory' helse
    exact ⟨env', Meaning.branch_eq_some.mpr (.inr ⟨memory₁, hrefines _ _ hcond, hsource⟩), henv'⟩

theorem grows_lowerBlock {fuel : Nat} {ss : List Source.Stmt} {ts : List Target.Stmt}
    (h : lowerBlock returnType ss = .ok ts) :
    Grows (Source.blockTargets ss) (Target.execBlock M fuel ts) :=
  (Target.execBlock_grows ts).mono (declares_lowerBlock h ▸ flatMap_declares_subset ss)

theorem grows_lowerStmt {fuel : Nat} {s : Source.Stmt} {t : Target.Stmt}
    (h : lowerStmt returnType s = .ok t) : Grows s.targets (t.exec M fuel) :=
  (t.exec_grows fuel).mono (declares_lowerStmt h ▸ declares_subset_targets s)

end Statements

theorem Kept.ret {fuel : Nat} {steps : Int → Bool} {line : Source.LineNumber}
    {value : Option Source.Expr} {v : Option Target.Expr}
    (h : lowerReturn returnType value = .ok v) (targets : List String) :
    Kept targets (Source.Stmt.exec M steps (.ret line value)) (Target.Stmt.exec M fuel (.ret v)) := by
  intro σ env henv hnew memory σ' ending memory' hrun
  obtain ⟨x, memory₁, hx, hrun⟩ := Meaning.bind_eq_some.mp hrun
  cases Meaning.pure_eq_some.mp hrun
  rw [evalReturn_lowerReturn M _ h] at hx
  exact ⟨env, Meaning.bind_eq_some.mpr ⟨x, _, evalReturn_mono M henv value _ _ hx, rfl⟩, henv⟩

theorem Kept.annotated {fuel : Nat} {steps : Int → Bool} {line : Source.LineNumber}
    {target : String} {hint : Source.Hint} {ty : Target.Ty} {value : Option Source.Expr}
    {init : Option Target.Expr} (h : lowerValue (some ty) value = .ok init) (targets : List String) :
    Kept targets (Source.Stmt.exec M steps (.annotated line target hint value))
      (Target.Stmt.exec M fuel (.declaration ⟨target, ty, init⟩)) := by
  intro σ env henv hnew memory σ' ending memory' hrun
  obtain ⟨σ₁, memory₁, hdecl, hrun⟩ := Meaning.bind_eq_some.mp hrun
  cases Meaning.pure_eq_some.mp hrun
  obtain ⟨σ₂, memory₂, hdemand, hinit⟩ := Meaning.bind_eq_some.mp hdecl
  obtain ⟨hdeclare, rfl⟩ := Meaning.demand_eq_some.mp hdemand
  have henv₂ := envLe_declare henv hdeclare
  cases value with
  | none =>
    obtain rfl := lowerValue_none_eq_ok.mp h
    cases Meaning.pure_eq_some.mp hinit
    exact ⟨env, rfl, henv₂⟩
  | some e =>
    obtain ⟨e', he, rfl⟩ := lowerValue_some_eq_ok.mp h
    obtain ⟨x, memory₃, hx, hdemand'⟩ := Meaning.bind_eq_some.mp hinit
    obtain ⟨hassign, rfl⟩ := Meaning.demand_eq_some.mp hdemand'
    refine ⟨Function.update env target (some x), ?_, envLe_assign henv₂ hassign⟩
    exact Meaning.bind_eq_some.mpr ⟨x, _, eval_refines he henv₂ _ _ hx, rfl⟩

theorem Kept.augmented {fuel : Nat} {steps : Int → Bool} {line : Source.LineNumber}
    {target value : Source.Expr} {op : Source.Operator} {t : Target.Stmt}
    (h : lowerStmt returnType (.augmented line target op value) = .ok t) (targets : List String) :
    Kept targets (Source.Stmt.exec M steps (.augmented line target op value))
      (t.exec M fuel) := by
  intro σ env henv hnew memory σ' ending memory' hrun
  obtain ⟨hcheck, op', hop, target', htarget, value', hvalue, rfl⟩ :=
    lowerStmt_augmented_eq_ok.mp h
  obtain ⟨σ₁, memory₁, hupdate, hrun⟩ := Meaning.bind_eq_some.mp hrun
  cases Meaning.pure_eq_some.mp hrun
  have hmeaning := meaning_lowerOperator M hop
  have hrefines := eval_refines hvalue henv
  cases target with
  | name l x =>
    obtain rfl := lowerExpr_name_eq_ok.mp htarget
    obtain ⟨new, memory₂, hnewValue, hdemand⟩ := Meaning.bind_eq_some.mp hupdate
    obtain ⟨hassign, rfl⟩ := Meaning.demand_eq_some.mp hdemand
    simp only [hmeaning] at hnewValue
    refine ⟨Function.update env x (some new), ?_, envLe_assign henv hassign⟩
    have hsource := Meaning.Refines.updated (M.operator op) (.demand (henv x)) hrefines _ _ hnewValue
    exact Meaning.bind_eq_some.mpr
      ⟨_, _, Meaning.bind_eq_some.mpr ⟨new, _, hsource, rfl⟩, rfl⟩
  | subscript l base index =>
    obtain ⟨base', hbase, index', hindex, rfl⟩ := lowerExpr_subscript_eq_ok.mp htarget
    obtain ⟨u, memory₂, helement, hrun⟩ := Meaning.bind_eq_some.mp hupdate
    cases Meaning.pure_eq_some.mp hrun
    simp only [hmeaning] at helement
    refine ⟨env, ?_, henv⟩
    have hsource := Meaning.Refines.updateElement (M.operator op) (eval_refines hbase henv)
      (eval_refines hindex henv) hrefines _ _ helement
    exact Meaning.bind_eq_some.mpr
      ⟨_, _, Meaning.bind_eq_some.mpr ⟨u, _, hsource, rfl⟩, rfl⟩
  | _ => simp [checkUpdated] at hcheck

theorem Kept.execBlock {fuel : Nat} {steps : Int → Bool} {ss : List Source.Stmt}
    {ts : List Target.Stmt}
    (hss : ∀ s ∈ ss, ∀ t, lowerStmt returnType s = .ok t → s.isLoopFree = true →
      s.targets.Nodup → Kept s.targets (s.exec M steps) (t.exec M fuel))
    (h : lowerBlock returnType ss = .ok ts) (hfree : Source.isLoopFreeBlock ss = true)
    (hnodup : (Source.blockTargets ss).Nodup) :
    Kept (Source.blockTargets ss) (Source.execBlock M steps ss) (Target.execBlock M fuel ts) := by
  induction ss generalizing ts with
  | nil =>
    obtain rfl := lowerBlock_nil_eq_ok.mp h
    intro σ env henv hnew memory σ' ending memory' hrun
    cases Meaning.pure_eq_some.mp hrun
    exact ⟨env, rfl, henv⟩
  | cons s ss ih =>
    obtain ⟨t, ht, ts, hts, rfl⟩ := lowerBlock_cons_eq_ok.mp h
    rw [List.forall_mem_cons] at hss
    rw [Source.isLoopFreeBlock, Bool.and_eq_true] at hfree
    rw [Source.blockTargets] at hnodup
    obtain ⟨hnodup₁, hnodup₂, hdisjoint⟩ := List.nodup_append'.mp hnodup
    exact (hss.1 t ht hfree.1 hnodup₁).andThen (grows_lowerStmt ht) (ih hss.2 hts hfree.2 hnodup₂) hdisjoint

theorem Kept.execElse {fuel : Nat} {steps : Int → Bool} {ss : List Source.Stmt}
    {ts : List Target.Stmt} (h : lowerBlock returnType ss = .ok ts)
    (hkept : Kept (Source.blockTargets ss) (Source.execBlock M steps ss) (Target.execBlock M fuel ts)) :
    Kept (Source.blockTargets ss) (Source.execBlock M steps ss)
      (Target.execElse M fuel (if ss = [] then none else some ts)) := by
  cases ss with
  | nil =>
    intro σ env henv hnew memory σ' ending memory' hrun
    cases Meaning.pure_eq_some.mp hrun
    exact ⟨env, rfl, henv⟩
  | cons s ss => exact hkept.inBlock (grows_lowerBlock h)

/-- A statement without loops keeps its meaning, by induction on the statement: a branch is a block of
its own on the lowered side and none on the other. -/
theorem Kept.exec {fuel : Nat} {steps : Int → Bool} (s : Source.Stmt) (t : Target.Stmt)
    (h : lowerStmt returnType s = .ok t) (hfree : s.isLoopFree = true) (hnodup : s.targets.Nodup) :
    Kept s.targets (s.exec M steps) (t.exec M fuel) := by
  induction s generalizing t with
  | ret line value =>
    obtain ⟨v, hv, rfl⟩ := lowerStmt_ret_eq_ok.mp h
    exact .ret hv _
  | annotated line target hint value =>
    obtain ⟨ty, -, init, hinit, rfl⟩ := lowerStmt_annotated_eq_ok.mp h
    exact .annotated hinit _
  | augmented line target op value => exact .augmented h _
  | assign line targets value => exact absurd h lowerStmt_assign_ne_ok
  | branch line test body orelse ihb iho =>
    obtain ⟨c, hc, b, hb, o, ho, rfl⟩ := lowerStmt_branch_eq_ok.mp h
    rw [Source.Stmt.isLoopFree, Bool.and_eq_true] at hfree
    rw [Source.Stmt.targets] at hnodup
    obtain ⟨hnodup₁, hnodup₂, -⟩ := List.nodup_append'.mp hnodup
    obtain ⟨ts, hts, rfl⟩ := lowerElse_eq_ok.mp ho
    have hbody : Kept _ _ (Target.execBlock M fuel b) := .execBlock ihb hb hfree.1 hnodup₁
    have horelse : Kept _ _ (Target.execBlock M fuel ts) := .execBlock iho hts hfree.2 hnodup₂
    exact .branch hc (hbody.inBlock (grows_lowerBlock hb)) (.execElse hts horelse)
  | loop line target iter body orelse => cases hfree
  | unsupported line construct => exact absurd h lowerStmt_unsupported_ne_ok

/-- With as many arguments as parameters, both sides start from the same variables. -/
theorem value?_parameters (names : List String) (args : List M.Value) (x : String) :
    Stack.value? [names.zip (args.map some)] x = List.lookup x (names.zip args) := by
  induction names generalizing args with
  | nil => rfl
  | cons y names ih =>
    cases args with
    | nil => rfl
    | cons v args =>
      have hrest := ih args
      simp only [Stack.value?, Stack.lookup?, Option.or_none] at hrest ⊢
      rw [List.map_cons, List.zip_cons_cons, List.zip_cons_cons, Scope.lookup_cons, List.lookup_cons]
      by_cases hx : x = y
      · simp [hx]
      · simp [hx, beq_false_of_ne hx, hrest]

/-- Whatever a lowered function without loops yields, the source yields, provided that no name is
declared twice. -/
theorem loopFree_run_kept (M : Meaning) (f : Source.Function) (g : Target.Function)
    (hlower : lowerFunction f = .ok g) (hfree : Source.isLoopFreeBlock f.body = true)
    (hnames : f.declaredNames.Nodup) (fuel : Nat) (args : List M.Value) (memory memory' : M.Memory)
    (ending : Ending M.Value) (hrun : g.run M fuel args memory = some (ending, memory')) :
    f.run M args memory = some (ending, memory') := by
  obtain ⟨ty, -, params, hparams, body, hbody, rfl⟩ := lowerFunction_eq_ok.mp hlower
  obtain ⟨hnodup, hnodupBody, hdisjoint⟩ := List.nodup_append'.mp hnames
  have hparamNames := names_lowerParams hparams
  have hlength : params.length = f.params.length := by
    simpa using congrArg List.length hparamNames
  have hkept : Kept _ (Source.execBlock M Source.anyStep f.body) (Target.execBlock M fuel body) :=
    .execBlock (fun s _ => Kept.exec s) hbody hfree hnodupBody
  simp only [Target.Function.run, Source.Function.run, hlength, hparamNames] at hrun ⊢
  by_cases hargs : args.length = f.params.length
  · rw [if_pos hargs] at hrun ⊢
    obtain ⟨⟨σ', ending'⟩, memory₁, hexec, hrun⟩ := Meaning.bind_eq_some.mp hrun
    cases Meaning.pure_eq_some.mp hrun
    have hscope : Scope.names ((f.params.map Source.Param.name).zip (args.map some)) =
        f.params.map Source.Param.name := List.map_fst_zip (by simp [hargs])
    have hnew : List.Disjoint (Source.blockTargets f.body)
        (Stack.names [(f.params.map Source.Param.name).zip (args.map some)]).flatten := by
      simpa [Stack.names, hscope] using List.disjoint_symm hdisjoint
    obtain ⟨env', hsource, -⟩ := hkept _ _ (fun x v hx => by rwa [value?_parameters] at hx) hnew
      memory _ _ _ hexec
    exact Meaning.bind_eq_some.mpr ⟨_, _, hsource, rfl⟩
  · rw [if_neg hargs] at hrun
    exact absurd hrun Meaning.stuck_ne_some

/-- Declares a variable in each branch, writes an element, and returns in two ways. -/
def branchingFunction : Source.Function where
  name := "f"
  params := [⟨"a", some (.subscript "Array" (.name "int"))⟩, ⟨"n", some (.name "int")⟩]
  returns := some (.name "int")
  body := [
    .annotated 2 "x" (.name "int") (some (.binary 2 .add (.name 2 "n") (.int 1))),
    .branch 3 (.name 3 "n") [
        .annotated 4 "y" (.name "int") (some (.binary 4 .mult (.name 4 "x") (.name 4 "n"))),
        .augmented 5 (.subscript 5 (.name 5 "a") (.int 0)) .add (.name 5 "y"),
        .ret 6 (some (.subscript 6 (.name 6 "a") (.int 0)))]
      [.branch 7 (.subscript 7 (.name 7 "a") (.int 1)) [.ret 8 (some (.constant 8 .null))]
        [.annotated 9 "z" (.name "int") none]]]
  line := 1

theorem loopFree_run_kept_branching :
    ∃ g, lowerFunction branchingFunction = .ok g ∧
      g.run Outside.array.integers 0 [(0 : Int), (2 : Int)] [10, 1] =
        some (.returned (some (16 : Int)), [16, 1]) ∧
      branchingFunction.run Outside.array.integers [(0 : Int), (2 : Int)] [10, 1] =
        some (.returned (some (16 : Int)), [16, 1]) := by
  obtain ⟨g, hg⟩ : ∃ g, lowerFunction branchingFunction = .ok g := ⟨_, rfl⟩
  have hrun : g.run Outside.array.integers 0 [(0 : Int), (2 : Int)] [10, 1] =
      some (.returned (some (16 : Int)), [16, 1]) := by
    cases hg
    rfl
  exact ⟨g, hg, hrun, loopFree_run_kept _ branchingFunction g hg rfl (by decide) 0 _ _ _ _ hrun⟩

end AnnotatedToC
