import AnnotatedToC.Proofs.Meaning
import AnnotatedToC.Proofs.Progression
import AnnotatedToC.Proofs.Scopes
import Mathlib.Logic.Function.Basic

/-!
# The execution of statements

Source functions have one scope: an assignment is seen everywhere after it. Their loops go through the
elements of a range that is computed once. Lowered functions have block scopes, and their loops test a
condition before each round, so the number of rounds is bounded by fuel. Both stop early at a return.
-/
namespace AnnotatedToC

/-- How a statement ends: the next one follows, or the function returns, with or without a value. -/
inductive Ending (V : Type)
  | next
  | returned (value : Option V)
  deriving DecidableEq, Repr

namespace Meaning

variable {M : Meaning} {S : Type}

/-- Goes on from the state that is reached, unless the function has returned. -/
def andThen (x : M.Effect (S × Ending M.Value)) (k : S → M.Effect (S × Ending M.Value)) :
    M.Effect (S × Ending M.Value) := do
  let (s, ending) ← x
  match ending with
  | .next => k s
  | .returned value => return (s, .returned value)

theorem andThen_eq_some {x : M.Effect (S × Ending M.Value)}
    {k : S → M.Effect (S × Ending M.Value)} {memory memory' : M.Memory} {s' : S}
    {ending : Ending M.Value} :
    andThen x k memory = some ((s', ending), memory') ↔
      (∃ s memory₁, x memory = some ((s, .next), memory₁) ∧
        k s memory₁ = some ((s', ending), memory')) ∨
      ∃ value, ending = .returned value ∧ x memory = some ((s', .returned value), memory') := by
  rw [andThen, bind_eq_some]
  constructor
  · rintro ⟨⟨s, o⟩, memory₁, hx, hk⟩
    cases o with
    | next => exact .inl ⟨s, memory₁, hx, hk⟩
    | returned value =>
      cases pure_eq_some.mp hk
      exact .inr ⟨value, rfl, hx⟩
  · rintro (⟨s, memory₁, hx, hk⟩ | ⟨value, rfl, hx⟩)
    · exact ⟨(s, .next), memory₁, hx, hk⟩
    · exact ⟨(s', .returned value), memory', hx, rfl⟩

theorem Refines.andThen {x y : M.Effect (S × Ending M.Value)}
    {k l : S → M.Effect (S × Ending M.Value)} (hxy : Refines x y) (hkl : ∀ s, Refines (k s) (l s)) :
    Refines (Meaning.andThen x k) (Meaning.andThen y l) := by
  refine .bind hxy fun ⟨s, ending⟩ => ?_
  cases ending with
  | next => exact hkl s
  | returned value => exact .refl _

end Meaning

variable (M : Meaning)

namespace Source

/-- The arguments of a range as integers. -/
def progression? : List M.Value → Option Progression
  | [stop] => do return ⟨0, ← M.integer? stop, 1⟩
  | [start, stop] => do return ⟨← M.integer? start, ← M.integer? stop, 1⟩
  | [start, stop, step] => do
    return ⟨← M.integer? start, ← M.integer? stop, ← M.integer? step⟩
  | _ => none

/-- The range that a loop goes through. Nothing else can be iterated over. -/
def Expr.evalRange (env : M.Env) : Expr → M.Effect Progression
  | .call _ func args =>
    if func = "range" then do Meaning.demand (progression? M (← evals M env args))
    else Meaning.stuck
  | _ => Meaning.stuck

/-- The body once for each integer, which the counter is set to. -/
def forEach (counter : String) (body : M.Env → M.Effect (M.Env × Ending M.Value)) :
    List Int → M.Env → M.Effect (M.Env × Ending M.Value)
  | [], env => return (env, .next)
  | n :: ns, env =>
    Meaning.andThen (body (Function.update env counter (some (M.ofInteger n))))
      (forEach counter body ns)

/-- The compound assignment to a variable or an element. -/
def augment (env : M.Env) (op : Operator) (value : Expr) : Expr → M.Effect M.Env
  | .name _ x => do
    let new ← Meaning.updated (M.operator op) (Meaning.demand (env x)) (value.eval M env)
    return Function.update env x (some new)
  | .subscript _ base index => do
    Meaning.updateElement (M.operator op) (base.eval M env) (index.eval M env) (value.eval M env)
    return env
  | _ => Meaning.stuck

/-- The steps of a range: all but zero. -/
def anyStep (step : Int) : Bool := step ≠ 0

def upward (step : Int) : Bool := 0 < step

variable (steps : Int → Bool)

mutual

/-- The statement where the steps of ranges are restricted to the given ones. A declaration without a
value does nothing. -/
def Stmt.exec : Stmt → M.Env → M.Effect (M.Env × Ending M.Value)
  | .ret _ value, env => do return (env, .returned (← evalReturn M env value))
  | .annotated _ _ _ none, env => return (env, .next)
  | .annotated _ target _ (some value), env => do
    return (Function.update env target (some (← value.eval M env)), .next)
  | .augmented _ target op value, env => do return (← augment M env op value target, .next)
  | .assign _ targets value, env => do
    let v ← value.eval M env
    return (targets.foldl (fun env target => Function.update env target (some v)) env, .next)
  | .branch _ test body orelse, env =>
    Meaning.branch (test.eval M env) (execBlock body env) (execBlock orelse env)
  | .loop _ counter iter body orelse, env => do
    let range ← iter.evalRange M env
    if steps range.step then
      Meaning.andThen (forEach M counter (execBlock body) range.elements env) (execBlock orelse)
    else Meaning.stuck
  | .unsupported _ _, _ => Meaning.stuck

def execBlock : List Stmt → M.Env → M.Effect (M.Env × Ending M.Value)
  | [], env => return (env, .next)
  | s :: ss, env => Meaning.andThen (s.exec env) (execBlock ss)

end

/-- The result of a call with the given arguments. -/
def Function.run (f : Function) (args : List M.Value) : M.Effect (Ending M.Value) := do
  if args.length = f.params.length then
    let env : M.Env := fun x => List.lookup x ((f.params.map Param.name).zip args)
    return (← execBlock M anyStep f.body env).2
  else Meaning.stuck

end Source

namespace Target

def Declaration.exec (d : Declaration) (σ : Stack M.Value) : M.Effect (Stack M.Value) := do
  let σ ← Meaning.demand (σ.declare d.name)
  match d.init with
  | none => return σ
  | some init => Meaning.demand (σ.assign d.name (← init.eval M σ.value?))

def Update.exec (u : Update) (σ : Stack M.Value) : M.Effect (Stack M.Value) :=
  match u.target with
  | .identifier x => do
    let new ← Meaning.updated (u.operator.meaning M) (Meaning.demand (σ.value? x))
      (u.value.eval M σ.value?)
    Meaning.demand (σ.assign x new)
  | .index base index => do
    Meaning.updateElement (u.operator.meaning M) (base.eval M σ.value?) (index.eval M σ.value?)
      (u.value.eval M σ.value?)
    return σ
  | _ => Meaning.stuck

/-- Runs in a scope of its own, which is left in the end. -/
def inBlock (run : Stack M.Value → M.Effect (Stack M.Value × Ending M.Value))
    (σ : Stack M.Value) : M.Effect (Stack M.Value × Ending M.Value) := do
  let (σ', ending) ← run ([] :: σ)
  return (σ'.tail, ending)

/-- Rounds of a loop, as many as the fuel allows. -/
def rounds (cond : Expr) (body : Stack M.Value → M.Effect (Stack M.Value × Ending M.Value))
    (next : Update) : Nat → Stack M.Value → M.Effect (Stack M.Value × Ending M.Value)
  | 0, _ => Meaning.stuck
  | fuel + 1, σ =>
    Meaning.branch (cond.eval M σ.value?)
      (Meaning.andThen (body σ) fun σ => do rounds cond body next fuel (← next.exec M σ))
      (return (σ, .next))

/-- The declaration of the counter and the rounds that follow it. -/
def loopRounds (fuel : Nat) (init : Declaration) (cond : Expr) (next : Update)
    (body : Stack M.Value → M.Effect (Stack M.Value × Ending M.Value)) (σ : Stack M.Value) :
    M.Effect (Stack M.Value × Ending M.Value) := do
  rounds M cond (inBlock M body) next fuel (← init.exec M σ)

variable (fuel : Nat)

mutual

/-- The statement with fuel for so many rounds of each loop. -/
def Stmt.exec : Stmt → Stack M.Value → M.Effect (Stack M.Value × Ending M.Value)
  | .declaration d, σ => do return (← d.exec M σ, .next)
  | .update u, σ => do return (← u.exec M σ, .next)
  | .conditional cond thenBranch elseBranch, σ =>
    Meaning.branch (cond.eval M σ.value?) (inBlock M (execBlock thenBranch) σ)
      (execElse elseBranch σ)
  | .loop init cond next body, σ =>
    inBlock M (loopRounds M fuel init cond next (execBlock body)) σ
  | .ret value, σ => do return (σ, .returned (← evalReturn M σ.value? value))

def execElse : Option (List Stmt) → Stack M.Value → M.Effect (Stack M.Value × Ending M.Value)
  | none, σ => return (σ, .next)
  | some body, σ => inBlock M (execBlock body) σ

def execBlock : List Stmt → Stack M.Value → M.Effect (Stack M.Value × Ending M.Value)
  | [], σ => return (σ, .next)
  | s :: ss, σ => Meaning.andThen (s.exec σ) (execBlock ss)

end

/-- The result of a call with the given arguments. Parameters stand in the scope of the body. -/
def Function.run (f : Function) (args : List M.Value) : M.Effect (Ending M.Value) := do
  if args.length = f.params.length then
    let scope : Scope M.Value := (f.params.map Declaration.name).zip (args.map some)
    return (← execBlock M fuel f.body [scope]).2
  else Meaning.stuck

end Target

/-! ## Names along a run -/

section Names

variable {M}

/-- The names that a statement adds to the scope it stands in. -/
def Target.Stmt.declares : Target.Stmt → List String
  | .declaration d => [d.name]
  | _ => []

def Source.Stmt.declares : Source.Stmt → List String
  | .annotated _ target _ _ => [target]
  | _ => []

theorem declares_lowerStmt {returnType : Option Target.Ty} {s : Source.Stmt} {t : Target.Stmt}
    (h : lowerStmt returnType s = .ok t) : t.declares = s.declares := by
  cases s with
  | ret line value =>
    obtain ⟨v, -, rfl⟩ := lowerStmt_ret_eq_ok.mp h
    rfl
  | annotated line target hint value =>
    obtain ⟨ty, -, init, -, rfl⟩ := lowerStmt_annotated_eq_ok.mp h
    rfl
  | augmented line target op value =>
    obtain ⟨-, op', -, target', -, value', -, rfl⟩ := lowerStmt_augmented_eq_ok.mp h
    rfl
  | assign line targets value => exact absurd h lowerStmt_assign_ne_ok
  | branch line test body orelse =>
    obtain ⟨c, -, b, -, o, -, rfl⟩ := lowerStmt_branch_eq_ok.mp h
    rfl
  | loop line target iter body orelse =>
    obtain ⟨-, bounds, -, b, -, rfl⟩ := lowerStmt_loop_eq_ok.mp h
    rfl
  | unsupported line construct => exact absurd h lowerStmt_unsupported_ne_ok

theorem declares_lowerBlock {returnType : Option Target.Ty} {ss : List Source.Stmt}
    {ts : List Target.Stmt} (h : lowerBlock returnType ss = .ok ts) :
    ts.flatMap Target.Stmt.declares = ss.flatMap Source.Stmt.declares := by
  induction ss generalizing ts with
  | nil =>
    obtain rfl := lowerBlock_nil_eq_ok.mp h
    rfl
  | cons s ss ih =>
    obtain ⟨t, ht, ts, hts, rfl⟩ := lowerBlock_cons_eq_ok.mp h
    rw [List.flatMap_cons, List.flatMap_cons, declares_lowerStmt ht, ih hts]

/-- The computation adds no names but the given ones, and those only to the innermost scope. -/
def Grows (names : List String)
    (run : Stack M.Value → M.Effect (Stack M.Value × Ending M.Value)) : Prop :=
  ∀ σ memory σ' ending memory', run σ memory = some ((σ', ending), memory') → σ.GrowsBy names σ'

theorem Grows.mono {a b : List String}
    {run : Stack M.Value → M.Effect (Stack M.Value × Ending M.Value)} (h : Grows a run)
    (hab : a ⊆ b) : Grows b run := by
  intro σ memory σ' ending memory' hrun
  exact (h σ memory σ' ending memory' hrun).mono hab

namespace Target

theorem Declaration.exec_growsBy {d : Declaration} {σ σ' : Stack M.Value}
    {memory memory' : M.Memory} (h : d.exec M σ memory = some (σ', memory')) :
    σ.GrowsBy [d.name] σ' := by
  obtain ⟨σ₁, memory₁, hd, h⟩ := Meaning.bind_eq_some.mp h
  have hgrow := Stack.GrowsBy.declare (Meaning.demand_eq_some.mp hd).1
  cases hi : d.init with
  | none =>
    rw [hi] at h
    cases Meaning.pure_eq_some.mp h
    exact hgrow
  | some init =>
    rw [hi] at h
    obtain ⟨v, memory₂, -, ha⟩ := Meaning.bind_eq_some.mp h
    have hn := Stack.names_assign (Meaning.demand_eq_some.mp ha).1
    exact (hgrow.trans (b := []) (.of_names_eq hn)).mono (by simp)

theorem Update.exec_names {u : Update} {σ σ' : Stack M.Value} {memory memory' : M.Memory}
    (h : u.exec M σ memory = some (σ', memory')) : σ'.names = σ.names := by
  obtain ⟨op, target, value⟩ := u
  cases target with
  | identifier x =>
    obtain ⟨new, memory₁, -, h⟩ := Meaning.bind_eq_some.mp h
    exact Stack.names_assign (Meaning.demand_eq_some.mp h).1
  | index base index =>
    obtain ⟨_, memory₁, -, h⟩ := Meaning.bind_eq_some.mp h
    cases Meaning.pure_eq_some.mp h
    rfl
  | _ => simp [Update.exec, Meaning.stuck] at h

theorem inBlock_eq_some {run : Stack M.Value → M.Effect (Stack M.Value × Ending M.Value)}
    {σ σ' : Stack M.Value} {ending : Ending M.Value} {memory memory' : M.Memory} :
    inBlock M run σ memory = some ((σ', ending), memory') ↔
      ∃ σ₁, run ([] :: σ) memory = some ((σ₁, ending), memory') ∧ σ' = σ₁.tail := by
  simp only [inBlock, Meaning.bind_eq_some, Meaning.pure_eq_some]
  constructor
  · rintro ⟨⟨σ₁, e⟩, memory₁, hrun, h⟩
    cases h
    exact ⟨σ₁, hrun, rfl⟩
  · rintro ⟨σ₁, hrun, rfl⟩
    exact ⟨(σ₁, ending), memory', hrun, rfl⟩

/-- A block leaves the scopes around it as they were, up to values. -/
theorem inBlock_names {names : List String}
    {run : Stack M.Value → M.Effect (Stack M.Value × Ending M.Value)} (hrun : Grows names run)
    {σ σ' : Stack M.Value} {ending : Ending M.Value} {memory memory' : M.Memory}
    (h : inBlock M run σ memory = some ((σ', ending), memory')) : σ'.names = σ.names := by
  obtain ⟨σ₁, hσ₁, rfl⟩ := inBlock_eq_some.mp h
  obtain ⟨scope, rest, rfl, -, hn⟩ := (hrun _ _ _ _ _ hσ₁).nil_cons
  exact hn

theorem rounds_names {cond : Expr}
    {body : Stack M.Value → M.Effect (Stack M.Value × Ending M.Value)} {next : Update}
    {names : List String} (hbody : Grows names body) {fuel : Nat} {σ σ' : Stack M.Value}
    {ending : Ending M.Value} {memory memory' : M.Memory}
    (h : rounds M cond (inBlock M body) next fuel σ memory = some ((σ', ending), memory')) :
    σ'.names = σ.names := by
  induction fuel generalizing σ memory with
  | zero => exact absurd h Meaning.stuck_ne_some
  | succ fuel ih =>
    rcases Meaning.branch_eq_some.mp h with ⟨memory₁, -, h⟩ | ⟨memory₁, -, h⟩
    · rcases Meaning.andThen_eq_some.mp h with ⟨σ₁, memory₂, hb, h⟩ | ⟨value, rfl, hb⟩
      · obtain ⟨σ₂, memory₃, hu, h⟩ := Meaning.bind_eq_some.mp h
        rw [ih h, Update.exec_names hu, inBlock_names hbody hb]
      · exact inBlock_names hbody hb
    · cases Meaning.pure_eq_some.mp h
      rfl

theorem loopRounds_grows {names : List String} {fuel : Nat} (init : Declaration) (cond : Expr)
    (next : Update) {body : Stack M.Value → M.Effect (Stack M.Value × Ending M.Value)}
    (hbody : Grows names body) : Grows [init.name] (loopRounds M fuel init cond next body) := by
  intro σ memory σ' ending memory' h
  obtain ⟨σ₁, memory₁, hinit, h⟩ := Meaning.bind_eq_some.mp h
  exact ((Declaration.exec_growsBy hinit).trans (b := [])
    (.of_names_eq (rounds_names hbody h))).mono (by simp)

theorem execBlock_grows_of {fuel : Nat} {ts : List Stmt}
    (hts : ∀ t ∈ ts, Grows t.declares (t.exec M fuel)) :
    Grows (ts.flatMap Stmt.declares) (execBlock M fuel ts) := by
  induction ts with
  | nil =>
    intro σ memory σ' ending memory' h
    cases Meaning.pure_eq_some.mp h
    exact .of_names_eq rfl
  | cons t ts ih =>
    intro σ memory σ' ending memory' h
    rw [List.forall_mem_cons] at hts
    rcases Meaning.andThen_eq_some.mp h with ⟨σ₁, memory₁, ht, h⟩ | ⟨value, rfl, ht⟩
    · exact (hts.1 _ _ _ _ _ ht).trans (ih hts.2 _ _ _ _ _ h)
    · exact (hts.1 _ _ _ _ _ ht).mono (List.subset_append_left _ _)

/-- A statement adds no names but those it declares. -/
theorem Stmt.exec_grows (fuel : Nat) (t : Stmt) : Grows t.declares (t.exec M fuel) := by
  induction t with
  | declaration d =>
    intro σ memory σ' ending memory' h
    obtain ⟨σ₁, memory₁, hd, h⟩ := Meaning.bind_eq_some.mp h
    cases Meaning.pure_eq_some.mp h
    exact Declaration.exec_growsBy hd
  | update u =>
    intro σ memory σ' ending memory' h
    obtain ⟨σ₁, memory₁, hu, h⟩ := Meaning.bind_eq_some.mp h
    cases Meaning.pure_eq_some.mp h
    exact .of_names_eq (Update.exec_names hu)
  | conditional cond thenBranch elseBranch iht ihe =>
    intro σ memory σ' ending memory' h
    rw [Stmt.exec, Meaning.branch_eq_some] at h
    rcases h with ⟨memory₁, -, h⟩ | ⟨memory₁, -, h⟩
    · exact .of_names_eq (inBlock_names (execBlock_grows_of iht) h)
    · cases elseBranch with
      | none =>
        cases Meaning.pure_eq_some.mp h
        exact .of_names_eq rfl
      | some body => exact .of_names_eq (inBlock_names (execBlock_grows_of (ihe body rfl)) h)
  | loop init cond next body ih =>
    intro σ memory σ' ending memory' h
    rw [Stmt.exec] at h
    exact .of_names_eq (inBlock_names (loopRounds_grows init cond next (execBlock_grows_of ih)) h)
  | ret value =>
    intro σ memory σ' ending memory' h
    obtain ⟨v, memory₁, -, h⟩ := Meaning.bind_eq_some.mp h
    cases Meaning.pure_eq_some.mp h
    exact .of_names_eq rfl

theorem execBlock_grows {fuel : Nat} (ts : List Stmt) :
    Grows (ts.flatMap Stmt.declares) (execBlock M fuel ts) :=
  execBlock_grows_of fun t _ => t.exec_grows fuel

end Target

end Names

/-! ## More fuel, more steps -/

section Monotone

variable {M}

namespace Source

theorem forEach_refines {counter : String}
    {body body' : M.Env → M.Effect (M.Env × Ending M.Value)}
    (h : ∀ env, Meaning.Refines (body env) (body' env)) (ns : List Int) (env : M.Env) :
    Meaning.Refines (forEach M counter body ns env) (forEach M counter body' ns env) := by
  induction ns generalizing env with
  | nil => exact .refl _
  | cons n ns ih => exact .andThen (h _) ih

theorem execBlock_refines_of {steps steps' : Int → Bool} {ss : List Stmt}
    (hss : ∀ s ∈ ss, ∀ env, Meaning.Refines (s.exec M steps env) (s.exec M steps' env))
    (env : M.Env) : Meaning.Refines (execBlock M steps ss env) (execBlock M steps' ss env) := by
  induction ss generalizing env with
  | nil => exact .refl _
  | cons s ss ih =>
    rw [List.forall_mem_cons] at hss
    exact .andThen (hss.1 env) (ih hss.2)

/-- Where more steps of ranges are allowed, a statement keeps the result that it has. -/
theorem Stmt.exec_refines {steps steps' : Int → Bool} (h : ∀ n, steps n = true → steps' n = true)
    (s : Stmt) (env : M.Env) : Meaning.Refines (s.exec M steps env) (s.exec M steps' env) := by
  induction s generalizing env with
  | branch line test body orelse ihb iho =>
    rw [Stmt.exec, Stmt.exec]
    exact .branch (.refl _) (execBlock_refines_of ihb env) (execBlock_refines_of iho env)
  | loop line counter iter body orelse ihb iho =>
    rw [Stmt.exec, Stmt.exec]
    refine .bind (.refl _) fun range => ?_
    by_cases hstep : steps range.step = true
    · rw [if_pos hstep, if_pos (h _ hstep)]
      exact .andThen (forEach_refines (execBlock_refines_of ihb) _ env) (execBlock_refines_of iho)
    · rw [if_neg hstep]
      intro memory r hr
      exact absurd hr Meaning.stuck_ne_some
  | annotated line target hint value =>
    cases value with
    | none => exact .refl _
    | some e => exact .refl _
  | _ => exact .refl _

end Source

namespace Target

theorem inBlock_refines {run run' : Stack M.Value → M.Effect (Stack M.Value × Ending M.Value)}
    (h : ∀ σ, Meaning.Refines (run σ) (run' σ)) (σ : Stack M.Value) :
    Meaning.Refines (inBlock M run σ) (inBlock M run' σ) :=
  .bind (h _) fun _ => .refl _

theorem rounds_refines {cond : Expr} {next : Update}
    {body body' : Stack M.Value → M.Effect (Stack M.Value × Ending M.Value)}
    (h : ∀ σ, Meaning.Refines (body σ) (body' σ)) {n n' : Nat} (hn : n ≤ n') (σ : Stack M.Value) :
    Meaning.Refines (rounds M cond body next n σ) (rounds M cond body' next n' σ) := by
  induction n generalizing n' σ with
  | zero =>
    intro memory r hr
    exact absurd hr Meaning.stuck_ne_some
  | succ n ih =>
    obtain ⟨k, rfl⟩ := Nat.exists_eq_add_of_le' (Nat.succ_le_of_lt (Nat.lt_of_lt_of_le n.succ_pos hn))
    exact .branch (.refl _)
      (.andThen (h σ) fun σ => .bind (.refl _) fun σ => ih (Nat.le_of_succ_le_succ hn) σ) (.refl _)

theorem execBlock_refines_of {fuel fuel' : Nat} {ts : List Stmt}
    (hts : ∀ t ∈ ts, ∀ σ, Meaning.Refines (t.exec M fuel σ) (t.exec M fuel' σ))
    (σ : Stack M.Value) :
    Meaning.Refines (execBlock M fuel ts σ) (execBlock M fuel' ts σ) := by
  induction ts generalizing σ with
  | nil => exact .refl _
  | cons t ts ih =>
    rw [List.forall_mem_cons] at hts
    exact .andThen (hts.1 σ) (ih hts.2)

/-- With more fuel a statement keeps the result that it has. -/
theorem Stmt.exec_refines {fuel fuel' : Nat} (h : fuel ≤ fuel') (t : Stmt) (σ : Stack M.Value) :
    Meaning.Refines (t.exec M fuel σ) (t.exec M fuel' σ) := by
  induction t generalizing σ with
  | conditional cond thenBranch elseBranch iht ihe =>
    rw [Stmt.exec, Stmt.exec]
    refine .branch (.refl _) (inBlock_refines (execBlock_refines_of iht) σ) ?_
    cases elseBranch with
    | none => exact .refl _
    | some body => exact inBlock_refines (execBlock_refines_of (ihe body rfl)) σ
  | loop init cond next body ih =>
    rw [Stmt.exec, Stmt.exec]
    refine inBlock_refines (fun σ => .bind (.refl _) fun σ => ?_) σ
    exact rounds_refines (inBlock_refines (execBlock_refines_of ih)) h σ
  | _ => exact .refl _

/-- All the fuel that is enough leads to one result. -/
theorem Stmt.exec_unique {t : Stmt} {σ : Stack M.Value} {memory : M.Memory} {fuel fuel' : Nat}
    {r r' : (Stack M.Value × Ending M.Value) × M.Memory} (h : t.exec M fuel σ memory = some r)
    (h' : t.exec M fuel' σ memory = some r') : r = r' := by
  have hr := t.exec_refines (Nat.le_max_left fuel fuel') σ memory r h
  have hr' := t.exec_refines (Nat.le_max_right fuel fuel') σ memory r' h'
  exact Option.some.inj (hr.symm.trans hr')

end Target

end Monotone

end AnnotatedToC
