import AnnotatedToC.Proofs.Integers

/-!
# Counting loops keep their meaning

A loop over a range is lowered to one that counts: the stop and the step are computed again in each
round, the counter is a variable of the loop, and every block has its own scope. This comes to the same
as going through the range as long as the body leaves the counter and the bounds alone, names are
declared once and are read where they have a value, and every range counts up.
-/
namespace AnnotatedToC

namespace Source

/-- The names that have a value after a declaration. -/
def Stmt.initializes : Stmt → List String
  | .annotated _ target _ (some _) => [target]
  | _ => []

mutual

/-- A statement fits into block scopes. The names in `taken` are declared around it, and those in
`known` have a value. -/
def Stmt.isScoped (taken known : List String) : Stmt → Bool
  | .ret _ value => (valueNames value).all (· ∈ known)
  | .annotated _ target _ value =>
    decide (target ∉ taken) && (valueNames value).all (· ∈ known)
  | .augmented _ target _ value => (target.names ++ value.names).all (· ∈ known)
  | .branch _ test body orelse =>
    test.names.all (· ∈ known) && (blockIsScoped taken known body && blockIsScoped taken known orelse)
  | .loop _ counter iter body _ =>
    decide (counter ∉ taken) && (iter.names.all (· ∈ known) &&
      ((counter :: namesOf iter.bounds).all (· ∉ blockAssigned body) &&
        blockIsScoped (counter :: taken) (counter :: known) body))
  | .assign _ _ _ | .unsupported _ _ => true

def blockIsScoped (taken known : List String) : List Stmt → Bool
  | [] => true
  | s :: ss =>
    s.isScoped taken known && blockIsScoped (s.declares ++ taken) (s.initializes ++ known) ss

end

mutual

/-- The stop and the step of every loop inside are steady. -/
def Stmt.SteadyBounds (M : Meaning) : Stmt → Prop
  | .branch _ _ body orelse => BlockSteadyBounds M body ∧ BlockSteadyBounds M orelse
  | .loop _ _ iter body _ => (∀ e ∈ iter.bounds, e.Steady M) ∧ BlockSteadyBounds M body
  | _ => True

def BlockSteadyBounds (M : Meaning) : List Stmt → Prop
  | [] => True
  | s :: ss => s.SteadyBounds M ∧ BlockSteadyBounds M ss

end

end Source

theorem all_mem_eq_true {names known : List String} :
    names.all (· ∈ known) = true ↔ names ⊆ known := by
  simp [List.subset_def]

theorem initializes_subset_declares (s : Source.Stmt) : s.initializes ⊆ s.declares := by
  cases s with
  | annotated line target hint value =>
    cases value with
    | none => exact List.nil_subset _
    | some e => exact List.Subset.refl _
  | _ => exact List.nil_subset _

/-- A block that fits into its scope declares new names only. -/
theorem disjoint_declares_of_blockIsScoped {taken known : List String} {ss : List Source.Stmt}
    (h : Source.blockIsScoped taken known ss = true) :
    List.Disjoint (ss.flatMap Source.Stmt.declares) taken := by
  induction ss generalizing taken known with
  | nil => exact List.disjoint_nil_left _
  | cons s ss ih =>
    rw [Source.blockIsScoped, Bool.and_eq_true] at h
    rw [List.flatMap_cons, List.disjoint_append_left]
    refine ⟨?_, List.disjoint_of_subset_right (List.subset_append_right _ _) (ih h.2)⟩
    cases s with
    | annotated line target hint value =>
      rw [Source.Stmt.isScoped, Bool.and_eq_true, decide_eq_true_eq] at h
      simpa [Source.Stmt.declares] using h.1.1
    | _ => exact List.disjoint_nil_left _

variable {M : Meaning}

/-- The variables have the same values on both sides. -/
def Agree (names : List String) (env : M.Env) (σ : Stack M.Value) : Prop :=
  ∀ x ∈ names, ∃ v, env x = some v ∧ σ.value? x = some v

theorem Agree.mono {a b : List String} {env : M.Env} {σ : Stack M.Value} (h : Agree b env σ)
    (hab : a ⊆ b) : Agree a env σ :=
  fun x hx => h x (hab hx)

theorem Agree.value?_eq {names : List String} {env : M.Env} {σ : Stack M.Value}
    (h : Agree names env σ) {x : String} (hx : x ∈ names) : σ.value? x = env x := by
  obtain ⟨v, henv, hσ⟩ := h x hx
  rw [henv, hσ]

/-- Both sides give one value to a variable. -/
theorem Agree.assign {names : List String} {env : M.Env} {σ σ' : Stack M.Value}
    (h : Agree names env σ) {x : String} {v : M.Value} (hassign : σ.assign x v = some σ') :
    Agree (x :: names) (Function.update env x (some v)) σ' := by
  intro y hy
  by_cases hyx : y = x
  · rw [hyx, Function.update_self]
    exact ⟨v, rfl, Stack.value?_assign_self hassign⟩
  · rw [Function.update_of_ne hyx, Stack.value?_assign_of_ne hassign hyx]
    exact h y ((List.mem_cons.mp hy).resolve_left hyx)

theorem Agree.declare {names : List String} {env : M.Env} {σ σ' : Stack M.Value}
    (h : Agree names env σ) {x : String} (hx : x ∉ names) (hdeclare : σ.declare x = some σ') :
    Agree names env σ' := by
  intro y hy
  rw [Stack.value?_declare_of_ne hdeclare (ne_of_mem_of_not_mem hy hx)]
  exact h y hy

/-- Leaving a scope with other names in it changes nothing. -/
theorem Agree.tail {names : List String} {env : M.Env} {scope : Scope M.Value}
    {rest : Stack M.Value} (h : Agree names env (scope :: rest))
    (hdisjoint : List.Disjoint scope.names names) : Agree names env rest := by
  intro y hy
  rw [← Stack.value?_cons_of_notMem (fun hs => hdisjoint hs hy) rest]
  exact h y hy

/-- The innermost scope has no names but the given ones. -/
def TopIn (taken : List String) (σ : Stack M.Value) : Prop :=
  ∃ scope rest, σ = scope :: rest ∧ scope.names ⊆ taken

theorem TopIn.growsBy {taken names : List String} {σ σ' : Stack M.Value} (h : TopIn taken σ)
    (hgrow : σ.GrowsBy names σ') : TopIn (names ++ taken) σ' := by
  obtain ⟨scope, rest, rfl, hscope⟩ := h
  obtain ⟨new, hnew, hn⟩ := hgrow
  cases σ' with
  | nil => simp [Stack.names] at hn
  | cons scope' rest' =>
    simp only [Stack.names, List.map_cons, List.modifyHead_cons, List.cons.injEq] at hn
    refine ⟨scope', rest', rfl, ?_⟩
    rw [hn.1, List.append_subset]
    exact ⟨List.Subset.trans hnew (List.subset_append_left _ _),
      List.Subset.trans hscope (List.subset_append_right _ _)⟩

theorem TopIn.declare {taken : List String} {σ : Stack M.Value} (h : TopIn taken σ) {x : String}
    (hx : x ∉ taken) : ∃ σ', σ.declare x = some σ' := by
  obtain ⟨scope, rest, rfl, hscope⟩ := h
  exact ⟨_, Stack.declare_eq_some.mpr ⟨scope, rest, rfl, fun hs => hx (hscope hs), rfl⟩⟩

/-- A lowered computation follows a source computation: with the same variables, and enough fuel, it
comes to the same result. -/
def Followed (P : Stack M.Value → Prop) (known after : List String)
    (source : M.Env → M.Effect (M.Env × Ending M.Value))
    (lowered : Nat → Stack M.Value → M.Effect (Stack M.Value × Ending M.Value)) : Prop :=
  ∀ env σ, Agree known env σ → P σ → ∀ memory env' ending memory',
    source env memory = some ((env', ending), memory') →
      ∃ σ' N, (∀ fuel ≥ N, lowered fuel σ memory = some ((σ', ending), memory')) ∧
        Agree after env' σ'

section Composition

variable {P : Stack M.Value → Prop} {taken known after names : List String}
  {source source₁ source₂ : M.Env → M.Effect (M.Env × Ending M.Value)}
  {lowered lowered₁ lowered₂ : Nat → Stack M.Value → M.Effect (Stack M.Value × Ending M.Value)}

theorem Followed.mono {a : List String} (h : Followed P known after source lowered)
    (ha : a ⊆ after) : Followed P known a source lowered := by
  intro env σ hagree hσ memory env' ending memory' hrun
  obtain ⟨σ', N, hlowered, hagree'⟩ := h env σ hagree hσ memory env' ending memory' hrun
  exact ⟨σ', N, hlowered, hagree'.mono ha⟩

theorem Followed.inBlock (h : Followed (TopIn taken) known known source lowered)
    (hgrow : ∀ fuel, Grows names (lowered fuel)) (hdisjoint : List.Disjoint names known) :
    Followed P known known source fun fuel => Target.inBlock M (lowered fuel) := by
  intro env σ hagree _ memory env' ending memory' hrun
  have hagree₀ : Agree known env ([] :: σ) := by
    intro x hx
    rw [Stack.value?_nil_cons]
    exact hagree x hx
  obtain ⟨σ₁, N, hlowered, hagree₁⟩ := h env ([] :: σ) hagree₀ ⟨[], σ, rfl, List.nil_subset _⟩
    memory env' ending memory' hrun
  obtain ⟨scope, rest, rfl, hscope, -⟩ := (hgrow N _ _ _ _ _ (hlowered N le_rfl)).nil_cons
  refine ⟨rest, N, fun fuel hfuel => ?_,
    hagree₁.tail (List.disjoint_of_subset_left hscope hdisjoint)⟩
  exact Target.inBlock_eq_some.mpr ⟨_, hlowered fuel hfuel, rfl⟩

theorem Followed.andThen (h₁ : Followed (TopIn taken) known after source₁ lowered₁)
    (hgrow : ∀ fuel, Grows names (lowered₁ fuel))
    (h₂ : Followed (TopIn (names ++ taken)) after after source₂ lowered₂) :
    Followed (TopIn taken) known after (fun env => Meaning.andThen (source₁ env) source₂)
      fun fuel σ => Meaning.andThen (lowered₁ fuel σ) (lowered₂ fuel) := by
  intro env σ hagree htop memory env' ending memory' hrun
  rcases Meaning.andThen_eq_some.mp hrun with ⟨env₁, memory₁, hfirst, hrest⟩ | ⟨value, rfl, hfirst⟩
  · obtain ⟨σ₁, N₁, hlowered₁, hagree₁⟩ := h₁ env σ hagree htop memory env₁ _ memory₁ hfirst
    have htop₁ := htop.growsBy (hgrow N₁ _ _ _ _ _ (hlowered₁ N₁ le_rfl))
    obtain ⟨σ', N₂, hlowered₂, hagree'⟩ := h₂ env₁ σ₁ hagree₁ htop₁ memory₁ env' _ memory' hrest
    refine ⟨σ', max N₁ N₂, fun fuel hfuel => ?_, hagree'⟩
    exact Meaning.andThen_eq_some.mpr (.inl ⟨σ₁, memory₁,
      hlowered₁ fuel (le_trans (le_max_left _ _) hfuel),
      hlowered₂ fuel (le_trans (le_max_right _ _) hfuel)⟩)
  · obtain ⟨σ', N, hlowered, hagree'⟩ := h₁ env σ hagree htop memory env' _ memory' hfirst
    exact ⟨σ', N, fun fuel hfuel =>
      Meaning.andThen_eq_some.mpr (.inr ⟨value, rfl, hlowered fuel hfuel⟩), hagree'⟩

/-- With the same variables a lowered expression is evaluated as its source is. -/
theorem Agree.eval_eq {env : M.Env} {σ : Stack M.Value} (h : Agree known env σ)
    {expected : Option Target.Ty} {e : Source.Expr} {t : Target.Expr}
    (ht : lowerExpr expected e = .ok t) (hnames : e.names ⊆ known) :
    t.eval M σ.value? = e.eval M env := by
  rw [eval_lowerExpr _ _ e expected t ht]
  exact eval_congr _ e fun x hx => h.value?_eq (hnames hx)

theorem Followed.branch {test : Source.Expr} {cond : Target.Expr}
    (htest : lowerExpr none test = .ok cond) (hnames : test.names ⊆ known)
    (h₁ : Followed P known after source₁ lowered₁) (h₂ : Followed P known after source₂ lowered₂) :
    Followed P known after
      (fun env => Meaning.branch (test.eval M env) (source₁ env) (source₂ env))
      fun fuel σ => Meaning.branch (cond.eval M σ.value?) (lowered₁ fuel σ)
        (lowered₂ fuel σ) := by
  intro env σ hagree hσ memory env' ending memory' hrun
  simp only [← hagree.eval_eq htest hnames] at hrun
  rcases Meaning.branch_eq_some.mp hrun with ⟨memory₁, hcond, hthen⟩ | ⟨memory₁, hcond, helse⟩
  · obtain ⟨σ', N, hlowered, hagree'⟩ := h₁ env σ hagree hσ memory₁ env' ending memory' hthen
    exact ⟨σ', N, fun fuel hfuel =>
      Meaning.branch_eq_some.mpr (.inl ⟨memory₁, hcond, hlowered fuel hfuel⟩), hagree'⟩
  · obtain ⟨σ', N, hlowered, hagree'⟩ := h₂ env σ hagree hσ memory₁ env' ending memory' helse
    exact ⟨σ', N, fun fuel hfuel =>
      Meaning.branch_eq_some.mpr (.inr ⟨memory₁, hcond, hlowered fuel hfuel⟩), hagree'⟩

end Composition

section Statements

variable {P : Stack M.Value → Prop} {taken known : List String} {returnType : Option Target.Ty}
  {steps : Int → Bool} {line : Source.LineNumber}

theorem Followed.ret {value : Option Source.Expr} {v : Option Target.Expr}
    (h : lowerReturn returnType value = .ok v) (hnames : Source.valueNames value ⊆ known) :
    Followed P known known (Source.Stmt.exec M steps (.ret line value))
      fun fuel => Target.Stmt.exec M fuel (.ret v) := by
  intro env σ hagree _ memory env' ending memory' hrun
  obtain ⟨x, memory₁, hx, hrun⟩ := Meaning.bind_eq_some.mp hrun
  cases Meaning.pure_eq_some.mp hrun
  refine ⟨σ, 0, fun fuel _ => Meaning.bind_eq_some.mpr ⟨x, _, ?_, rfl⟩, hagree⟩
  rw [evalReturn_lowerReturn M _ h, evalReturn_congr M fun x hx => hagree.value?_eq (hnames hx), hx]

theorem Followed.annotated {target : String} {hint : Source.Hint} {ty : Target.Ty}
    {value : Option Source.Expr} {init : Option Target.Expr}
    (h : lowerValue (some ty) value = .ok init) (htaken : target ∉ taken)
    (hknown : known ⊆ taken) (hnames : Source.valueNames value ⊆ known) :
    Followed (TopIn taken) known (Source.Stmt.initializes (.annotated line target hint value) ++ known)
      (Source.Stmt.exec M steps (.annotated line target hint value))
      fun fuel => Target.Stmt.exec M fuel (.declaration ⟨target, ty, init⟩) := by
  intro env σ hagree htop memory env' ending memory' hrun
  obtain ⟨σ₁, hdeclare⟩ := htop.declare htaken
  have hagree₁ := hagree.declare (fun hx => htaken (hknown hx)) hdeclare
  have hdemand : (Meaning.demand (σ.declare target) : M.Effect _) memory = some (σ₁, memory) :=
    Meaning.demand_eq_some.mpr ⟨hdeclare, rfl⟩
  cases value with
  | none =>
    obtain rfl := lowerValue_none_eq_ok.mp h
    cases Meaning.pure_eq_some.mp hrun
    refine ⟨σ₁, 0, fun fuel _ => Meaning.bind_eq_some.mpr ⟨σ₁, _, ?_, rfl⟩, hagree₁⟩
    exact Meaning.bind_eq_some.mpr ⟨σ₁, _, hdemand, rfl⟩
  | some e =>
    obtain ⟨e', he, rfl⟩ := lowerValue_some_eq_ok.mp h
    obtain ⟨v, memory₁, hv, hrun⟩ := Meaning.bind_eq_some.mp hrun
    cases Meaning.pure_eq_some.mp hrun
    rw [← hagree₁.eval_eq he hnames] at hv
    obtain ⟨σ₂, hassign⟩ := Stack.assign_isSome_of_declare v hdeclare
    refine ⟨σ₂, 0, fun fuel _ => Meaning.bind_eq_some.mpr ⟨σ₂, _, ?_, rfl⟩, hagree₁.assign hassign⟩
    refine Meaning.bind_eq_some.mpr ⟨_, _, hdemand, ?_⟩
    exact Meaning.bind_eq_some.mpr ⟨v, _, hv, Meaning.demand_eq_some.mpr ⟨hassign, rfl⟩⟩

theorem Followed.augmented {target value : Source.Expr} {op : Source.Operator} {t : Target.Stmt}
    (h : lowerStmt returnType (.augmented line target op value) = .ok t)
    (htarget : target.names ⊆ known) (hvalue : value.names ⊆ known) :
    Followed P known known (Source.Stmt.exec M steps (.augmented line target op value))
      fun fuel => t.exec M fuel := by
  intro env σ hagree _ memory env' ending memory' hrun
  obtain ⟨hcheck, op', hop, target', htarget', value', hvalue', rfl⟩ :=
    lowerStmt_augmented_eq_ok.mp h
  obtain ⟨env₁, memory₁, haugment, hrun⟩ := Meaning.bind_eq_some.mp hrun
  cases Meaning.pure_eq_some.mp hrun
  have hmeaning := meaning_lowerOperator M hop
  have heval := hagree.eval_eq hvalue' hvalue
  cases target with
  | name l x =>
    obtain rfl := lowerExpr_name_eq_ok.mp htarget'
    obtain ⟨new, memory₂, hnew, hrun⟩ := Meaning.bind_eq_some.mp haugment
    cases Meaning.pure_eq_some.mp hrun
    have hx : x ∈ known := htarget (by simp [Source.Expr.names])
    rw [← heval, ← hmeaning, ← hagree.value?_eq hx] at hnew
    obtain ⟨v, -, hv⟩ := hagree x hx
    obtain ⟨σ₁, hassign⟩ := Stack.assign_isSome new (Stack.mem_names_of_value? hv)
    refine ⟨σ₁, 0, fun fuel _ => Meaning.bind_eq_some.mpr ⟨σ₁, _, ?_, rfl⟩,
      (hagree.assign hassign).mono (List.subset_cons_self _ _)⟩
    exact Meaning.bind_eq_some.mpr
      ⟨new, _, hnew, Meaning.demand_eq_some.mpr ⟨hassign, rfl⟩⟩
  | subscript l base index =>
    obtain ⟨base', hbase, index', hindex, rfl⟩ := lowerExpr_subscript_eq_ok.mp htarget'
    obtain ⟨u, memory₂, helement, hrun⟩ := Meaning.bind_eq_some.mp haugment
    cases Meaning.pure_eq_some.mp hrun
    rw [Source.Expr.names, List.append_subset] at htarget
    rw [← heval, ← hmeaning, ← hagree.eval_eq hbase htarget.1,
      ← hagree.eval_eq hindex htarget.2] at helement
    refine ⟨σ, 0, fun fuel _ => Meaning.bind_eq_some.mpr ⟨σ, _, ?_, rfl⟩, hagree⟩
    exact Meaning.bind_eq_some.mpr ⟨u, _, helement, rfl⟩
  | _ => simp [checkUpdated] at hcheck

theorem Followed.execBlock {ss : List Source.Stmt} {ts : List Target.Stmt}
    (hss : ∀ s ∈ ss, ∀ t taken known, lowerStmt returnType s = .ok t →
      s.isScoped taken known = true → s.SteadyBounds M → known ⊆ taken →
        Followed (TopIn taken) known (s.initializes ++ known) (s.exec M steps)
          fun fuel => t.exec M fuel)
    (h : lowerBlock returnType ss = .ok ts) (hscoped : Source.blockIsScoped taken known ss = true)
    (hsteady : Source.BlockSteadyBounds M ss) (hknown : known ⊆ taken) :
    Followed (TopIn taken) known known (Source.execBlock M steps ss)
      fun fuel => Target.execBlock M fuel ts := by
  induction ss generalizing ts taken known with
  | nil =>
    obtain rfl := lowerBlock_nil_eq_ok.mp h
    intro env σ hagree _ memory env' ending memory' hrun
    cases Meaning.pure_eq_some.mp hrun
    exact ⟨σ, 0, fun _ _ => rfl, hagree⟩
  | cons s ss ih =>
    obtain ⟨t, ht, ts, hts, rfl⟩ := lowerBlock_cons_eq_ok.mp h
    rw [List.forall_mem_cons] at hss
    rw [Source.blockIsScoped, Bool.and_eq_true] at hscoped
    have hfirst := hss.1 t taken known ht hscoped.1 hsteady.1 hknown
    have hgrow : ∀ fuel, Grows s.declares (t.exec M fuel) := fun fuel =>
      declares_lowerStmt ht ▸ t.exec_grows fuel
    have hknown' : s.initializes ++ known ⊆ s.declares ++ taken :=
      List.append_subset.mpr
        ⟨List.Subset.trans (initializes_subset_declares s) (List.subset_append_left _ _),
          List.Subset.trans hknown (List.subset_append_right _ _)⟩
    exact (hfirst.andThen hgrow (ih hss.2 hts hscoped.2 hsteady.2 hknown')).mono
      (List.subset_append_right _ _)

end Statements

theorem andThen_execBlock_nil {steps : Int → Bool} (x : M.Effect (M.Env × Ending M.Value)) :
    Meaning.andThen x (Source.execBlock M steps []) = x := by
  refine Eq.trans (congrArg (x >>= ·) (funext ?_)) (bind_pure x)
  rintro ⟨env, _ | value⟩ <;> rfl

section Loops

variable {known : List String} {steps : Int → Bool} {counter : String} {iter : Source.Expr}
  {bounds : RangeBounds} {body : List Source.Stmt} {b : List Target.Stmt}

/-- The condition compares the counter with the stop. -/
theorem Meaning.Counts.truth_condition (hM : M.Counts) {env : M.Env} {stop : Target.Expr} {n s : Int}
    {memory : M.Memory} (hcounter : env counter = some (M.ofInteger n))
    (hstop : stop.eval M env memory = some (M.ofInteger s, memory)) :
    (Target.Expr.eval M env (.binary .lt (.identifier counter) stop) >>= M.truth) memory =
      some (decide (n < s), memory) := by
  rw [Target.Expr.eval, Target.Expr.eval, bind_assoc]
  refine Meaning.bind_eq_some.mpr
    ⟨M.ofInteger n, memory, Meaning.demand_eq_some.mpr ⟨hcounter, rfl⟩, ?_⟩
  rw [bind_assoc]
  exact Meaning.bind_eq_some.mpr ⟨M.ofInteger s, memory, hstop, hM.less n s memory⟩

/-- The end of a round adds the step to the counter. -/
theorem Meaning.Counts.exec_next (hM : M.Counts) {σ : Stack M.Value} {step : Target.Expr} {n i : Int}
    {memory : M.Memory} (hcounter : σ.value? counter = some (M.ofInteger n))
    (hstep : step.eval M σ.value? memory = some (M.ofInteger i, memory)) :
    ∃ σ', Target.Update.exec M ⟨.add, .identifier counter, step⟩ σ memory = some (σ', memory) ∧
      σ.assign counter (M.ofInteger (n + i)) = some σ' := by
  obtain ⟨σ', hassign⟩ := Stack.assign_isSome (M.ofInteger (n + i))
    (Stack.mem_names_of_value? hcounter)
  refine ⟨σ', ?_, hassign⟩
  refine Meaning.bind_eq_some.mpr ⟨M.ofInteger (n + i), memory, ?_,
    Meaning.demand_eq_some.mpr ⟨hassign, rfl⟩⟩
  refine Meaning.bind_eq_some.mpr
    ⟨M.ofInteger n, memory, Meaning.demand_eq_some.mpr ⟨hcounter, rfl⟩, ?_⟩
  exact Meaning.bind_eq_some.mpr ⟨M.ofInteger i, memory, hstep, hM.add n i memory⟩

/-- Both sides are about to start a round: the counter is the next element of the range, and what the
bounds read is as it was on entry to the loop. -/
structure AtRound (known names : List String) (counter : String) (entry : M.Env) (start : Int)
    (env : M.Env) (σ : Stack M.Value) : Prop where
  agree : Agree known env σ
  counter : σ.value? counter = some (M.ofInteger start)
  bounds : ∀ x ∈ names, env x = entry x

section Rounds

variable {names : List String} {entry env env₂ : M.Env} {start : Int} {σ σ₂ : Stack M.Value}

theorem AtRound.value?_eq (h : AtRound known names counter entry start env σ)
    (hnames : names ⊆ known) : ∀ x ∈ names, σ.value? x = entry x := by
  intro x hx
  rw [h.agree.value?_eq (hnames hx), h.bounds x hx]

theorem AtRound.agree_update (h : AtRound known names counter entry start env σ) :
    Agree (counter :: known) (Function.update env counter (some (M.ofInteger start))) σ := by
  intro x hx
  by_cases hxc : x = counter
  · rw [hxc, Function.update_self]
    exact ⟨_, rfl, h.counter⟩
  · rw [Function.update_of_ne hxc]
    exact h.agree x ((List.mem_cons.mp hx).resolve_left hxc)

/-- From one round to the next: the body leaves the counter and the bounds alone, and then the step is
added. -/
theorem AtRound.next (hM : M.Counts) {step : Target.Expr} {i : Int} {memory memory₂ : M.Memory}
    (h : AtRound known names counter entry start env σ)
    (hassigned : ∀ x ∈ counter :: names, x ∉ Source.blockAssigned body)
    (hcounter : counter ∉ known) (hnames : names ⊆ known)
    (hstep : ∀ env : M.Env, (∀ x ∈ names, env x = entry x) →
      ∀ memory, step.eval M env memory = some (M.ofInteger i, memory))
    (hround : Source.execBlock M steps body
      (Function.update env counter (some (M.ofInteger start))) memory = some ((env₂, .next), memory₂))
    (hagree : Agree (counter :: known) env₂ σ₂) :
    ∃ σ₃, Target.Update.exec M ⟨.add, .identifier counter, step⟩ σ₂ memory₂ = some (σ₃, memory₂) ∧
      AtRound known names counter entry (start + i) env₂ σ₃ := by
  have hkept := Frames.execBlock (fun s _ => Frames.exec s) _ _ _ _ _ hround
  have hvalue : σ₂.value? counter = some (M.ofInteger start) := by
    rw [hagree.value?_eq List.mem_cons_self, hkept counter (hassigned _ List.mem_cons_self),
      Function.update_self]
  have hbounds : ∀ x ∈ names, env₂ x = entry x := by
    intro x hx
    have hxc : x ≠ counter := ne_of_mem_of_not_mem (hnames hx) hcounter
    rw [hkept x (hassigned x (List.mem_cons_of_mem _ hx)), Function.update_of_ne hxc, h.bounds x hx]
  have hread : ∀ x ∈ names, σ₂.value? x = entry x := by
    intro x hx
    rw [hagree.value?_eq (List.mem_cons_of_mem _ (hnames hx)), hbounds x hx]
  obtain ⟨σ₃, hnext, hassign⟩ := hM.exec_next hvalue (hstep _ hread memory₂)
  refine ⟨σ₃, hnext, ?_, Stack.value?_assign_self hassign, hbounds⟩
  intro x hx
  rw [Stack.value?_assign_of_ne hassign (ne_of_mem_of_not_mem hx hcounter)]
  exact hagree x (List.mem_cons_of_mem _ hx)

end Rounds

/-- The rounds of the loop are those of the range. -/
theorem rounds_followed (hM : M.Counts) {names : List String}
    (hbody : Followed (fun _ => True) (counter :: known) (counter :: known)
      (Source.execBlock M steps body) fun fuel => Target.inBlock M (Target.execBlock M fuel b))
    (hassigned : ∀ x ∈ counter :: names, x ∉ Source.blockAssigned body)
    (hcounter : counter ∉ known) (hnames : names ⊆ known) {entry : M.Env} (p : Progression)
    (hpositive : 0 < p.step)
    (hstop : ∀ env : M.Env, (∀ x ∈ names, env x = entry x) →
      ∀ memory, bounds.stop.eval M env memory = some (M.ofInteger p.stop, memory))
    (hstep : ∀ env : M.Env, (∀ x ∈ names, env x = entry x) →
      ∀ memory, bounds.step.eval M env memory = some (M.ofInteger p.step, memory))
    (env env' : M.Env) (σ : Stack M.Value) (ending : Ending M.Value) (memory memory' : M.Memory)
    (hround : AtRound known names counter entry p.start env σ)
    (hrun : Source.forEach M counter (Source.execBlock M steps body) p.elements env memory =
      some ((env', ending), memory')) :
    ∃ σ' N, (∀ fuel ≥ N, ∀ n ≥ N, Target.rounds M (.binary .lt (.identifier counter) bounds.stop)
        (Target.inBlock M (Target.execBlock M fuel b)) ⟨.add, .identifier counter, bounds.step⟩ n σ
        memory = some ((σ', ending), memory')) ∧
      Agree known env' σ' := by
  induction p, hpositive using Progression.upwardInduction generalizing env σ memory with
  | done p hpositive hlast =>
    rw [Progression.elements_eq_nil hpositive hlast] at hrun
    cases Meaning.pure_eq_some.mp hrun
    have hcond := hM.truth_condition hround.counter (hstop _ (hround.value?_eq hnames) memory')
    rw [decide_eq_false (not_lt.mpr hlast)] at hcond
    refine ⟨σ, 1, fun fuel _ n hn => ?_, hround.agree⟩
    obtain ⟨k, rfl⟩ := Nat.exists_eq_add_of_le' hn
    exact Meaning.branch_eq_some.mpr (.inr ⟨memory', hcond, rfl⟩)
  | round p hpositive hfirst ih =>
    rw [Progression.elements_eq_cons hpositive hfirst, Source.forEach] at hrun
    have hcond := hM.truth_condition hround.counter (hstop _ (hround.value?_eq hnames) memory)
    rw [decide_eq_true hfirst] at hcond
    rcases Meaning.andThen_eq_some.mp hrun with
      ⟨env₂, memory₂, hfirstRound, hrest⟩ | ⟨value, rfl, hfirstRound⟩
    · obtain ⟨σ₂, N₁, hlowered, hagree⟩ :=
        hbody _ σ hround.agree_update trivial memory env₂ _ memory₂ hfirstRound
      obtain ⟨σ₃, hnext, hround₃⟩ :=
        hround.next hM hassigned hcounter hnames hstep hfirstRound hagree
      obtain ⟨σ', N₂, hrounds, hagree'⟩ := ih hstop hstep env₂ σ₃ memory₂ hround₃ hrest
      refine ⟨σ', max N₁ N₂ + 1, fun fuel hfuel n hn => ?_, hagree'⟩
      obtain ⟨m, rfl⟩ : ∃ m, n = m + 1 := ⟨n - 1, by omega⟩
      refine Meaning.branch_eq_some.mpr (.inl ⟨memory, hcond, ?_⟩)
      refine Meaning.andThen_eq_some.mpr (.inl ⟨σ₂, memory₂, hlowered fuel (by omega), ?_⟩)
      exact Meaning.bind_eq_some.mpr ⟨σ₃, memory₂, hnext, hrounds fuel (by omega) m (by omega)⟩
    · obtain ⟨σ₂, N₁, hlowered, hagree⟩ :=
        hbody _ σ hround.agree_update trivial memory env' _ memory' hfirstRound
      refine ⟨σ₂, N₁ + 1, fun fuel hfuel n hn => ?_, hagree.mono (List.subset_cons_self _ _)⟩
      obtain ⟨m, rfl⟩ : ∃ m, n = m + 1 := ⟨n - 1, by omega⟩
      refine Meaning.branch_eq_some.mpr (.inl ⟨memory, hcond, ?_⟩)
      exact Meaning.andThen_eq_some.mpr (.inr ⟨value, rfl, hlowered fuel (by omega)⟩)

/-- The lowered loop goes through the range of its source. -/
theorem Followed.loop (hM : M.Counts) {P : Stack M.Value → Prop} {taken : List String}
    {line : Source.LineNumber} (hrange : lowerRange line iter = .ok bounds)
    (hsteady : ∀ e ∈ iter.bounds, e.Steady M) (hcounter : counter ∉ taken) (hknown : known ⊆ taken)
    (hnames : iter.names ⊆ known)
    (hassigned : ∀ x ∈ counter :: Source.namesOf iter.bounds, x ∉ Source.blockAssigned body)
    (hbody : Followed (fun _ => True) (counter :: known) (counter :: known)
      (Source.execBlock M Source.upward body)
      fun fuel => Target.inBlock M (Target.execBlock M fuel b)) :
    Followed P known known (Source.Stmt.exec M Source.upward (.loop line counter iter body []))
      fun fuel => Target.Stmt.exec M fuel (countingLoop counter bounds b) := by
  have hcounterKnown : counter ∉ known := fun hx => hcounter (hknown hx)
  have hrounds : Followed (TopIn taken) known known
      (Source.Stmt.exec M Source.upward (.loop line counter iter body [])) fun fuel =>
        Target.loopRounds M fuel ⟨counter, .int, some bounds.start⟩
          (.binary .lt (.identifier counter) bounds.stop)
          ⟨.add, .identifier counter, bounds.step⟩ (Target.execBlock M fuel b) := by
    intro env σ hagree htop memory env' ending memory' hrun
    obtain ⟨p, memory₁, hp, hrun⟩ := Meaning.bind_eq_some.mp hrun
    have hbounds := boundsEval_of_evalRange hM hrange hsteady hp
    obtain ⟨σ₁, hdeclare⟩ := htop.declare hcounter
    obtain ⟨σ₂, hassign⟩ := Stack.assign_isSome_of_declare (M.ofInteger p.start) hdeclare
    have hagree₁ := hagree.declare hcounterKnown hdeclare
    have hinit : Target.Declaration.exec M ⟨counter, .int, some bounds.start⟩ σ memory =
        some (σ₂, memory₁) := by
      refine Meaning.bind_eq_some.mpr ⟨σ₁, memory, Meaning.demand_eq_some.mpr ⟨hdeclare, rfl⟩, ?_⟩
      refine Meaning.bind_eq_some.mpr ⟨M.ofInteger p.start, memory₁,
        hbounds.start _ fun x hx => hagree₁.value?_eq (hnames hx),
        Meaning.demand_eq_some.mpr ⟨hassign, rfl⟩⟩
    have hagree₂ : Agree known env σ₂ := by
      intro x hx
      rw [Stack.value?_assign_of_ne hassign (ne_of_mem_of_not_mem hx hcounterKnown)]
      exact hagree₁ x hx
    by_cases hpositive : Source.upward p.step = true
    · rw [if_pos hpositive, andThen_execBlock_nil] at hrun
      obtain ⟨σ', N, hlowered, hagree'⟩ := rounds_followed hM hbody hassigned hcounterKnown
        (List.Subset.trans (Source.namesOf_bounds_subset iter) hnames) p
        (of_decide_eq_true hpositive) hbounds.stop hbounds.step env env' σ₂ ending memory₁ memory'
        ⟨hagree₂, Stack.value?_assign_self hassign, fun _ _ => rfl⟩ hrun
      exact ⟨σ', N, fun fuel hfuel => Meaning.bind_eq_some.mpr
        ⟨σ₂, memory₁, hinit, hlowered fuel hfuel fuel hfuel⟩, hagree'⟩
    · rw [if_neg hpositive] at hrun
      exact absurd hrun Meaning.stuck_ne_some
  exact hrounds.inBlock (fun fuel => Target.loopRounds_grows _ _ _ (Target.execBlock_grows b))
    (by simpa using hcounterKnown)

end Loops

theorem Followed.execElse {known : List String} {P : Stack M.Value → Prop}
    {steps : Int → Bool} {ss : List Source.Stmt} {ts : List Target.Stmt}
    (h : Followed P known known (Source.execBlock M steps ss)
      fun fuel => Target.inBlock M (Target.execBlock M fuel ts)) :
    Followed P known known (Source.execBlock M steps ss)
      fun fuel => Target.execElse M fuel (if ss = [] then none else some ts) := by
  cases ss with
  | nil =>
    intro env σ hagree _ memory env' ending memory' hrun
    cases Meaning.pure_eq_some.mp hrun
    exact ⟨σ, 0, fun _ _ => rfl, hagree⟩
  | cons s ss => exact h

/-- A lowered block follows its source in a scope of its own. -/
theorem Followed.scopedBlock {taken known : List String} {P : Stack M.Value → Prop}
    {returnType : Option Target.Ty} {steps : Int → Bool} {ss : List Source.Stmt}
    {ts : List Target.Stmt} (h : lowerBlock returnType ss = .ok ts)
    (hscoped : Source.blockIsScoped taken known ss = true) (hknown : known ⊆ taken)
    (hblock : Followed (TopIn taken) known known (Source.execBlock M steps ss)
      fun fuel => Target.execBlock M fuel ts) :
    Followed P known known (Source.execBlock M steps ss)
      fun fuel => Target.inBlock M (Target.execBlock M fuel ts) := by
  refine hblock.inBlock (fun fuel => Target.execBlock_grows ts) ?_
  rw [declares_lowerBlock h]
  exact List.disjoint_of_subset_right hknown (disjoint_declares_of_blockIsScoped hscoped)

theorem Followed.scopedLoop (hM : M.Counts) {taken known : List String} {P : Stack M.Value → Prop}
    {returnType : Option Target.Ty} {line : Source.LineNumber} {counter : String}
    {iter : Source.Expr} {body orelse : List Source.Stmt} {t : Target.Stmt}
    (hss : ∀ s ∈ body, ∀ t taken known, lowerStmt returnType s = .ok t →
      s.isScoped taken known = true → s.SteadyBounds M → known ⊆ taken →
        Followed (TopIn taken) known (s.initializes ++ known) (s.exec M Source.upward)
          fun fuel => t.exec M fuel)
    (h : lowerStmt returnType (.loop line counter iter body orelse) = .ok t)
    (hscoped : Source.Stmt.isScoped taken known (.loop line counter iter body orelse) = true)
    (hsteady : Source.Stmt.SteadyBounds M (.loop line counter iter body orelse))
    (hknown : known ⊆ taken) :
    Followed P known known (Source.Stmt.exec M Source.upward (.loop line counter iter body orelse))
      fun fuel => t.exec M fuel := by
  obtain ⟨rfl, bounds, hrange, b, hb, rfl⟩ := lowerStmt_loop_eq_ok.mp h
  rw [Source.Stmt.isScoped, Bool.and_eq_true, Bool.and_eq_true, Bool.and_eq_true,
    decide_eq_true_eq, all_mem_eq_true, List.all_eq_true] at hscoped
  obtain ⟨hcounter, hnames, hassigned, hbody⟩ := hscoped
  have hknown' : counter :: known ⊆ counter :: taken := List.cons_subset_cons counter hknown
  exact .loop hM hrange hsteady.1 hcounter hknown hnames
    (fun x hx => of_decide_eq_true (hassigned x hx))
    (.scopedBlock hb hbody hknown' (.execBlock hss hb hbody hsteady.2 hknown'))

/-- A statement that fits into block scopes is followed by what it is lowered to. -/
theorem Followed.exec (hM : M.Counts) {returnType : Option Target.Ty} (s : Source.Stmt)
    (t : Target.Stmt) (taken known : List String) (h : lowerStmt returnType s = .ok t)
    (hscoped : s.isScoped taken known = true) (hsteady : s.SteadyBounds M) (hknown : known ⊆ taken) :
    Followed (TopIn taken) known (s.initializes ++ known) (s.exec M Source.upward)
      fun fuel => t.exec M fuel := by
  induction s generalizing t taken known with
  | ret line value =>
    obtain ⟨v, hv, rfl⟩ := lowerStmt_ret_eq_ok.mp h
    rw [Source.Stmt.isScoped, all_mem_eq_true] at hscoped
    exact .ret hv hscoped
  | annotated line target hint value =>
    obtain ⟨ty, -, init, hinit, rfl⟩ := lowerStmt_annotated_eq_ok.mp h
    rw [Source.Stmt.isScoped, Bool.and_eq_true, decide_eq_true_eq, all_mem_eq_true] at hscoped
    exact .annotated hinit hscoped.1 hknown hscoped.2
  | augmented line target op value =>
    rw [Source.Stmt.isScoped, all_mem_eq_true, List.append_subset] at hscoped
    exact .augmented h hscoped.1 hscoped.2
  | assign line targets value => exact absurd h lowerStmt_assign_ne_ok
  | branch line test body orelse ihb iho =>
    obtain ⟨c, hc, b, hb, o, ho, rfl⟩ := lowerStmt_branch_eq_ok.mp h
    obtain ⟨ts, hts, rfl⟩ := lowerElse_eq_ok.mp ho
    rw [Source.Stmt.isScoped, Bool.and_eq_true, Bool.and_eq_true, all_mem_eq_true] at hscoped
    obtain ⟨htest, hbody, horelse⟩ := hscoped
    exact .branch hc htest
      (.scopedBlock hb hbody hknown (.execBlock ihb hb hbody hsteady.1 hknown))
      (.execElse (.scopedBlock hts horelse hknown (.execBlock iho hts horelse hsteady.2 hknown)))
  | loop line counter iter body orelse ihb iho =>
    exact .scopedLoop hM ihb h hscoped hsteady hknown
  | unsupported line construct => exact absurd h lowerStmt_unsupported_ne_ok

/-- The variables that have a value, apart from one. -/
def Stack.valuedExcept (x : String) (σ : Stack M.Value) : List String :=
  σ.names.flatten.filter fun y => y ≠ x ∧ (σ.value? y).isSome

theorem Stack.mem_valuedExcept {x y : String} {σ : Stack M.Value} :
    y ∈ σ.valuedExcept x ↔ y ≠ x ∧ (σ.value? y).isSome = true := by
  rw [valuedExcept, List.mem_filter, decide_eq_true_eq, and_iff_right_iff_imp]
  rintro ⟨-, hy⟩
  obtain ⟨v, hv⟩ := Option.isSome_iff_exists.mp hy
  obtain ⟨scope, hscope, hmem⟩ := mem_names_of_value? hv
  exact List.mem_flatten.mpr ⟨scope.names, List.mem_map_of_mem hscope, hmem⟩

/-- If the source ends, so does what it is lowered to, with the same ending and the same memory, and
with the same value of every variable but the counter. -/
def LoopKept (M : Meaning) (counter : String) (s : Source.Stmt) (t : Target.Stmt)
    (σ : Stack M.Value) (memory : M.Memory) : Prop :=
  ∀ env' ending memory',
    s.exec M Source.anyStep σ.value? memory = some ((env', ending), memory') →
      ∃ fuel σ', t.exec M fuel σ memory = some ((σ', ending), memory') ∧
        ∀ x ≠ counter, (σ.value? x).isSome = true → σ'.value? x = env' x

/-- A loop over a range keeps its meaning over unbounded integers if its body assigns neither the
counter nor a variable of its bounds, and so for the loops inside, names are declared once and read
where they have a value, the bounds do not depend on the memory, and all ranges count up. -/
theorem countingLoop_kept (O : Outside) {returnType : Option Target.Ty} {line : Source.LineNumber}
    {counter : String} {iter : Source.Expr} {body orelse : List Source.Stmt} {t : Target.Stmt}
    (hlower : lowerStmt returnType (.loop line counter iter body orelse) = .ok t)
    (σ : Stack O.integers.Value) (memory : O.Memory)
    (hscoped : Source.Stmt.isScoped (σ.valuedExcept counter) (σ.valuedExcept counter)
      (.loop line counter iter body orelse) = true)
    (hsteady : Source.Stmt.SteadyBounds O.integers (.loop line counter iter body orelse))
    (hupward : (Source.Stmt.exec O.integers Source.upward (.loop line counter iter body orelse)
      σ.value? memory).isSome = true) :
    LoopKept O.integers counter (.loop line counter iter body orelse) t σ memory := by
  intro env' ending memory' hrun
  obtain ⟨r, hr⟩ := Option.isSome_iff_exists.mp hupward
  have hstep : ∀ n, Source.upward n = true → Source.anyStep n = true := by
    intro n hn
    exact decide_eq_true (ne_of_gt (of_decide_eq_true hn))
  have hsame := Source.Stmt.exec_refines hstep _ _ _ _ hr
  rw [hrun] at hsame
  cases hsame
  have hagree : Agree (σ.valuedExcept counter) σ.value? σ := by
    intro x hx
    obtain ⟨v, hv⟩ := Option.isSome_iff_exists.mp (Stack.mem_valuedExcept.mp hx).2
    exact ⟨v, hv, hv⟩
  have hfollowed : Followed (fun _ => True) (σ.valuedExcept counter) (σ.valuedExcept counter)
      (Source.Stmt.exec O.integers Source.upward (.loop line counter iter body orelse))
      fun fuel => t.exec O.integers fuel :=
    .scopedLoop O.integers_counts (fun s _ => Followed.exec O.integers_counts s) hlower hscoped
      hsteady (List.Subset.refl _)
  obtain ⟨σ', N, hlowered, hagree'⟩ := hfollowed _ σ hagree trivial memory env' ending memory' hr
  refine ⟨N, σ', hlowered N le_rfl, fun x hne hx => ?_⟩
  exact hagree'.value?_eq (Stack.mem_valuedExcept.mpr ⟨hne, hx⟩)

/-! ## Loops that show what is needed -/

namespace Source

def rangeLoop (counter : String) (args : List Expr) (body : List Stmt) : Stmt :=
  .loop 1 counter (.call 1 "range" args) body []

def addTo (x : String) (value : Expr) : Stmt := .augmented 1 (.name 1 x) .add value

end Source

open Source (rangeLoop addTo)

theorem Source.Expr.steady_name (M : Meaning) (line : Source.LineNumber) (x : String) :
    (Source.Expr.name line x).Steady M := by
  intro env memory v memory' h memory₂
  rw [Source.Expr.eval] at h ⊢
  exact Meaning.demand_eq_some.mpr ⟨(Meaning.demand_eq_some.mp h).1, rfl⟩

theorem Source.Expr.steady_int (O : Outside) (n : Int64) : (Source.Expr.int n).Steady O.integers := by
  intro env memory v memory' h memory₂
  cases Meaning.pure_eq_some.mp h
  rfl

/-- A loop with a declaration, an inner loop that writes elements, and a return. -/
def nestedLoop : Source.Stmt :=
  rangeLoop "i" [.int 1, .name 1 "n", .int 2] [
    .annotated 2 "y" (.name "int") (some (.binary 2 .mult (.name 2 "i") (.int 2))),
    rangeLoop "j" [.name 3 "y"] [
      .augmented 4 (.subscript 4 (.name 4 "a") (.name 4 "j")) .add (.name 4 "i"),
      addTo "x" (.name 5 "j")],
    .branch 6 (.name 6 "x") [] [.ret 7 (some (.name 7 "y"))]]

def nestedStore : Stack Int := [[("x", some (-16)), ("n", some 4), ("a", some 0)]]

theorem countingLoop_kept_nested :
    ∃ t, lowerStmt none nestedLoop = .ok t ∧
      (nestedLoop.exec Outside.array.integers Source.anyStep nestedStore.value? [0, 0, 0, 0, 0, 0]).map
        (fun r => (r.1.1 "x", r.1.2, r.2)) =
          some (some (0 : Int), .returned (some (6 : Int)), [4, 4, 3, 3, 3, 3]) ∧
      LoopKept Outside.array.integers "i" nestedLoop t nestedStore [0, 0, 0, 0, 0, 0] := by
  obtain ⟨t, ht⟩ : ∃ t, lowerStmt none nestedLoop = .ok t := ⟨_, rfl⟩
  refine ⟨t, ht, rfl, countingLoop_kept Outside.array ht _ _ (by decide) ?_ rfl⟩
  refine ⟨?_, trivial, ⟨?_, trivial, trivial, trivial⟩, ⟨trivial, trivial, trivial⟩, trivial⟩
  · simp [Source.Expr.bounds, Source.Expr.steady_name, Source.Expr.steady_int]
  · simp [Source.Expr.bounds, Source.Expr.steady_name]

/-- The lowered loop does not keep the meaning of its source. -/
def Unkept (counter : String) (s : Source.Stmt) (σ : Stack Int) (memory : List Int) : Prop :=
  ∃ t, lowerStmt none s = .ok t ∧ ¬ LoopKept Outside.array.integers counter s t σ memory

/-- A loop loses its meaning if it leaves another value in a variable. -/
theorem unkept_of_value {counter : String} {s : Source.Stmt} {t : Target.Stmt} {σ : Stack Int}
    {memory : List Int} (x : String) (a b : Int) (hlower : lowerStmt none s = .ok t)
    (hx : x ≠ counter) (hvalue : (σ.value? x).isSome = true)
    (hsource : (s.exec Outside.array.integers Source.anyStep σ.value? memory).map (·.1.1 x) =
      some (some a))
    (hlowered : (t.exec Outside.array.integers 8 σ memory).map (·.1.1.value? x) = some (some b))
    (hab : b ≠ a) : Unkept counter s σ memory := by
  refine ⟨t, hlower, fun hkept => hab ?_⟩
  obtain ⟨⟨⟨env', ending⟩, memory'⟩, hsource, ha⟩ := Option.map_eq_some_iff.mp hsource
  obtain ⟨r, hlowered, hb⟩ := Option.map_eq_some_iff.mp hlowered
  obtain ⟨fuel, σ', hlowered', hsame⟩ := hkept _ _ _ hsource
  cases Target.Stmt.exec_unique hlowered hlowered'
  exact Option.some.inj ((hb.symm.trans (hsame x hx hvalue)).trans ha)

/-- A loop loses its meaning if it never comes to an end. -/
theorem unkept_of_stuck {counter : String} {s : Source.Stmt} {t : Target.Stmt} {σ : Stack Int}
    {memory : List Int} (hlower : lowerStmt none s = .ok t)
    (hsource : (s.exec Outside.array.integers Source.anyStep σ.value? memory).isSome = true)
    (hlowered : ∀ fuel, t.exec Outside.array.integers fuel σ memory = none) :
    Unkept counter s σ memory := by
  refine ⟨t, hlower, fun hkept => ?_⟩
  obtain ⟨⟨⟨env', ending⟩, memory'⟩, hsource⟩ := Option.isSome_iff_exists.mp hsource
  obtain ⟨fuel, σ', hlowered', -⟩ := hkept _ _ _ hsource
  rw [hlowered fuel] at hlowered'
  cases hlowered'

/-- None of the conditions can be left out: each of these loops breaks one of them. -/
theorem countingLoops_unkept :
    -- the body assigns the counter
    Unkept "i" (rangeLoop "i" [.int 3] [addTo "i" (.int 1), addTo "x" (.int 1)])
      [[("x", some 0)]] [] ∧
    -- the body assigns a variable of the stop
    Unkept "i" (rangeLoop "i" [.name 1 "n"] [addTo "n" (.int (-1)), addTo "x" (.int 1)])
      [[("x", some 0), ("n", some 3)]] [] ∧
    -- the stop reads the variable that the counter hides
    Unkept "i" (rangeLoop "i" [.binary 1 .sub (.int 3) (.name 1 "i")] [addTo "x" (.int 1)])
      [[("x", some 0), ("i", some 0)]] [] ∧
    -- a declaration hides a variable
    Unkept "i" (rangeLoop "i" [.int 1] [.annotated 1 "x" (.name "int") (some (.int 5))])
      [[("x", some 0)]] [] ∧
    -- a variable is read outside the block that declares it
    Unkept "i" (rangeLoop "i" [.int 1] [
        .branch 1 (.int 1) [.annotated 1 "y" (.name "int") (some (.int 5))] [],
        addTo "x" (.name 1 "y")])
      [[("x", some 0)]] [] ∧
    -- the counter of an inner loop hides a variable
    Unkept "i" (rangeLoop "i" [.int 1] [rangeLoop "x" [.int 3] []]) [[("x", some 0)]] [] ∧
    -- an inner range counts down
    Unkept "i" (rangeLoop "i" [.int 1] [
        rangeLoop "j" [.int 3, .int 0, .name 1 "d"] [addTo "x" (.int 1)]])
      [[("x", some 0), ("d", some (-1))]] [] ∧
    -- the stop is an element that the body changes
    Unkept "i" (rangeLoop "i" [.subscript 1 (.name 1 "a") (.int 0)] [
        .augmented 1 (.subscript 1 (.name 1 "a") (.int 0)) .sub (.int 1), addTo "x" (.int 1)])
      [[("x", some 0), ("a", some 0)]] [3] := by
  refine ⟨?_, ?_, ?_, ?_, ?_, ?_, ?_, ?_⟩
  · exact unkept_of_value "x" 3 2 rfl (by decide) rfl rfl rfl (by decide)
  · exact unkept_of_value "x" 3 2 rfl (by decide) rfl rfl rfl (by decide)
  · exact unkept_of_value "x" 3 2 rfl (by decide) rfl rfl rfl (by decide)
  · exact unkept_of_value "x" 5 0 rfl (by decide) rfl rfl rfl (by decide)
  · refine unkept_of_stuck rfl rfl fun fuel => ?_
    cases fuel <;> rfl
  · exact unkept_of_value "x" 2 0 rfl (by decide) rfl rfl rfl (by decide)
  · exact unkept_of_value "x" 3 0 rfl (by decide) rfl rfl rfl (by decide)
  · exact unkept_of_value "x" 3 2 rfl (by decide) rfl rfl rfl (by decide)

end AnnotatedToC
