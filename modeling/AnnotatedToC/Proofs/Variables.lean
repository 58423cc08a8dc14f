import AnnotatedToC.Proofs.Execution

/-!
# Variables read and assigned

An expression depends on the variables that it names, and a statement changes no others than those it
assigns: by a declaration, an update, a plain assignment or as the counter of a loop.
-/
namespace AnnotatedToC

namespace Source

mutual

/-- The variables that an expression names. -/
def Expr.names : Expr → List String
  | .constant _ _ => []
  | .name _ id => [id]
  | .binary _ _ left right => left.names ++ right.names
  | .subscript _ value index => value.names ++ index.names
  | .call _ _ args => namesOf args
  | .conditional _ test body orelse => test.names ++ (body.names ++ orelse.names)
  | .tuple _ elements => namesOf elements
  | .unsupported _ _ => []

def namesOf : List Expr → List String
  | [] => []
  | e :: es => e.names ++ namesOf es

end

def valueNames : Option Expr → List String
  | none => []
  | some e => e.names

mutual

/-- The variables that a statement may change, at any depth. -/
def Stmt.assigned : Stmt → List String
  | .annotated _ target _ _ => [target]
  | .augmented _ target _ _ =>
    match target with
    | .name _ x => [x]
    | _ => []
  | .assign _ targets _ => targets
  | .branch _ _ body orelse => blockAssigned body ++ blockAssigned orelse
  | .loop _ counter _ body orelse => counter :: (blockAssigned body ++ blockAssigned orelse)
  | .ret _ _ | .unsupported _ _ => []

def blockAssigned : List Stmt → List String
  | [] => []
  | s :: ss => s.assigned ++ blockAssigned ss

end

end Source

variable (M : Meaning)

theorem evals_congr {env env' : M.Env} {es : List Source.Expr}
    (hes : ∀ e ∈ es, (∀ x ∈ e.names, env x = env' x) → e.eval M env = e.eval M env')
    (h : ∀ x ∈ Source.namesOf es, env x = env' x) :
    Source.evals M env es = Source.evals M env' es := by
  induction es with
  | nil => rfl
  | cons e es ih =>
    rw [List.forall_mem_cons] at hes
    rw [Source.namesOf, List.forall_mem_append] at h
    rw [Source.evals, Source.evals, hes.1 h.1, ih hes.2 h.2]

/-- An expression means the same wherever the variables that it names are the same. -/
theorem eval_congr {env env' : M.Env} (e : Source.Expr) (h : ∀ x ∈ e.names, env x = env' x) :
    e.eval M env = e.eval M env' := by
  induction e with
  | constant line value => rfl
  | name line id => rw [Source.Expr.eval, Source.Expr.eval, h id (by simp [Source.Expr.names])]
  | binary line op left right ihl ihr =>
    rw [Source.Expr.names, List.forall_mem_append] at h
    rw [Source.Expr.eval, Source.Expr.eval, ihl h.1, ihr h.2]
  | subscript line value index ihv ihi =>
    rw [Source.Expr.names, List.forall_mem_append] at h
    rw [Source.Expr.eval, Source.Expr.eval, ihv h.1, ihi h.2]
  | call line func args ih =>
    rw [Source.Expr.names] at h
    rw [Source.Expr.eval, Source.Expr.eval, evals_congr M ih h]
  | conditional line test body orelse iht ihb iho =>
    rw [Source.Expr.names, List.forall_mem_append, List.forall_mem_append] at h
    rw [Source.Expr.eval, Source.Expr.eval, iht h.1, ihb h.2.1, iho h.2.2]
  | tuple line elements ih =>
    rw [Source.Expr.names] at h
    rw [Source.Expr.eval, Source.Expr.eval, evals_congr M ih h]
  | unsupported line construct => rfl

theorem evalReturn_congr {env env' : M.Env} {value : Option Source.Expr}
    (h : ∀ x ∈ Source.valueNames value, env x = env' x) :
    Source.evalReturn M env value = Source.evalReturn M env' value := by
  rw [Source.evalReturn.eq_def, Source.evalReturn.eq_def]
  split
  · rfl
  · rfl
  · rw [eval_congr M _ h]

section Frame

variable {M} {steps : Int → Bool}

/-- The computation leaves every variable as it is that is not among the given ones. -/
def Frames (assigned : List String) (source : M.Env → M.Effect (M.Env × Ending M.Value)) : Prop :=
  ∀ env memory env' ending memory', source env memory = some ((env', ending), memory') →
    ∀ x, x ∉ assigned → env' x = env x

theorem Frames.mono {a b : List String} {source : M.Env → M.Effect (M.Env × Ending M.Value)}
    (h : Frames a source) (hab : a ⊆ b) : Frames b source := by
  intro env memory env' ending memory' hrun x hx
  exact h env memory env' ending memory' hrun x (fun ha => hx (hab ha))

theorem Frames.andThen {a : List String}
    {source₁ source₂ : M.Env → M.Effect (M.Env × Ending M.Value)} (h₁ : Frames a source₁)
    (h₂ : Frames a source₂) : Frames a (fun env => Meaning.andThen (source₁ env) source₂) := by
  intro env memory env' ending memory' hrun x hx
  rcases Meaning.andThen_eq_some.mp hrun with ⟨env₁, memory₁, hfirst, hrest⟩ | ⟨value, -, hfirst⟩
  · rw [h₂ _ _ _ _ _ hrest x hx, h₁ _ _ _ _ _ hfirst x hx]
  · exact h₁ _ _ _ _ _ hfirst x hx

theorem Frames.forEach {counter : String} {a : List String} (hcounter : counter ∈ a)
    {body : M.Env → M.Effect (M.Env × Ending M.Value)} (hbody : Frames a body) (ns : List Int) :
    Frames a (Source.forEach M counter body ns) := by
  induction ns with
  | nil =>
    intro env memory env' ending memory' hrun x hx
    cases Meaning.pure_eq_some.mp hrun
    rfl
  | cons n ns ih =>
    refine .andThen ?_ ih
    intro env memory env' ending memory' hrun x hx
    have hne : x ≠ counter := fun he => hx (he ▸ hcounter)
    rw [hbody _ _ _ _ _ hrun x hx, Function.update_of_ne hne]

theorem Frames.execBlock {ss : List Source.Stmt}
    (hss : ∀ s ∈ ss, Frames s.assigned (s.exec M steps)) :
    Frames (Source.blockAssigned ss) (Source.execBlock M steps ss) := by
  induction ss with
  | nil =>
    intro env memory env' ending memory' hrun x hx
    cases Meaning.pure_eq_some.mp hrun
    rfl
  | cons s ss ih =>
    rw [List.forall_mem_cons] at hss
    exact .andThen (hss.1.mono (List.subset_append_left _ _))
      ((ih hss.2).mono (List.subset_append_right _ _))

theorem foldl_update_of_notMem {x : String} {v : M.Value} {targets : List String}
    (hx : x ∉ targets) (env : M.Env) :
    targets.foldl (fun env target => Function.update env target (some v)) env x = env x := by
  induction targets generalizing env with
  | nil => rfl
  | cons y targets ih =>
    rw [List.mem_cons, not_or] at hx
    rw [List.foldl_cons, ih hx.2, Function.update_of_ne hx.1]

theorem augment_frame {op : Source.Operator} {target value : Source.Expr} {env env' : M.Env}
    {memory memory' : M.Memory} (line : Source.LineNumber)
    (h : Source.augment M env op value target memory = some (env', memory')) {x : String}
    (hx : x ∉ Source.Stmt.assigned (.augmented line target op value)) : env' x = env x := by
  cases target with
  | name l y =>
    obtain ⟨new, memory₁, -, h⟩ := Meaning.bind_eq_some.mp h
    cases Meaning.pure_eq_some.mp h
    rw [Function.update_of_ne (by simpa [Source.Stmt.assigned] using hx)]
  | subscript l base index =>
    obtain ⟨_, memory₁, -, h⟩ := Meaning.bind_eq_some.mp h
    cases Meaning.pure_eq_some.mp h
    rfl
  | _ => simp [Source.augment, Meaning.stuck] at h

/-- A statement changes no variables but those it assigns. -/
theorem Frames.exec (s : Source.Stmt) : Frames s.assigned (s.exec M steps) := by
  induction s with
  | ret line value =>
    intro env memory env' ending memory' hrun x hx
    obtain ⟨v, memory₁, -, hrun⟩ := Meaning.bind_eq_some.mp hrun
    cases Meaning.pure_eq_some.mp hrun
    rfl
  | annotated line target hint value =>
    intro env memory env' ending memory' hrun x hx
    cases value with
    | none =>
      cases Meaning.pure_eq_some.mp hrun
      rfl
    | some e =>
      obtain ⟨v, memory₁, -, hrun⟩ := Meaning.bind_eq_some.mp hrun
      cases Meaning.pure_eq_some.mp hrun
      rw [Function.update_of_ne (by simpa [Source.Stmt.assigned] using hx)]
  | augmented line target op value =>
    intro env memory env' ending memory' hrun x hx
    obtain ⟨env₁, memory₁, haugment, hrun⟩ := Meaning.bind_eq_some.mp hrun
    cases Meaning.pure_eq_some.mp hrun
    exact augment_frame line haugment hx
  | assign line targets value =>
    intro env memory env' ending memory' hrun x hx
    obtain ⟨v, memory₁, -, hrun⟩ := Meaning.bind_eq_some.mp hrun
    cases Meaning.pure_eq_some.mp hrun
    exact foldl_update_of_notMem hx env
  | branch line test body orelse ihb iho =>
    intro env memory env' ending memory' hrun x hx
    rw [Source.Stmt.assigned, List.mem_append, not_or] at hx
    rw [Source.Stmt.exec, Meaning.branch_eq_some] at hrun
    rcases hrun with ⟨memory₁, -, hrun⟩ | ⟨memory₁, -, hrun⟩
    · exact Frames.execBlock ihb _ _ _ _ _ hrun x hx.1
    · exact Frames.execBlock iho _ _ _ _ _ hrun x hx.2
  | loop line counter iter body orelse ihb iho =>
    intro env memory env' ending memory' hrun x hx
    obtain ⟨range, memory₁, -, hrun⟩ := Meaning.bind_eq_some.mp hrun
    have hbody : Frames (Source.Stmt.assigned (.loop line counter iter body orelse))
        (Source.execBlock M steps body) := (Frames.execBlock ihb).mono (by
      intro y hy
      simp [Source.Stmt.assigned, hy])
    have horelse : Frames (Source.Stmt.assigned (.loop line counter iter body orelse))
        (Source.execBlock M steps orelse) := (Frames.execBlock iho).mono (by
      intro y hy
      simp [Source.Stmt.assigned, hy])
    split_ifs at hrun
    · exact Frames.andThen (.forEach (by simp [Source.Stmt.assigned]) hbody range.elements) horelse
        _ _ _ _ _ hrun x hx
    · exact absurd hrun Meaning.stuck_ne_some
  | unsupported line construct =>
    intro env memory env' ending memory' hrun
    rw [Source.Stmt.exec] at hrun
    exact absurd hrun Meaning.stuck_ne_some

end Frame

end AnnotatedToC
