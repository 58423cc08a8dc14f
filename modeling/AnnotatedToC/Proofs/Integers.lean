import AnnotatedToC.Proofs.Variables

/-!
# Unbounded integers

The meaning in which every value is an integer. Sums, differences, products and comparisons are those of
the integers, and whatever arithmetic does not settle is left to an `Outside`. Ranges are evaluated in
it: the source computes the arguments once, the lowered loop computes the stop and the step again in each
round.
-/
namespace AnnotatedToC

/-- What integer arithmetic leaves open: calls, elements, tuples, and the other literals and operators. -/
structure Outside where
  Memory : Type
  literal : Source.Literal → StateT Memory Option Int
  operator : Source.Operator → Int → Int → StateT Memory Option Int
  call : String → List Int → StateT Memory Option Int
  element : Int → Int → StateT Memory Option Int
  setElement : Int → Int → Int → StateT Memory Option Unit
  tuple : List Int → StateT Memory Option Int

namespace Outside

variable (O : Outside)

/-- Truth values are 1 and 0, and all but 0 is true. -/
def integers : Meaning where
  Value := Int
  Memory := O.Memory
  literal
    | .int n => return n.toInt
    | .bool b => return b.toInt
    | l => O.literal l
  operator
    | .add, a, b => return a + b
    | .sub, a, b => return a - b
    | .mult, a, b => return a * b
    | op, a, b => O.operator op a b
  less a b := return (decide (a < b)).toInt
  call := O.call
  element := O.element
  setElement := O.setElement
  tuple := O.tuple
  truth v := return v ≠ 0
  integer? := some
  ofInteger := id

/-- The memory is one array of integers, and there is nothing else outside. -/
def array : Outside where
  Memory := List Int
  literal _ _ := none
  operator _ _ _ _ := none
  call _ _ _ := none
  element _ i memory := memory[i.toNat]?.map (·, memory)
  setElement _ i v memory :=
    if i.toNat < memory.length then some ((), memory.set i.toNat v) else none
  tuple _ _ := none

end Outside

/-- Integers are counted and compared without bounds. -/
structure Meaning.Counts (M : Meaning) : Prop where
  ofInteger_of_integer? : ∀ v n, M.integer? v = some n → v = M.ofInteger n
  literal : ∀ n memory, M.literal (.int n) memory = some (M.ofInteger n.toInt, memory)
  add : ∀ m n memory, M.operator .add (M.ofInteger m) (M.ofInteger n) memory =
    some (M.ofInteger (m + n), memory)
  less : ∀ m n memory, (M.less (M.ofInteger m) (M.ofInteger n) >>= M.truth) memory =
    some (decide (m < n), memory)

theorem Outside.integers_counts (O : Outside) : O.integers.Counts where
  ofInteger_of_integer? v n h := Option.some.inj h
  literal n memory := rfl
  add m n memory := rfl
  less m n memory := by
    refine Meaning.bind_eq_some.mpr ⟨(decide (m < n)).toInt, memory, rfl, ?_⟩
    by_cases h : m < n
    · simp only [integers, h, decide_true]
      rfl
    · simp only [integers, h, decide_false]
      rfl

/-! ## Ranges -/

namespace Source

def Expr.int (n : Int64) : Expr := .constant 1 (.int n)

/-- The arguments that bound a range: its stop and its step. -/
def Expr.bounds : Expr → List Expr
  | .call _ _ [stop] => [stop]
  | .call _ _ [_, stop] => [stop]
  | .call _ _ [_, stop, step] => [stop, step]
  | _ => []

theorem namesOf_bounds_subset (iter : Expr) : namesOf iter.bounds ⊆ iter.names := by
  rw [Expr.bounds.eq_def]
  split
  · exact List.Subset.refl _
  · exact List.subset_append_right _ _
  · exact List.subset_append_right _ _
  · exact List.nil_subset _

/-- An expression is steady if it leaves the memory alone and its value does not depend on it. -/
def Expr.Steady (M : Meaning) (e : Expr) : Prop :=
  ∀ env memory v memory', e.eval M env memory = some (v, memory') →
    ∀ memory₂, e.eval M env memory₂ = some (v, memory₂)

end Source

section Bounds

variable {M : Meaning} {env : M.Env} {memory memory₁ : M.Memory}

/-- A lowered expression has the value of its source wherever its variables have theirs. -/
theorem eval_lowered_congr {e : Source.Expr} {t : Target.Expr} (ht : lowerExpr none e = .ok t)
    {v : M.Value} (h : e.eval M env memory = some (v, memory₁)) {env₂ : M.Env}
    (henv : ∀ x ∈ e.names, env₂ x = env x) :
    t.eval M env₂ memory = some (v, memory₁) := by
  rw [eval_lowerExpr _ env₂ e none t ht, eval_congr _ e henv, h]

/-- A steady expression keeps its value at any time. -/
theorem Source.Expr.Steady.eval_eq {e : Source.Expr} (hsteady : e.Steady M) {t : Target.Expr}
    (ht : lowerExpr none e = .ok t) {v : M.Value}
    (h : e.eval M env memory = some (v, memory₁)) {env₂ : M.Env}
    (henv : ∀ x ∈ e.names, env₂ x = env x) (memory₂ : M.Memory) :
    t.eval M env₂ memory₂ = some (v, memory₂) :=
  eval_lowered_congr ht (hsteady env memory v memory₁ h memory₂) henv

/-- A steady expression has no effect. -/
theorem Source.Expr.Steady.memory_eq {e : Source.Expr} (hsteady : e.Steady M) {v : M.Value}
    (h : e.eval M env memory = some (v, memory₁)) : memory₁ = memory := by
  have hsame := hsteady env memory v memory₁ h memory
  rw [h] at hsame
  exact congrArg Prod.snd (Option.some.inj hsame)

/-- The bounds of a loop as they are evaluated: the start once, on entry, and the others at any time, as
long as the variables keep their values. -/
structure BoundsEval (iter : Source.Expr) (bounds : RangeBounds) (env : M.Env)
    (memory memory₁ : M.Memory) (p : Progression) : Prop where
  start : ∀ env₂ : M.Env, (∀ x ∈ iter.names, env₂ x = env x) →
    bounds.start.eval M env₂ memory = some (M.ofInteger p.start, memory₁)
  stop : ∀ env₂ : M.Env, (∀ x ∈ Source.namesOf iter.bounds, env₂ x = env x) →
    ∀ memory₂, bounds.stop.eval M env₂ memory₂ = some (M.ofInteger p.stop, memory₂)
  step : ∀ env₂ : M.Env, (∀ x ∈ Source.namesOf iter.bounds, env₂ x = env x) →
    ∀ memory₂, bounds.step.eval M env₂ memory₂ = some (M.ofInteger p.step, memory₂)

theorem Meaning.evals_cons_eq_some {e : Source.Expr}
    {es : List Source.Expr} {vs : List M.Value} {memory' : M.Memory} :
    Source.evals M env (e :: es) memory = some (vs, memory') ↔
      ∃ v memory₁, e.eval M env memory = some (v, memory₁) ∧
        ∃ ws, Source.evals M env es memory₁ = some (ws, memory') ∧ vs = v :: ws := by
  simp only [Source.evals, bind_eq_some, pure_eq_some, Prod.mk.injEq]
  constructor
  · rintro ⟨v, memory₁, hv, ws, memory₂, hws, rfl, rfl⟩
    exact ⟨v, memory₁, hv, ws, hws, rfl⟩
  · rintro ⟨v, memory₁, hv, ws, hws, rfl⟩
    exact ⟨v, memory₁, hv, ws, memory', hws, rfl, rfl⟩

theorem Meaning.evals_nil_eq_some {vs : List M.Value} {memory' : M.Memory} :
    Source.evals M env [] memory = some (vs, memory') ↔ vs = [] ∧ memory' = memory := by
  rw [Source.evals, pure_eq_some, Prod.mk.injEq]

/-- The range that the source computes is the one that the lowered bounds give. -/
theorem boundsEval_of_evalRange (hM : M.Counts) {line : Source.LineNumber} {iter : Source.Expr}
    {bounds : RangeBounds} (h : lowerRange line iter = .ok bounds)
    (hsteady : ∀ e ∈ iter.bounds, e.Steady M) {p : Progression}
    (hrange : iter.evalRange M env memory = some (p, memory₁)) :
    BoundsEval iter bounds env memory memory₁ p := by
  obtain ⟨l, args, range, rfl, hargs, -, -, hstart, hstop, hstep⟩ := lowerRange_eq_ok.mp h
  obtain ⟨start', stop', step'⟩ := bounds
  rw [Source.Expr.evalRange, if_pos rfl] at hrange
  obtain ⟨vs, memory₂, hvs, hdemand⟩ := Meaning.bind_eq_some.mp hrange
  obtain ⟨hp, rfl⟩ := Meaning.demand_eq_some.mp hdemand
  match args, hargs with
  | [stop], rfl =>
    obtain ⟨s, m₁, hs, ws, hnil, rfl⟩ := Meaning.evals_cons_eq_some.mp hvs
    obtain ⟨rfl, rfl⟩ := Meaning.evals_nil_eq_some.mp hnil
    obtain ⟨n, hn, rfl⟩ : ∃ n, M.integer? s = some n ∧ ⟨0, n, 1⟩ = p := by
      simpa [Source.progression?, Option.bind_eq_some_iff] using hp
    obtain rfl := hM.ofInteger_of_integer? s n hn
    cases hstart
    cases hstep
    have hsteadyStop := hsteady stop (by simp [Source.Expr.bounds])
    obtain rfl := hsteadyStop.memory_eq hs
    refine ⟨fun _ _ => hM.literal 0 _,
      fun env₂ henv => hsteadyStop.eval_eq hstop hs fun x hx => henv x ?_,
      fun _ _ _ => hM.literal 1 _⟩
    simpa [Source.Expr.bounds, Source.namesOf] using hx
  | [start, stop], rfl =>
    obtain ⟨a, m₁, ha, ws, hrest, rfl⟩ := Meaning.evals_cons_eq_some.mp hvs
    obtain ⟨s, m₂, hs, us, hnil, rfl⟩ := Meaning.evals_cons_eq_some.mp hrest
    obtain ⟨rfl, rfl⟩ := Meaning.evals_nil_eq_some.mp hnil
    obtain ⟨k, hk, n, hn, rfl⟩ : ∃ k, M.integer? a = some k ∧ ∃ n, M.integer? s = some n ∧
        ⟨k, n, 1⟩ = p := by
      simpa [Source.progression?, Option.bind_eq_some_iff] using hp
    obtain rfl := hM.ofInteger_of_integer? a k hk
    obtain rfl := hM.ofInteger_of_integer? s n hn
    cases hstep
    have hsteadyStop := hsteady stop (by simp [Source.Expr.bounds])
    obtain rfl := hsteadyStop.memory_eq hs
    refine ⟨fun env₂ henv => eval_lowered_congr hstart ha fun x hx => henv x ?_,
      fun env₂ henv => hsteadyStop.eval_eq hstop hs fun x hx => henv x ?_,
      fun _ _ _ => hM.literal 1 _⟩
    · simp [Source.Expr.names, Source.namesOf, hx]
    · simpa [Source.Expr.bounds, Source.namesOf] using hx
  | [start, stop, step], rfl =>
    obtain ⟨a, m₁, ha, ws, hrest, rfl⟩ := Meaning.evals_cons_eq_some.mp hvs
    obtain ⟨s, m₂, hs, us, hlast, rfl⟩ := Meaning.evals_cons_eq_some.mp hrest
    obtain ⟨d, m₃, hd, rs, hnil, rfl⟩ := Meaning.evals_cons_eq_some.mp hlast
    obtain ⟨rfl, rfl⟩ := Meaning.evals_nil_eq_some.mp hnil
    obtain ⟨k, hk, n, hn, i, hi, rfl⟩ : ∃ k, M.integer? a = some k ∧ ∃ n, M.integer? s = some n ∧
        ∃ i, M.integer? d = some i ∧ ⟨k, n, i⟩ = p := by
      simpa [Source.progression?, Option.bind_eq_some_iff] using hp
    obtain rfl := hM.ofInteger_of_integer? a k hk
    obtain rfl := hM.ofInteger_of_integer? s n hn
    obtain rfl := hM.ofInteger_of_integer? d i hi
    have hsteadyStop := hsteady stop (by simp [Source.Expr.bounds])
    have hsteadyStep := hsteady step (by simp [Source.Expr.bounds])
    obtain rfl := hsteadyStop.memory_eq hs
    obtain rfl := hsteadyStep.memory_eq hd
    refine ⟨fun env₂ henv => eval_lowered_congr hstart ha fun x hx => henv x ?_,
      fun env₂ henv => hsteadyStop.eval_eq hstop hs fun x hx => henv x ?_,
      fun env₂ henv => hsteadyStep.eval_eq hstep hd fun x hx => henv x ?_⟩
    · simp [Source.Expr.names, Source.namesOf, hx]
    · simp [Source.Expr.bounds, Source.namesOf, hx]
    · simp [Source.Expr.bounds, Source.namesOf, hx]

end Bounds

end AnnotatedToC
