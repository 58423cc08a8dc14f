import AnnotatedToC.Proofs.Integers
import AnnotatedToC.Proofs.Subset

/-!
# Lowered ranges

What counting through lowered bounds visits. With unbounded integers it is the range of the source. A
counter of 32 bits visits the same as long as its last value, which is not in the range any more, can be
represented too.
-/
namespace AnnotatedToC

open Source (LineNumber)

/-- The integer literals, each with its line. -/
def intLiterals (ns : List (LineNumber × Int64)) : List Source.Expr :=
  ns.map fun n => .constant n.1 (.int n.2)

def literalValues (ns : List (LineNumber × Int64)) : List Int := ns.map fun n => n.2.toInt

namespace RangeBounds

variable (M : Meaning) (bounds : RangeBounds) (env : M.Env)

/-- The values of a counter that goes up from the given one, in as many rounds as the fuel allows. The
stop and the step are computed again in each round. -/
def valuesFrom : Nat → M.Value → M.Effect (List M.Value)
  | 0, _ => Meaning.stuck
  | fuel + 1, v =>
    Meaning.branch (do M.less v (← bounds.stop.eval M env))
      (do return v :: (← valuesFrom fuel (← M.operator .add v (← bounds.step.eval M env))))
      (return [])

/-- The values that counting through the bounds visits. -/
def values (fuel : Nat) : M.Effect (List M.Value) := do
  bounds.valuesFrom M env fuel (← bounds.start.eval M env)

/-- Counting through the bounds ends, and visits the elements of the progression one after another. -/
def GoesThrough (memory : M.Memory) (p : Progression) : Prop :=
  ∀ fuel, p.count < fuel →
    bounds.values M env fuel memory = some (p.elements.map M.ofInteger, memory)

/-- The bounds are those of the progression. -/
structure Evaluate (memory : M.Memory) (p : Progression) : Prop where
  start : bounds.start.eval M env memory = some (M.ofInteger p.start, memory)
  stop : bounds.stop.eval M env memory = some (M.ofInteger p.stop, memory)
  step : bounds.step.eval M env memory = some (M.ofInteger p.step, memory)

end RangeBounds

section Bounds

variable {M : Meaning} {env : M.Env} {memory : M.Memory} {line l : LineNumber}

/-- The lowered bounds are those of the arguments, where the literals that are filled in have their
values. -/
theorem RangeBounds.evaluate_of_args
    (hdefault : ∀ n ∈ [0, 1], M.literal (.int n) memory = some (M.ofInteger n.toInt, memory))
    {args : List Source.Expr} {bounds : RangeBounds}
    (h : lowerRange line (.call l "range" args) = .ok bounds) {ns : List Int}
    (hargs : List.Forall₂ (fun e n => e.eval M env memory = some (M.ofInteger n, memory)) args ns) :
    ∃ p, Progression.ofList? ns = some p ∧ bounds.Evaluate M env memory p := by
  obtain ⟨l', args', range, hcall, hrange, -, -, hstart, hstop, hstep⟩ := lowerRange_eq_ok.mp h
  cases hcall
  have hlowered {e : Source.Expr} {n : Int} {t : Target.Expr} (ht : lowerExpr none e = .ok t)
      (he : e.eval M env memory = some (M.ofInteger n, memory)) :
      t.eval M env memory = some (M.ofInteger n, memory) := by
    rw [eval_lowerExpr M env e none t ht, he]
  have hzero := hdefault 0 (by simp)
  have hone := hdefault 1 (by simp)
  obtain ⟨start', stop', step'⟩ := bounds
  -- which argument is the start and which the stop depends on their number
  match args, hrange, hargs with
  | [stop], rfl, .cons hs .nil =>
    cases hstart
    cases hstep
    exact ⟨_, rfl, hzero, hlowered hstop hs, hone⟩
  | [start, stop], rfl, .cons ha (.cons hs .nil) =>
    cases hstep
    exact ⟨_, rfl, hlowered hstart ha, hlowered hstop hs, hone⟩
  | [start, stop, step], rfl, .cons ha (.cons hs (.cons hd .nil)) =>
    exact ⟨_, rfl, hlowered hstart ha, hlowered hstop hs, hlowered hstep hd⟩

theorem Meaning.Counts.truth_less (hM : M.Counts) {stop : Target.Expr} {n s : Int}
    (hstop : stop.eval M env memory = some (M.ofInteger s, memory)) :
    ((do M.less (M.ofInteger n) (← stop.eval M env)) >>= M.truth) memory =
      some (decide (n < s), memory) := by
  rw [bind_assoc]
  exact Meaning.bind_eq_some.mpr ⟨M.ofInteger s, memory, hstop, hM.less n s memory⟩

/-- Counting up from the start of a progression visits its elements. -/
theorem RangeBounds.valuesFrom_eq (hM : M.Counts) {bounds : RangeBounds} {p : Progression}
    (hpos : 0 < p.step) (hstop : bounds.stop.eval M env memory = some (M.ofInteger p.stop, memory))
    (hstep : bounds.step.eval M env memory = some (M.ofInteger p.step, memory)) {fuel : Nat}
    (hfuel : p.count < fuel) :
    bounds.valuesFrom M env fuel (M.ofInteger p.start) memory =
      some (p.elements.map M.ofInteger, memory) := by
  obtain ⟨k, rfl⟩ : ∃ k, fuel = k + 1 := ⟨fuel - 1, by omega⟩
  induction p, hpos using Progression.upwardInduction generalizing k with
  | done p hpos hlast =>
    have hcond := hM.truth_less (n := p.start) hstop
    rw [decide_eq_false (not_lt.mpr hlast)] at hcond
    rw [Progression.elements_eq_nil hpos hlast]
    exact Meaning.branch_eq_some.mpr (.inr ⟨memory, hcond, rfl⟩)
  | round p hpos hfirst ih =>
    have hcond := hM.truth_less (n := p.start) hstop
    rw [decide_eq_true hfirst] at hcond
    rw [Progression.count_eq_succ hpos hfirst] at hfuel
    obtain ⟨j, rfl⟩ : ∃ j, k = j + 1 := ⟨k - 1, by omega⟩
    have hrest := ih hstop hstep j (by omega)
    rw [Progression.elements_eq_cons hpos hfirst]
    refine Meaning.branch_eq_some.mpr (.inl ⟨memory, hcond, ?_⟩)
    refine Meaning.bind_eq_some.mpr ⟨M.ofInteger p.step, memory, hstep, ?_⟩
    refine Meaning.bind_eq_some.mpr
      ⟨M.ofInteger (p.start + p.step), memory, hM.add p.start p.step memory, ?_⟩
    exact Meaning.bind_eq_some.mpr ⟨_, memory, hrest, rfl⟩

theorem RangeBounds.Evaluate.goesThrough (hM : M.Counts) {bounds : RangeBounds} {p : Progression}
    (h : bounds.Evaluate M env memory p) (hpos : 0 < p.step) :
    bounds.GoesThrough M env memory p := by
  intro fuel hfuel
  exact Meaning.bind_eq_some.mpr
    ⟨M.ofInteger p.start, memory, h.start, valuesFrom_eq hM hpos h.stop h.step hfuel⟩

/-! ## Literal bounds -/

theorem exists_of_mem_literals {ns : List (LineNumber × Int64)} {e : Source.Expr}
    (h : e ∈ intLiterals ns) : ∃ n ∈ ns, e = .constant n.1 (.int n.2) := by
  obtain ⟨n, hn, rfl⟩ := List.mem_map.mp h
  exact ⟨n, hn, rfl⟩

theorem isRange_literals {ns : List (LineNumber × Int64)} :
    (Source.Expr.call l "range" (intLiterals ns)).IsRange ↔
      1 ≤ ns.length ∧ ns.length ≤ 3 ∧ ∀ n ∈ ns[2]?, 1 ≤ n.2.toInt := by
  have hlength : (intLiterals ns).length = ns.length := List.length_map _
  constructor
  · rintro ⟨line, args, hcall, hfew, hmany, -, hstep⟩
    cases hcall
    rw [hlength] at hfew hmany
    refine ⟨hfew, hmany, fun n hn => hstep n.1 n.2 ?_⟩
    rw [intLiterals, List.getElem?_map, Option.mem_def.mp hn, Option.map_some]
  · rintro ⟨hfew, hmany, hstep⟩
    rw [← hlength] at hfew hmany
    refine ⟨l, _, rfl, hfew, hmany, ?_, ?_⟩
    · intro l' value hvalue
      obtain ⟨n, -, hn⟩ := exists_of_mem_literals hvalue
      cases hn
      exact ⟨n.2, rfl⟩
    · intro l' k hk
      rw [intLiterals, List.getElem?_map, Option.map_eq_some_iff] at hk
      obtain ⟨n, hn, hk⟩ := hk
      cases hk
      exact hstep n hn

/-- A range of literals is lowered if and only if it is a progression that goes up. -/
theorem exists_lowerRange_literals (ns : List (LineNumber × Int64)) :
    (∃ bounds, lowerRange line (.call l "range" (intLiterals ns)) = .ok bounds) ↔
      ∃ p, Progression.ofList? (literalValues ns) = some p ∧ 0 < p.step := by
  have hsubset : (Source.Expr.call l "range" (intLiterals ns)).InSubset False := by
    rw [Source.Expr.inSubset_call]
    intro e he
    obtain ⟨n, -, rfl⟩ := exists_of_mem_literals he
    exact Source.Expr.inSubset_constant.mpr (by simp)
  rw [exists_lowerRange_eq_ok, and_iff_left hsubset, isRange_literals]
  match ns with
  | [] => simp [literalValues, Progression.ofList?]
  | [a] => simp [literalValues, Progression.ofList?]
  | [a, b] => simp [literalValues, Progression.ofList?]
  | [a, b, c] => simp [literalValues, Progression.ofList?, Int.lt_iff_add_one_le]
  | a :: b :: c :: d :: rest => simp [literalValues, Progression.ofList?]

theorem forall₂_eval_literals (env : M.Env) {ns : List (LineNumber × Int64)}
    (hns : ∀ n ∈ ns, M.literal (.int n.2) memory = some (M.ofInteger n.2.toInt, memory)) :
    List.Forall₂ (fun e n => e.eval M env memory = some (M.ofInteger n, memory)) (intLiterals ns)
      (literalValues ns) := by
  induction ns with
  | nil => exact .nil
  | cons n ns ih =>
    rw [List.forall_mem_cons] at hns
    exact .cons hns.1 (ih hns.2)

/-- Literal bounds are the same everywhere. -/
theorem RangeBounds.evaluate_of_literals (env : M.Env) {ns : List (LineNumber × Int64)}
    (hdefault : ∀ n ∈ [0, 1], M.literal (.int n) memory = some (M.ofInteger n.toInt, memory))
    (hns : ∀ n ∈ ns, M.literal (.int n.2) memory = some (M.ofInteger n.2.toInt, memory))
    {bounds : RangeBounds} (h : lowerRange line (.call l "range" (intLiterals ns)) = .ok bounds)
    {p : Progression} (hp : Progression.ofList? (literalValues ns) = some p) :
    bounds.Evaluate M env memory p := by
  obtain ⟨q, hq, hbounds⟩ := evaluate_of_args hdefault h (forall₂_eval_literals env hns)
  obtain rfl : p = q := Option.some.inj (hp.symm.trans hq)
  exact hbounds

end Bounds

/-- A lowered range goes through the range of its arguments, whose elements are those of
`start, start + step, …` that lie below the stop. Among ranges of literals those are lowered that go up. -/
theorem lowerRange_goesThrough {M : Meaning} (hM : M.Counts) (line l : LineNumber) :
    (∀ args bounds, lowerRange line (.call l "range" args) = .ok bounds →
      ∀ (env : M.Env) memory ns,
        List.Forall₂ (fun e n => e.eval M env memory = some (M.ofInteger n, memory)) args ns →
        ∃ p, Progression.ofList? ns = some p ∧
          (0 < p.step → bounds.GoesThrough M env memory p ∧ p.elements.Pairwise (· < ·) ∧
            ∀ n, n ∈ p.elements ↔ ∃ i : Nat, n = p.start + i * p.step ∧ n < p.stop)) ∧
    (∀ ns bounds, lowerRange line (.call l "range" (intLiterals ns)) = .ok bounds →
      ∃ p, Progression.ofList? (literalValues ns) = some p ∧ 0 < p.step ∧
        ∀ env memory, bounds.GoesThrough M env memory p) ∧
    (∀ ns, 1 ≤ ns.length → ns.length ≤ 2 →
      ∃ bounds, lowerRange line (.call l "range" (intLiterals ns)) = .ok bounds) ∧
    ∀ a b c, (∃ error, lowerRange line (.call l "range" (intLiterals [a, b, c])) = .error error) ↔
      c.2.toInt ≤ 0 := by
  refine ⟨?_, ?_, ?_, ?_⟩
  · intro args bounds h env memory ns hns
    obtain ⟨p, hp, hbounds⟩ :=
      RangeBounds.evaluate_of_args (fun n _ => hM.literal n memory) h hns
    refine ⟨p, hp, fun hpos => ⟨hbounds.goesThrough hM hpos, ?_, ?_⟩⟩
    · exact Progression.pairwise_elements hpos
    · exact fun n => Progression.mem_elements hpos
  · intro ns bounds h
    obtain ⟨p, hp, hpos⟩ := (exists_lowerRange_literals ns).mp ⟨bounds, h⟩
    refine ⟨p, hp, hpos, fun env memory => ?_⟩
    have hbounds := RangeBounds.evaluate_of_literals env (fun n _ => hM.literal n memory)
      (fun n _ => hM.literal n.2 memory) h hp
    exact hbounds.goesThrough hM hpos
  · intro ns hfew hmany
    rw [exists_lowerRange_literals]
    match ns with
    | [a] => exact ⟨_, rfl, Int.one_pos⟩
    | [a, b] => exact ⟨_, rfl, Int.one_pos⟩
  · intro a b c
    have hup : (∃ p, Progression.ofList? (literalValues [a, b, c]) = some p ∧ 0 < p.step) ↔
        0 < c.2.toInt := by
      simp [literalValues, Progression.ofList?]
    rw [exists_eq_error_iff, exists_lowerRange_literals, hup, not_lt]

theorem lowerRange_goesThrough_mixed :
    (∃ bounds, lowerRange 1 (.call 1 "range" [.int 2, .name 1 "n", .int 3]) = .ok bounds ∧
      bounds.GoesThrough Outside.array.integers (fun _ => some (10 : Int)) [] ⟨2, 10, 3⟩) ∧
    ∃ error, lowerRange 1 (.call 1 "range" (intLiterals [(1, 9), (1, 2), (1, -3)])) = .error error := by
  obtain ⟨hgoes, -, -, hrejected⟩ := lowerRange_goesThrough Outside.array.integers_counts 1 1
  refine ⟨?_, (hrejected _ _ _).mpr (by decide)⟩
  obtain ⟨p, hp, hgo⟩ := hgoes [.int 2, .name 1 "n", .int 3] _ rfl (fun _ => some (10 : Int)) []
    [2, 10, 3] (.cons rfl (.cons rfl (.cons rfl .nil)))
  cases hp
  exact ⟨_, rfl, (hgo (by decide)).1⟩

/-! ## Counters of 32 bits -/

/-- An integer that can be represented. -/
def represented (fits : Int → Bool) (n : Int) : StateT (List Int) Option Int :=
  fun noted => if fits n then some (n, noted) else none

/-- Counting with the integers that fit: a sum that does not fit has no result. The memory is the list of
the values that were compared, the latest last. -/
abbrev counters (fits : Int → Bool) : Meaning where
  Value := Int
  Memory := List Int
  literal
    | .int n => represented fits n.toInt
    | _ => fun _ => none
  operator
    | .add, a, b => represented fits (a + b)
    | _, _, _ => fun _ => none
  less a b noted := some ((decide (a < b)).toInt, noted ++ [a])
  call _ _ _ := none
  element _ _ _ := none
  setElement _ _ _ _ := none
  tuple _ _ := none
  truth v noted := some (v ≠ 0, noted)
  integer? := some
  ofInteger := id

def unbounded (_ : Int) : Bool := true

/-- The largest value of a counter. -/
def largestInt : Int := 2147483647

def fitsInt (n : Int) : Bool := decide (-largestInt - 1 ≤ n ∧ n ≤ largestInt)

section Rounds

variable {fits : Int → Bool} {bounds : RangeBounds} (counter : String) (σ : Stack Int) (fuel : Nat)

/-- What is left of a loop without a body when its counter has the given value. -/
def roundsFrom (fits : Int → Bool) (bounds : RangeBounds) (counter : String) (σ : Stack Int)
    (fuel rest : Nat) (n : Int) : (counters fits).Effect (Stack Int × Ending Int) :=
  Target.rounds (counters fits) (.binary .lt (.identifier counter) bounds.stop)
    (Target.inBlock (counters fits) (Target.execBlock (counters fits) fuel []))
    ⟨.add, .identifier counter, bounds.step⟩ rest ([(counter, some n)] :: σ)

theorem value?_counter (n : Int) : Stack.value? ([(counter, some n)] :: σ) counter = some n :=
  Stack.value?_cons_of_mem (by simp) σ

theorem assign_counter (v : Option Int) (n : Int) :
    Stack.assign counter n ([(counter, v)] :: σ) = some ([(counter, some n)] :: σ) := by
  refine Stack.assign_cons_eq_some.mpr (.inl ⟨by simp, ?_⟩)
  simp [Scope.put]

theorem andThen_emptyBlock (k : Stack Int → (counters fits).Effect (Stack Int × Ending Int)) :
    Meaning.andThen (Target.inBlock (counters fits) (Target.execBlock (counters fits) fuel []) σ) k =
      k σ :=
  rfl

/-- The condition compares the counter with the stop, and what it compares is noted. -/
theorem truth_counterBelow {s : Int}
    (hstop : ∀ env noted, bounds.stop.eval (counters fits) env noted = some (s, noted)) (n : Int)
    (noted : List Int) :
    (Target.Expr.eval (counters fits) (Stack.value? ([(counter, some n)] :: σ))
        (.binary .lt (.identifier counter) bounds.stop) >>= (counters fits).truth) noted =
      some (decide (n < s), noted ++ [n]) := by
  have hlt : (decide (n < s)).toInt ≠ 0 ↔ n < s := by
    by_cases hn : n < s <;> simp [hn]
  rw [Target.Expr.eval, Target.Expr.eval, value?_counter, bind_assoc]
  refine Meaning.bind_eq_some.mpr ⟨n, noted, rfl, ?_⟩
  rw [bind_assoc]
  refine Meaning.bind_eq_some.mpr ⟨s, noted, hstop _ noted, ?_⟩
  refine Meaning.bind_eq_some.mpr ⟨_, _, rfl, ?_⟩
  simp only [hlt]

/-- The end of a round adds the step to the counter, if the sum fits. -/
theorem exec_counterUp {d : Int}
    (hstep : ∀ env noted, bounds.step.eval (counters fits) env noted = some (d, noted)) (n : Int)
    (noted : List Int) :
    Target.Update.exec (counters fits) ⟨.add, .identifier counter, bounds.step⟩
        ([(counter, some n)] :: σ) noted =
      if fits (n + d) then some ([(counter, some (n + d))] :: σ, noted) else none := by
  have hsum : Meaning.updated ((counters fits).operator .add)
      (Meaning.demand (Stack.value? ([(counter, some n)] :: σ) counter))
      (bounds.step.eval (counters fits) (Stack.value? ([(counter, some n)] :: σ))) noted =
        represented fits (n + d) noted := by
    rw [Meaning.updated, value?_counter]
    rw [Meaning.bind_of_eq_some (a := n) rfl, Meaning.bind_of_eq_some (hstep _ noted)]
  by_cases hfits : fits (n + d)
  · rw [represented, if_pos hfits] at hsum
    rw [if_pos hfits]
    refine (Meaning.bind_of_eq_some hsum).trans ?_
    rw [assign_counter]
    rfl
  · rw [represented, if_neg hfits] at hsum
    rw [if_neg hfits]
    exact Meaning.bind_of_eq_none hsum

/-- One round: the counter is compared, and if it is below the stop it goes up. -/
theorem roundsFrom_succ {s d : Int}
    (hstop : ∀ env noted, bounds.stop.eval (counters fits) env noted = some (s, noted))
    (hstep : ∀ env noted, bounds.step.eval (counters fits) env noted = some (d, noted)) (rest : Nat)
    (n : Int) (noted : List Int) :
    roundsFrom fits bounds counter σ fuel (rest + 1) n noted =
      if n < s then
        if fits (n + d) then roundsFrom fits bounds counter σ fuel rest (n + d) (noted ++ [n])
        else none
      else some (([(counter, some n)] :: σ, .next), noted ++ [n]) := by
  have hcond := truth_counterBelow counter σ hstop n noted
  have hnext := exec_counterUp counter σ hstep n (noted ++ [n])
  rw [roundsFrom, Target.rounds, Meaning.branch, ← bind_assoc, Meaning.bind_of_eq_some hcond]
  by_cases hn : n < s
  · rw [if_pos hn, decide_eq_true hn, if_pos rfl, andThen_emptyBlock]
    by_cases hfits : fits (n + d)
    · rw [if_pos hfits] at hnext ⊢
      exact Meaning.bind_of_eq_some hnext
    · rw [if_neg hfits] at hnext ⊢
      exact Meaning.bind_of_eq_none hnext
  · rw [if_neg hn, decide_eq_false hn, if_neg Bool.false_ne_true]
    rfl

section Runs

variable {p : Progression}
  (hstop : ∀ env noted, bounds.stop.eval (counters fits) env noted = some (p.stop, noted))
  (hstep : ∀ env noted, bounds.step.eval (counters fits) env noted = some (p.step, noted))
include hstop hstep

/-- As long as the values of the counter fit, the rounds go through the progression. -/
theorem roundsFrom_eq_some (hpos : 0 < p.step) (hfits : ∀ n ∈ p.elements ++ [p.exit], fits n)
    {rest : Nat} (hrest : p.count < rest) (noted : List Int) :
    roundsFrom fits bounds counter σ fuel rest p.start noted =
      some (([(counter, some p.exit)] :: σ, .next), noted ++ (p.elements ++ [p.exit])) := by
  obtain ⟨k, rfl⟩ : ∃ k, rest = k + 1 := ⟨rest - 1, by omega⟩
  induction p, hpos using Progression.upwardInduction generalizing k noted with
  | done p hpos hlast =>
    rw [roundsFrom_succ counter σ fuel hstop hstep, if_neg (not_lt.mpr hlast),
      Progression.elements_eq_nil hpos hlast, Progression.exit_eq_start hpos hlast, List.nil_append]
  | round p hpos hfirst ih =>
    rw [Progression.elements_eq_cons hpos hfirst, ← Progression.exit_next hpos hfirst,
      List.cons_append, List.forall_mem_cons] at hfits
    rw [Progression.count_eq_succ hpos hfirst] at hrest
    obtain ⟨j, rfl⟩ : ∃ j, k = j + 1 := ⟨k - 1, by omega⟩
    -- the sum is the first value of the rounds that are left
    have hsum : fits (p.start + p.step) :=
      hfits.2 _ (Progression.start_mem (p := p.next) hpos)
    have hrounds := ih hstop hstep hfits.2 (noted ++ [p.start]) j (by omega)
    rw [roundsFrom_succ counter σ fuel hstop hstep, if_pos hfirst, if_pos hsum,
      Progression.elements_eq_cons hpos hfirst, ← Progression.exit_next hpos hfirst]
    rw [List.append_assoc, List.singleton_append] at hrounds
    exact hrounds

/-- A last value that does not fit stops the rounds before their end. -/
theorem roundsFrom_eq_none (hpos : 0 < p.step) (hstart : fits p.start) (hexit : ¬ fits p.exit)
    (rest : Nat) (noted : List Int) : roundsFrom fits bounds counter σ fuel rest p.start noted = none := by
  induction p, hpos using Progression.upwardInduction generalizing rest noted with
  | done p hpos hlast =>
    rw [Progression.exit_eq_start hpos hlast] at hexit
    exact absurd hstart hexit
  | round p hpos hfirst ih =>
    rw [← Progression.exit_next hpos hfirst] at hexit
    cases rest with
    | zero => rfl
    | succ rest =>
      rw [roundsFrom_succ counter σ fuel hstop hstep, if_pos hfirst]
      by_cases hsum : fits (p.start + p.step)
      · rw [if_pos hsum]
        exact ih hstop hstep hsum hexit rest (noted ++ [p.start])
      · rw [if_neg hsum]

end Runs

/-- A loop without a body is the declaration of its counter and the rounds. -/
theorem exec_countingLoop {a : Int}
    (hstart : ∀ env noted, bounds.start.eval (counters fits) env noted = some (a, noted))
    (noted : List Int) :
    (countingLoop counter bounds []).exec (counters fits) fuel σ noted =
      (roundsFrom fits bounds counter σ fuel fuel a noted).map fun r => ((r.1.1.tail, r.1.2), r.2) := by
  have hdeclare : Stack.declare counter ([] :: σ) = some ([(counter, none)] :: σ) :=
    Stack.declare_eq_some.mpr ⟨[], σ, rfl, List.not_mem_nil, rfl⟩
  have hinit : Target.Declaration.exec (counters fits) ⟨counter, .int, some bounds.start⟩ ([] :: σ)
      noted = some ([(counter, some a)] :: σ, noted) := by
    refine Meaning.bind_eq_some.mpr
      ⟨_, noted, Meaning.demand_eq_some.mpr ⟨hdeclare, rfl⟩, ?_⟩
    refine Meaning.bind_eq_some.mpr ⟨a, noted, hstart _ noted, ?_⟩
    exact Meaning.demand_eq_some.mpr ⟨assign_counter counter σ none a, rfl⟩
  rw [countingLoop, Target.Stmt.exec, Target.inBlock, Target.loopRounds, bind_assoc,
    Meaning.bind_of_eq_some hinit]
  cases h : roundsFrom fits bounds counter σ fuel fuel a noted with
  | none => exact Meaning.bind_of_eq_none h
  | some r => exact Meaning.bind_of_eq_some h

section Loops

variable {p : Progression} (h : ∀ env noted, bounds.Evaluate (counters fits) env noted p)
  (hpos : 0 < p.step)
include h hpos

/-- The counter takes the values of the progression and then the one that counting stops at. -/
theorem exec_countingLoop_eq_some (hfits : ∀ n ∈ p.elements ++ [p.exit], fits n)
    (hfuel : p.count < fuel) (noted : List Int) :
    (countingLoop counter bounds []).exec (counters fits) fuel σ noted =
      some ((σ, .next), noted ++ (p.elements ++ [p.exit])) := by
  have hrounds := roundsFrom_eq_some counter σ fuel (fun env noted => (h env noted).stop)
    (fun env noted => (h env noted).step) hpos hfits hfuel noted
  rw [exec_countingLoop (a := p.start) counter σ fuel (fun env noted => (h env noted).start), hrounds]
  rfl

theorem exec_countingLoop_eq_none (hstart : fits p.start) (hexit : ¬ fits p.exit)
    (noted : List Int) : (countingLoop counter bounds []).exec (counters fits) fuel σ noted = none := by
  have hrounds := roundsFrom_eq_none counter σ fuel (fun env noted => (h env noted).stop)
    (fun env noted => (h env noted).step) hpos hstart hexit fuel noted
  rw [exec_countingLoop (a := p.start) counter σ fuel (fun env noted => (h env noted).start), hrounds]
  rfl

end Loops

end Rounds

theorem fitsInt_iff {n : Int} : fitsInt n ↔ -2147483648 ≤ n ∧ n ≤ 2147483647 :=
  decide_eq_true_iff

/-- The bounds of a range of literals that fit are its literals. -/
theorem evaluate_of_fits {fits : Int → Bool} (hdefault : fits 0 ∧ fits 1)
    {ns : List (LineNumber × Int64)} (hns : ∀ n ∈ literalValues ns, fits n) {line l : LineNumber}
    {bounds : RangeBounds} (h : lowerRange line (.call l "range" (intLiterals ns)) = .ok bounds)
    {p : Progression} (hp : Progression.ofList? (literalValues ns) = some p)
    (env : (counters fits).Env) (noted : List Int) : bounds.Evaluate (counters fits) env noted p := by
  have hliteral (n : Int64) (hn : fits n.toInt) :
      (counters fits).literal (.int n) noted = some (n.toInt, noted) := if_pos hn
  refine RangeBounds.evaluate_of_literals env ?_ ?_ h hp
  · simp only [List.forall_mem_cons, List.not_mem_nil, false_imp_iff, implies_true, and_true]
    exact ⟨hliteral 0 hdefault.1, hliteral 1 hdefault.2⟩
  · intro n hn
    exact hliteral n.2 (hns _ (List.mem_map_of_mem hn))

section LastValue

variable {p : Progression} (hpos : 0 < p.step) (hstart : fitsInt p.start) (hstop : fitsInt p.stop)
include hpos hstart hstop

theorem fitsInt_of_mem_elements {n : Int} (hn : n ∈ p.elements) : fitsInt n := by
  obtain ⟨i, -, hlt⟩ := (Progression.mem_elements hpos).mp hn
  have hle := Progression.start_le_of_mem hpos hn
  rw [fitsInt_iff] at hstart hstop ⊢
  omega

/-- Only the last value of a counter can be too large. -/
theorem forall_fitsInt_iff : (∀ n ∈ p.elements ++ [p.exit], fitsInt n) ↔ p.exit ≤ largestInt := by
  have hle := Progression.start_le_exit hpos
  have hexit : fitsInt p.exit ↔ p.exit ≤ largestInt := by
    rw [fitsInt_iff] at hstart ⊢
    rw [largestInt]
    omega
  rw [List.forall_mem_append, List.forall_mem_singleton, hexit]
  exact and_iff_right fun n hn => fitsInt_of_mem_elements hpos hstart hstop hn

/-- With step 1 counting ends at the stop, or where it starts. -/
theorem exit_le_of_step_eq_one (hone : p.step = 1) : p.exit ≤ largestInt := by
  rw [fitsInt_iff] at hstart hstop
  rw [largestInt]
  by_cases hfirst : p.start < p.stop
  · have hlt := Progression.exit_lt hpos hfirst
    omega
  · rw [Progression.exit_eq_start hpos (not_lt.mp hfirst)]
    omega

end LastValue

/-- A loop over literals that fit, without a body: its counter goes through the range and then takes one
more value. If that fits too, a counter of 32 bits does the same. If not, only the last addition
overflows, which takes a step other than 1. -/
theorem literalLoop_fits_iff (returnType : Option Target.Ty) (line l : LineNumber) (counter : String)
    (ns : List (LineNumber × Int64)) (hns : ∀ n ∈ literalValues ns, fitsInt n) (t : Target.Stmt)
    (ht : lowerStmt returnType (.loop line counter (.call l "range" (intLiterals ns)) [] []) = .ok t) :
    ∃ p, Progression.ofList? (literalValues ns) = some p ∧ 0 < p.step ∧
      (∀ σ noted fuel, p.count < fuel → t.exec (counters unbounded) fuel σ noted =
        some ((σ, .next), noted ++ (p.elements ++ [p.exit]))) ∧
      ((∀ n ∈ p.elements ++ [p.exit], fitsInt n) ↔ p.exit ≤ largestInt) ∧
      (ns.length ≤ 2 → p.exit ≤ largestInt) ∧
      (p.exit ≤ largestInt → ∀ σ noted fuel, p.count < fuel → t.exec (counters fitsInt) fuel σ noted =
        some ((σ, .next), noted ++ (p.elements ++ [p.exit]))) ∧
      (largestInt < p.exit → (∀ n ∈ p.elements, fitsInt n) ∧
        ∀ σ noted fuel, t.exec (counters fitsInt) fuel σ noted = none) := by
  obtain ⟨-, bounds, hbounds, body, hbody, rfl⟩ := lowerStmt_loop_eq_ok.mp ht
  obtain rfl := lowerBlock_nil_eq_ok.mp hbody
  obtain ⟨p, hp, hpos⟩ := (exists_lowerRange_literals ns).mp ⟨bounds, hbounds⟩
  have hunbounded : ∀ env noted, bounds.Evaluate (counters unbounded) env noted p :=
    evaluate_of_fits ⟨rfl, rfl⟩ (fun _ _ => rfl) hbounds hp
  have hbounded : ∀ env noted, bounds.Evaluate (counters fitsInt) env noted p :=
    evaluate_of_fits ⟨rfl, rfl⟩ hns hbounds hp
  obtain ⟨hstart, hstop⟩ := Progression.forall_of_ofList? (P := fun n => fitsInt n) rfl hns hp
  have hfits := forall_fitsInt_iff hpos hstart hstop
  refine ⟨p, hp, hpos, ?_, hfits, ?_, ?_, ?_⟩
  · intro σ noted fuel hfuel
    exact exec_countingLoop_eq_some counter σ fuel hunbounded hpos (fun _ _ => rfl) hfuel noted
  · intro hlength
    have hone := Progression.step_eq_one_of_ofList? (by simpa [literalValues] using hlength) hp
    exact exit_le_of_step_eq_one hpos hstart hstop hone
  · intro hexit σ noted fuel hfuel
    exact exec_countingLoop_eq_some counter σ fuel hbounded hpos (hfits.mpr hexit) hfuel noted
  · intro hexit
    refine ⟨fun n hn => fitsInt_of_mem_elements hpos hstart hstop hn, fun σ noted fuel => ?_⟩
    have hlarge : ¬ fitsInt p.exit := by
      rw [fitsInt_iff]
      rw [largestInt] at hexit
      omega
    exact exec_countingLoop_eq_none counter σ fuel hbounded hpos hstart hlarge noted

/-- The last addition of this loop overflows, although its literals fit and its step is positive. -/
theorem exists_literalLoop_overflows :
    ∃ ns t, (∀ n ∈ literalValues ns, fitsInt n) ∧
      lowerStmt none (.loop 1 "i" (.call 1 "range" (intLiterals ns)) [] []) = .ok t ∧
      t.exec (counters unbounded) 2 [] [] = some (([], .next), [2147483646, 2147483648]) ∧
      ¬ fitsInt 2147483648 ∧ ∀ fuel, t.exec (counters fitsInt) fuel [] [] = none := by
  refine ⟨[(1, 2147483646), (1, 2147483647), (1, 2)], _, by decide, rfl, rfl, by decide, ?_⟩
  intro fuel
  cases fuel with
  | zero => rfl
  | succ fuel => rfl

/-- This loop ends at the largest value of a counter. -/
theorem literalLoop_fits_iff_largest :
    ∃ t, lowerStmt none (.loop 1 "i" (.call 1 "range"
        (intLiterals [(1, 2147483639), (1, 2147483645), (1, 4)])) [] []) = .ok t ∧
      t.exec (counters fitsInt) 3 [] [] =
        some (([], .next), [2147483639, 2147483643, 2147483647]) := by
  refine ⟨_, rfl, ?_⟩
  obtain ⟨p, hp, -, -, -, -, hrun, -⟩ := literalLoop_fits_iff none 1 1 "i"
    [(1, 2147483639), (1, 2147483645), (1, 4)] (by decide) _ rfl
  cases hp
  exact hrun (by decide) [] [] 3 (by decide)

end AnnotatedToC
