import Mathlib.Data.List.Basic
import Mathlib.Tactic.Linarith
import Mathlib.Tactic.Ring

/-!
# Arithmetic progressions

The integers that a range goes through: those of `start, start + step, …` that lie before `stop` in the
direction of the step.
-/
namespace AnnotatedToC

structure Progression where
  start : Int
  stop : Int
  step : Int
  deriving DecidableEq, Repr

namespace Progression

def count (p : Progression) : Nat :=
  if 0 < p.step then ((p.stop - p.start + p.step - 1) / p.step).toNat
  else ((p.start - p.stop - p.step - 1) / (-p.step)).toNat

def elements (p : Progression) : List Int :=
  (List.range p.count).map fun i : Nat => p.start + i * p.step

/-- The progression without its first element. -/
def next (p : Progression) : Progression := { p with start := p.start + p.step }

theorem count_eq_zero {p : Progression} (hstep : 0 < p.step) (h : p.stop ≤ p.start) :
    p.count = 0 := by
  have hq : (p.stop - p.start + p.step - 1) / p.step < 1 :=
    Int.ediv_lt_of_lt_mul hstep (by linarith)
  simp only [count, if_pos hstep]
  omega

theorem count_eq_succ {p : Progression} (hstep : 0 < p.step) (h : p.start < p.stop) :
    p.count = p.next.count + 1 := by
  have hq : (p.stop - p.start + p.step - 1) / p.step =
      (p.next.stop - p.next.start + p.next.step - 1) / p.next.step + 1 := by
    change _ = (p.stop - (p.start + p.step) + p.step - 1) / p.step + 1
    rw [← Int.add_mul_ediv_right _ _ hstep.ne']
    congr 1
    ring
  have hn : 0 ≤ (p.next.stop - p.next.start + p.next.step - 1) / p.next.step := by
    apply Int.ediv_nonneg _ hstep.le
    change 0 ≤ p.stop - (p.start + p.step) + p.step - 1
    linarith
  simp only [count, if_pos hstep, if_pos (show 0 < p.next.step from hstep)]
  omega

theorem elements_eq_nil {p : Progression} (hstep : 0 < p.step) (h : p.stop ≤ p.start) :
    p.elements = [] := by
  simp [elements, count_eq_zero hstep h]

theorem elements_eq_cons {p : Progression} (hstep : 0 < p.step) (h : p.start < p.stop) :
    p.elements = p.start :: p.next.elements := by
  rw [elements, count_eq_succ hstep h, List.range_succ_eq_map]
  simp only [elements, List.map_cons, List.map_map, Nat.cast_zero, zero_mul, add_zero]
  congr 1
  apply List.map_congr_left
  intro i _
  simp only [Function.comp, Nat.succ_eq_add_one, Nat.cast_add, Nat.cast_one, next]
  ring

/-- Upward progressions by the number of their elements: each is at its end or has a first element. -/
@[elab_as_elim]
theorem upwardInduction {motive : (p : Progression) → 0 < p.step → Prop}
    (done : ∀ p hstep, p.stop ≤ p.start → motive p hstep)
    (round : ∀ p hstep, p.start < p.stop → motive p.next hstep → motive p hstep)
    (p : Progression) (hstep : 0 < p.step) : motive p hstep := by
  induction hcount : p.count generalizing p with
  | zero =>
    refine done p hstep ?_
    by_contra hlt
    rw [count_eq_succ hstep (not_le.mp hlt)] at hcount
    omega
  | succ k ih =>
    have hfirst : p.start < p.stop := by
      by_contra hle
      rw [count_eq_zero hstep (not_lt.mp hle)] at hcount
      omega
    refine round p hstep hfirst (ih p.next hstep ?_)
    have hnext := count_eq_succ hstep hfirst
    omega

/-! ## The value that counting stops at -/

/-- The value with which a counter leaves the progression. -/
def exit (p : Progression) : Int := p.start + p.count * p.step

theorem exit_eq_start {p : Progression} (hstep : 0 < p.step) (h : p.stop ≤ p.start) :
    p.exit = p.start := by
  simp [exit, count_eq_zero hstep h]

theorem exit_next {p : Progression} (hstep : 0 < p.step) (h : p.start < p.stop) :
    p.next.exit = p.exit := by
  simp only [exit, count_eq_succ hstep h, Nat.cast_add, Nat.cast_one, next]
  ring

theorem start_le_exit {p : Progression} (hstep : 0 < p.step) : p.start ≤ p.exit := by
  have hmul : 0 ≤ (p.count : Int) * p.step := by positivity
  rw [exit]
  linarith

/-- Counting does not go further than one step beyond the stop. -/
theorem exit_lt {p : Progression} (hstep : 0 < p.step) (h : p.start < p.stop) :
    p.exit < p.stop + p.step := by
  induction p, hstep using upwardInduction with
  | done p hstep hlast => linarith
  | round p hstep hfirst ih =>
    rw [← exit_next hstep hfirst]
    by_cases hnext : p.next.start < p.next.stop
    · exact ih hnext
    · rw [exit_eq_start (p := p.next) hstep (not_lt.mp hnext)]
      exact Int.add_lt_add_right hfirst p.step

/-- A counter goes through the elements and then takes one more value. -/
theorem start_mem {p : Progression} (hstep : 0 < p.step) : p.start ∈ p.elements ++ [p.exit] := by
  by_cases h : p.start < p.stop
  · simp [elements_eq_cons hstep h]
  · simp [exit_eq_start hstep (not_lt.mp h)]

theorem mem_elements {p : Progression} (hstep : 0 < p.step) {n : Int} :
    n ∈ p.elements ↔ ∃ i : Nat, n = p.start + i * p.step ∧ n < p.stop := by
  induction p, hstep using upwardInduction with
  | done p hstep hlast =>
    rw [elements_eq_nil hstep hlast]
    refine iff_of_false List.not_mem_nil ?_
    rintro ⟨i, rfl, hi⟩
    have hmul : 0 ≤ (i : Int) * p.step := by positivity
    linarith
  | round p hstep hfirst ih =>
    rw [elements_eq_cons hstep hfirst, List.mem_cons, ih]
    constructor
    · rintro (rfl | ⟨i, rfl, hi⟩)
      · exact ⟨0, by simp, hfirst⟩
      · refine ⟨i + 1, ?_, hi⟩
        simp only [next, Nat.cast_add, Nat.cast_one]
        ring
    · rintro ⟨i, hn, hi⟩
      cases i with
      | zero => exact .inl (by simpa using hn)
      | succ i =>
        refine .inr ⟨i, ?_, hi⟩
        simp only [hn, next, Nat.cast_add, Nat.cast_one]
        ring

theorem start_le_of_mem {p : Progression} (hstep : 0 < p.step) {n : Int} (h : n ∈ p.elements) :
    p.start ≤ n := by
  obtain ⟨i, rfl, -⟩ := (mem_elements hstep).mp h
  have hmul : 0 ≤ (i : Int) * p.step := by positivity
  linarith

theorem pairwise_elements {p : Progression} (hstep : 0 < p.step) :
    p.elements.Pairwise (· < ·) := by
  induction p, hstep using upwardInduction with
  | done p hstep hlast =>
    rw [elements_eq_nil hstep hlast]
    exact .nil
  | round p hstep hfirst ih =>
    rw [elements_eq_cons hstep hfirst]
    refine .cons ?_ ih
    intro n hn
    have hle : p.start + p.step ≤ n := start_le_of_mem (p := p.next) hstep hn
    linarith

/-! ## Arguments -/

/-- The progression of the arguments of a range. -/
def ofList? : List Int → Option Progression
  | [stop] => some ⟨0, stop, 1⟩
  | [start, stop] => some ⟨start, stop, 1⟩
  | [start, stop, step] => some ⟨start, stop, step⟩
  | _ => none

/-- Where a progression starts and stops is given by its arguments, or it starts at zero. -/
theorem forall_of_ofList? {P : Int → Prop} (hzero : P 0) {ns : List Int}
    (hns : ∀ n ∈ ns, P n) {p : Progression} (h : ofList? ns = some p) : P p.start ∧ P p.stop := by
  match ns with
  | [stop] =>
    cases h
    exact ⟨hzero, hns stop (by simp)⟩
  | [start, stop] | [start, stop, step] =>
    cases h
    exact ⟨hns start (by simp), hns stop (by simp)⟩

theorem step_eq_one_of_ofList? {ns : List Int} (hlength : ns.length ≤ 2) {p : Progression}
    (h : ofList? ns = some p) : p.step = 1 := by
  match ns with
  | [stop] | [start, stop] =>
    cases h
    rfl

end Progression

end AnnotatedToC
