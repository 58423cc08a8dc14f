import Mathlib.Data.List.Basic
import Mathlib.Tactic.Common

/-!
# Block scopes

Variables live in a stack of scopes, the innermost first. A declared variable has no value until it is
given one, and a name stands for its innermost declaration. `names` forgets the values: giving a
value to a variable does not change it.
-/
namespace AnnotatedToC

/-- Declared names with their values, the latest first. -/
abbrev Scope (V : Type) := List (String × Option V)

abbrev Stack (V : Type) := List (Scope V)

variable {V : Type}

namespace Scope

def names (scope : Scope V) : List String := scope.map Prod.fst

def put (x : String) (v : V) (scope : Scope V) : Scope V :=
  scope.map fun p => if p.1 = x then (p.1, some v) else p

@[simp] theorem names_nil : names ([] : Scope V) = [] := rfl

@[simp] theorem names_cons (p : String × Option V) (scope : Scope V) :
    names (p :: scope) = p.1 :: names scope := rfl

theorem put_cons (x : String) (v : V) (p : String × Option V) (scope : Scope V) :
    put x v (p :: scope) = (if p.1 = x then (p.1, some v) else p) :: put x v scope := rfl

@[simp] theorem names_put (x : String) (v : V) (scope : Scope V) :
    names (put x v scope) = names scope := by
  induction scope with
  | nil => rfl
  | cons p scope ih =>
    rw [put_cons, names_cons, names_cons, ih]
    split_ifs <;> rfl

theorem lookup_cons (x : String) (p : String × Option V) (scope : Scope V) :
    List.lookup x (p :: scope) = if x = p.1 then some p.2 else scope.lookup x := by
  rcases p with ⟨y, w⟩
  by_cases hx : x = y
  · simp [hx]
  · simp [List.lookup_cons, beq_false_of_ne hx, hx]

theorem lookup_eq_none {x : String} {scope : Scope V} :
    scope.lookup x = none ↔ x ∉ names scope := by
  induction scope with
  | nil => simp
  | cons p scope ih =>
    by_cases hx : x = p.1
    · simp [lookup_cons, hx]
    · rw [lookup_cons, if_neg hx, ih]
      simp [hx]

theorem lookup_put_self {x : String} {v : V} {scope : Scope V} (hx : x ∈ names scope) :
    (put x v scope).lookup x = some (some v) := by
  induction scope with
  | nil => simp at hx
  | cons p scope ih =>
    rw [put_cons]
    by_cases h : p.1 = x
    · simp [h]
    · have hne : x ≠ p.1 := fun he => h he.symm
      rw [if_neg h, lookup_cons, if_neg hne]
      exact ih ((List.mem_cons.mp hx).resolve_left hne)

theorem lookup_put_of_ne {x y : String} (v : V) (scope : Scope V) (hy : y ≠ x) :
    (put x v scope).lookup y = scope.lookup y := by
  induction scope with
  | nil => rfl
  | cons p scope ih =>
    rw [put_cons]
    by_cases h : p.1 = x
    · simp only [lookup_cons, h, if_pos, if_neg hy, ih]
    · rw [if_neg h, lookup_cons, lookup_cons, ih]

end Scope

namespace Stack

/-- The innermost declaration of a name. -/
def lookup? (x : String) : Stack V → Option (Option V)
  | [] => none
  | scope :: rest => (scope.lookup x).or (lookup? x rest)

/-- The value of a variable that is declared and has one. -/
def value? (σ : Stack V) (x : String) : Option V := (σ.lookup? x).join

/-- A name is declared once in a scope. -/
def declare (x : String) : Stack V → Option (Stack V)
  | [] => none
  | scope :: rest => if x ∈ scope.names then none else some (((x, none) :: scope) :: rest)

/-- Gives a value to the innermost variable of the name. -/
def assign (x : String) (v : V) : Stack V → Option (Stack V)
  | [] => none
  | scope :: rest =>
    if x ∈ scope.names then some (scope.put x v :: rest) else (assign x v rest).map (scope :: ·)

def names (σ : Stack V) : List (List String) := σ.map Scope.names

@[simp] theorem names_nil : names ([] : Stack V) = [] := rfl

@[simp] theorem names_cons (scope : Scope V) (σ : Stack V) :
    names (scope :: σ) = scope.names :: names σ := rfl

@[simp] theorem value?_nil (x : String) : value? ([] : Stack V) x = none := rfl

theorem value?_cons_of_mem {x : String} {scope : Scope V} {w : Option V}
    (hx : scope.lookup x = some w) (σ : Stack V) : value? (scope :: σ) x = w := by
  change ((scope.lookup x).or (lookup? x σ)).join = w
  rw [hx]
  rfl

theorem value?_cons_of_notMem {x : String} {scope : Scope V} (hx : x ∉ scope.names)
    (σ : Stack V) : value? (scope :: σ) x = value? σ x := by
  change ((scope.lookup x).or (lookup? x σ)).join = (lookup? x σ).join
  rw [Scope.lookup_eq_none.mpr hx]
  rfl

@[simp] theorem value?_nil_cons (σ : Stack V) : value? ([] :: σ) = value? σ := by
  funext x
  exact value?_cons_of_notMem (by simp) σ

/-- Scopes that agree on a name give it the same value in front of stacks that do. -/
theorem value?_cons_congr {x : String} {scope scope' : Scope V} {σ σ' : Stack V}
    (hscope : scope.lookup x = scope'.lookup x) (hσ : value? σ x = value? σ' x) :
    value? (scope :: σ) x = value? (scope' :: σ') x := by
  cases hx : scope.lookup x with
  | none =>
    have hx' := hscope.symm.trans hx
    rw [value?_cons_of_notMem (Scope.lookup_eq_none.mp hx),
      value?_cons_of_notMem (Scope.lookup_eq_none.mp hx'), hσ]
  | some w => rw [value?_cons_of_mem hx, value?_cons_of_mem (hscope.symm.trans hx)]

theorem declare_eq_some {x : String} {σ σ' : Stack V} :
    σ.declare x = some σ' ↔
      ∃ scope rest, σ = scope :: rest ∧ x ∉ scope.names ∧ σ' = ((x, none) :: scope) :: rest := by
  cases σ with
  | nil => exact ⟨nofun, nofun⟩
  | cons scope rest =>
    change (if x ∈ scope.names then none else some (((x, none) :: scope) :: rest)) = some σ' ↔ _
    by_cases hx : x ∈ scope.names
    · simp [hx]
    · simp [hx, eq_comm]

theorem value?_declare_of_ne {x y : String} {σ σ' : Stack V} (h : σ.declare x = some σ')
    (hy : y ≠ x) : σ'.value? y = σ.value? y := by
  rw [declare_eq_some] at h
  obtain ⟨scope, rest, rfl, -, rfl⟩ := h
  refine value?_cons_congr ?_ rfl
  rw [Scope.lookup_cons, if_neg hy]

theorem value?_declare_self {x : String} {σ σ' : Stack V} (h : σ.declare x = some σ') :
    σ'.value? x = none := by
  rw [declare_eq_some] at h
  obtain ⟨scope, rest, rfl, -, rfl⟩ := h
  exact value?_cons_of_mem (by rw [Scope.lookup_cons, if_pos rfl]) rest

theorem names_declare {x : String} {σ σ' : Stack V} (h : σ.declare x = some σ') :
    σ'.names = σ.names.modifyHead (x :: ·) := by
  rw [declare_eq_some] at h
  obtain ⟨scope, rest, rfl, -, rfl⟩ := h
  rfl

theorem assign_cons_eq_some {x : String} {v : V} {scope : Scope V} {rest σ' : Stack V} :
    assign x v (scope :: rest) = some σ' ↔
      (x ∈ scope.names ∧ σ' = scope.put x v :: rest) ∨
      (x ∉ scope.names ∧ ∃ rest', assign x v rest = some rest' ∧ σ' = scope :: rest') := by
  change (if x ∈ scope.names then some (scope.put x v :: rest)
    else (assign x v rest).map (scope :: ·)) = some σ' ↔ _
  by_cases hx : x ∈ scope.names
  · simp [hx, eq_comm]
  · simp [hx, Option.map_eq_some_iff, eq_comm (a := σ')]

theorem names_assign {x : String} {v : V} {σ σ' : Stack V} (h : σ.assign x v = some σ') :
    σ'.names = σ.names := by
  induction σ generalizing σ' with
  | nil => cases h
  | cons scope rest ih =>
    rw [assign_cons_eq_some] at h
    obtain ⟨-, rfl⟩ | ⟨-, rest', hr, rfl⟩ := h
    · rw [names_cons, names_cons, Scope.names_put]
    · rw [names_cons, names_cons, ih hr]

theorem value?_assign_of_ne {x y : String} {v : V} {σ σ' : Stack V}
    (h : σ.assign x v = some σ') (hy : y ≠ x) : σ'.value? y = σ.value? y := by
  induction σ generalizing σ' with
  | nil => cases h
  | cons scope rest ih =>
    rw [assign_cons_eq_some] at h
    obtain ⟨-, rfl⟩ | ⟨-, rest', hr, rfl⟩ := h
    · exact value?_cons_congr (Scope.lookup_put_of_ne v scope hy) rfl
    · exact value?_cons_congr rfl (ih hr)

theorem value?_assign_self {x : String} {v : V} {σ σ' : Stack V}
    (h : σ.assign x v = some σ') : σ'.value? x = some v := by
  induction σ generalizing σ' with
  | nil => cases h
  | cons scope rest ih =>
    rw [assign_cons_eq_some] at h
    obtain ⟨hx, rfl⟩ | ⟨hx, rest', hr, rfl⟩ := h
    · exact value?_cons_of_mem (Scope.lookup_put_self hx) rest
    · rw [value?_cons_of_notMem hx]
      exact ih hr

/-- Every name in scope can be given a value. -/
theorem assign_isSome {x : String} (v : V) {σ : Stack V} (h : ∃ scope ∈ σ, x ∈ scope.names) :
    ∃ σ', σ.assign x v = some σ' := by
  induction σ with
  | nil => simp at h
  | cons scope rest ih =>
    by_cases hx : x ∈ scope.names
    · exact ⟨_, assign_cons_eq_some.mpr (.inl ⟨hx, rfl⟩)⟩
    · obtain ⟨rest', hr⟩ := ih (by simpa [hx] using h)
      exact ⟨scope :: rest', assign_cons_eq_some.mpr (.inr ⟨hx, rest', hr, rfl⟩)⟩

theorem assign_isSome_of_declare {x : String} (v : V) {σ σ' : Stack V}
    (h : σ.declare x = some σ') : ∃ σ'', σ'.assign x v = some σ'' := by
  rw [declare_eq_some] at h
  obtain ⟨scope, rest, -, -, rfl⟩ := h
  exact assign_isSome v ⟨(x, none) :: scope, List.mem_cons_self, by simp⟩

theorem mem_names_of_value? {x : String} {v : V} {σ : Stack V} (h : σ.value? x = some v) :
    ∃ scope ∈ σ, x ∈ scope.names := by
  induction σ with
  | nil => simp at h
  | cons scope rest ih =>
    by_cases hx : x ∈ scope.names
    · exact ⟨scope, by simp, hx⟩
    · rw [value?_cons_of_notMem hx] at h
      obtain ⟨s, hs, hxs⟩ := ih h
      exact ⟨s, by simp [hs], hxs⟩

/-- The second stack has the scopes of the first, and new names at most in the innermost one. -/
def GrowsBy (allowed : List String) (σ σ' : Stack V) : Prop :=
  ∃ new ⊆ allowed, σ'.names = σ.names.modifyHead (new ++ ·)

theorem GrowsBy.of_names_eq {allowed : List String} {σ σ' : Stack V} (h : σ'.names = σ.names) :
    GrowsBy allowed σ σ' :=
  ⟨[], List.nil_subset _, by rw [h]; cases names σ <;> rfl⟩

theorem GrowsBy.declare {x : String} {σ σ' : Stack V} (h : σ.declare x = some σ') :
    GrowsBy [x] σ σ' :=
  ⟨[x], List.Subset.refl _, names_declare h⟩

theorem GrowsBy.trans {a b : List String} {σ σ₁ σ₂ : Stack V} (h : GrowsBy a σ σ₁)
    (h' : GrowsBy b σ₁ σ₂) : GrowsBy (a ++ b) σ σ₂ := by
  obtain ⟨new, hnew, hn⟩ := h
  obtain ⟨new', hnew', hn'⟩ := h'
  refine ⟨new' ++ new, ?_, ?_⟩
  · intro x hx
    rcases List.mem_append.mp hx with hx | hx
    · exact List.mem_append_right a (hnew' hx)
    · exact List.mem_append_left b (hnew hx)
  · rw [hn', hn]
    cases names σ <;> simp

theorem GrowsBy.mono {a b : List String} {σ σ' : Stack V} (h : GrowsBy a σ σ') (hab : a ⊆ b) :
    GrowsBy b σ σ' := by
  obtain ⟨new, hnew, hn⟩ := h
  exact ⟨new, List.Subset.trans hnew hab, hn⟩

/-- What has grown from a new scope is that scope on top of the old ones. -/
theorem GrowsBy.nil_cons {allowed : List String} {σ σ' : Stack V}
    (h : GrowsBy allowed ([] :: σ) σ') :
    ∃ scope rest, σ' = scope :: rest ∧ scope.names ⊆ allowed ∧ names rest = names σ := by
  obtain ⟨new, hnew, hn⟩ := h
  cases σ' with
  | nil => simp at hn
  | cons scope rest =>
    simp only [names_cons, List.modifyHead_cons, List.cons.injEq] at hn
    refine ⟨scope, rest, rfl, ?_, hn.2⟩
    rw [hn.1]
    simpa using hnew

end Stack

end AnnotatedToC
