import AnnotatedToC.Json
import Mathlib.Data.List.Basic

/-!
# Nesting of JSON values

Lists and objects hold values. A value stands at a level: the number of lists and objects around it. The
depth of a value is how many of them nest, itself included, which is how deep the brackets of its text
nest.
-/
namespace AnnotatedToC.Json

@[elab_as_elim, induction_eliminator]
theorem inductionOn {motive : Json → Prop}
    (null : motive .null)
    (bool : ∀ b, motive (.bool b))
    (int : ∀ n, motive (.int n))
    (double : ∀ d, motive (.double d))
    (str : ∀ s, motive (.str s))
    (arr : ∀ elements, (∀ x ∈ elements, motive x) → motive (.arr elements))
    (obj : ∀ members, (∀ m ∈ members, motive m.2) → motive (.obj members)) :
    ∀ j, motive j := by
  intro j
  refine @Json.rec motive (fun xs => ∀ x ∈ xs, motive x) (fun ms => ∀ m ∈ ms, motive m.2)
    (fun m => motive m.2) null bool int double str arr obj (List.forall_mem_nil motive) ?_
    (by simp) ?_ ?_ j
  · intro x xs hx hxs
    exact List.forall_mem_cons.mpr ⟨hx, hxs⟩
  · intro m ms hm hms
    exact List.forall_mem_cons.mpr ⟨hm, hms⟩
  · intro name x hx
    exact hx

/-- The values directly inside a value. -/
def parts : Json → List Json
  | .arr elements => elements
  | .obj members => members.map Prod.snd
  | _ => []

mutual

def depth : Json → Nat
  | .arr elements => depthOf elements + 1
  | .obj members => depthOfMembers members + 1
  | .null | .bool _ | .int _ | .double _ | .str _ => 0

def depthOf : List Json → Nat
  | [] => 0
  | x :: xs => max x.depth (depthOf xs)

def depthOfMembers : List (String × Json) → Nat
  | [] => 0
  | (_, x) :: ms => max x.depth (depthOfMembers ms)

end

theorem depthOf_le {xs : List Json} {n : Nat} : depthOf xs ≤ n ↔ ∀ x ∈ xs, x.depth ≤ n := by
  induction xs with
  | nil => simp [depthOf]
  | cons x xs ih => rw [depthOf, Nat.max_le, List.forall_mem_cons, ih]

theorem depthOfMembers_le {ms : List (String × Json)} {n : Nat} :
    depthOfMembers ms ≤ n ↔ ∀ m ∈ ms, m.2.depth ≤ n := by
  induction ms with
  | nil => simp [depthOfMembers]
  | cons m ms ih => rw [depthOfMembers, Nat.max_le, List.forall_mem_cons, ih]

theorem depth_arr_le {xs : List Json} {n : Nat} :
    (arr xs).depth ≤ n + 1 ↔ ∀ x ∈ xs, x.depth ≤ n := by
  rw [depth, Nat.add_le_add_iff_right, depthOf_le]

theorem depth_obj_le {ms : List (String × Json)} {n : Nat} :
    (obj ms).depth ≤ n + 1 ↔ ∀ m ∈ ms, m.2.depth ≤ n := by
  rw [depth, Nat.add_le_add_iff_right, depthOfMembers_le]

theorem depth_le_succ {j : Json} {n : Nat} : j.depth ≤ n + 1 ↔ ∀ x ∈ j.parts, x.depth ≤ n := by
  cases j with
  | arr xs => exact depth_arr_le
  | obj ms =>
    rw [depth_obj_le, parts, List.forall_mem_map]
  | _ => simp [depth, parts]

/-- `At x n j` says that `x` stands in `j` at level `n`. -/
inductive At (x : Json) : Nat → Json → Prop
  | root : At x 0 x
  | part {n : Nat} {c j : Json} : c ∈ j.parts → At x n c → At x (n + 1) j

theorem At.depth_le {x j : Json} {n : Nat} (h : At x n j) : n + x.depth ≤ j.depth := by
  induction h with
  | root => omega
  | @part n c j hc _ ih =>
    have hlt : c.depth < j.depth := by
      cases hj : j.depth with
      | zero =>
        exfalso
        cases j <;> simp [parts, depth] at hc hj
      | succ d => exact Nat.lt_succ_of_le (depth_le_succ.mp (Nat.le_of_eq hj) c hc)
    omega

/-- A number that has a numeral which is read as it: an integer of 64 bits, signed or not, or a finite
double. -/
def NumberFits : Json → Prop
  | .int n => Int64.minValue.toInt ≤ n ∧ n < UInt64.size
  | .double d => d.isFinite = true
  | _ => True

/-- A value that can be read back from its text. -/
def Writable (j : Json) : Prop := ∀ n x, At x n j → x.NumberFits

theorem writable_iff {j : Json} : j.Writable ↔ j.NumberFits ∧ ∀ x ∈ j.parts, x.Writable := by
  constructor
  · intro h
    exact ⟨h 0 j .root, fun c hc n x hx => h (n + 1) x (.part hc hx)⟩
  · rintro ⟨hj, hparts⟩ n x hx
    cases hx with
    | root => exact hj
    | part hc hx => exact hparts _ hc _ _ hx

theorem writable_arr {xs : List Json} : (arr xs).Writable ↔ ∀ x ∈ xs, x.Writable := by
  rw [writable_iff]
  simp [NumberFits, parts]

theorem writable_obj {ms : List (String × Json)} :
    (obj ms).Writable ↔ ∀ m ∈ ms, m.2.Writable := by
  rw [writable_iff, parts, List.forall_mem_map]
  simp [NumberFits]

theorem writable_int {n : Int} :
    (int n).Writable ↔ Int64.minValue.toInt ≤ n ∧ n < UInt64.size := by
  rw [writable_iff]
  simp [NumberFits, parts]

theorem writable_double {d : Double} : (double d).Writable ↔ d.isFinite = true := by
  rw [writable_iff]
  simp [NumberFits, parts]

theorem writable_str (s : String) : (str s).Writable := by
  rw [writable_iff]
  simp [NumberFits, parts]

theorem writable_bool (b : Bool) : (bool b).Writable := by
  rw [writable_iff]
  simp [NumberFits, parts]

theorem writable_null : null.Writable := by
  rw [writable_iff]
  simp [NumberFits, parts]

end AnnotatedToC.Json
