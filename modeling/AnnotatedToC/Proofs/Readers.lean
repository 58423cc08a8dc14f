import AnnotatedToC.Json.Reader
import AnnotatedToC.Proofs.Nesting
import AnnotatedToC.Proofs.Results
import AnnotatedToC.Proofs.Rounding

/-!
# What is read

Every element of a list and every member of an object that is read was given by the reader of elements
or members. A value that is kept nests no deeper than the reader was allowed to go, and all its numbers
have a numeral: integers have 64 bits and doubles are finite.
-/
namespace AnnotatedToC.Json

variable {α : Type} {text rest : List Char}

/-! ## Lists and objects -/

theorem exists_of_mem_readElements {element : Nat → Reader α} {fuel : List Char} {index : Nat}
    {xs : List α} (h : readElements element fuel index text = .ok (xs, rest)) {x : α} (hx : x ∈ xs) :
    ∃ index text rest, element index text = .ok (x, rest) := by
  induction fuel generalizing index text xs with
  | nil => cases h
  | cons c fuel ih =>
    rw [readElements] at h
    obtain ⟨⟨y, after⟩, hy, h⟩ := bind_eq_ok.mp h
    dsimp only at h
    split at h
    · cases h
    · cases h
      obtain rfl := List.mem_singleton.mp hx
      exact ⟨_, _, _, hy⟩
    · split at h
      · cases h
      · cases h
      · obtain ⟨⟨ys, after'⟩, hys, h⟩ := bind_eq_ok.mp h
        cases h
        rcases List.mem_cons.mp hx with rfl | hx
        · exact ⟨_, _, _, hy⟩
        · exact ih hys hx
    · cases h

theorem exists_of_mem_readList {element : Nat → Reader α} {xs : List α}
    (h : readList element text = .ok (xs, rest)) {x : α} (hx : x ∈ xs) :
    ∃ index text rest, element index text = .ok (x, rest) := by
  unfold readList at h
  split at h
  · cases h
  · cases h
    simp at hx
  · exact exists_of_mem_readElements h hx

theorem exists_of_mem_readMembers {name : Reader String} {member : List String → String → Reader α}
    {fuel : List Char} {seen : List String} {ms : List (String × α)}
    (h : readMembers name member fuel seen text = .ok (ms, rest)) {m : String × α} (hm : m ∈ ms) :
    ∃ seen text rest, member seen m.1 text = .ok (m.2, rest) := by
  induction fuel generalizing seen text ms with
  | nil => cases h
  | cons c fuel ih =>
    rw [readMembers] at h
    obtain ⟨⟨key, middle⟩, -, h⟩ := bind_eq_ok.mp h
    obtain ⟨⟨y, after⟩, hy, h⟩ := bind_eq_ok.mp h
    dsimp only at h hy
    split at h
    · cases h
    · cases h
      obtain rfl := List.mem_singleton.mp hm
      exact ⟨_, _, _, hy⟩
    · split at h
      · cases h
      · obtain ⟨⟨ms', after'⟩, hms, h⟩ := bind_eq_ok.mp h
        cases h
        rcases List.mem_cons.mp hm with rfl | hm
        · exact ⟨_, _, _, hy⟩
        · exact ih hms hm
      · cases h
    · cases h

theorem exists_of_mem_readObject {name : Reader String} {member : List String → String → Reader α}
    {ms : List (String × α)} (h : readObject name member text = .ok (ms, rest)) {m : String × α}
    (hm : m ∈ ms) : ∃ seen text rest, member seen m.1 text = .ok (m.2, rest) := by
  unfold readObject at h
  split at h
  · cases h
  · cases h
    simp at hm
  · exact exists_of_mem_readMembers h hm
  · cases h

/-! ## Values -/

theorem Numeral.int?_bounds {n : Numeral} {i : Int} (h : n.int? = some i) :
    Int64.minValue.toInt ≤ i ∧ i < UInt64.size := by
  have hmin : Int64.minValue.toInt = -2 ^ 63 := rfl
  simp only [Numeral.int?, UInt64.size, hmin] at h ⊢
  split_ifs at h <;> simp only [Option.some.injEq] at h <;> omega

theorem Numeral.double?_eq_some {n : Numeral} {j : Json} (h : n.double? = some j) :
    ∃ d : Double, j = .double d ∧ d.isFinite = true := by
  obtain ⟨d, hd, rfl⟩ := Option.map_eq_some_iff.mp h
  obtain ⟨hlt, hd⟩ := Option.ite_none_right_eq_some.mp hd
  cases hd
  exact ⟨_, rfl, Double.isFinite_ofMagnitude n.negative hlt⟩

/-- A value that is no list and no object, with a numeral if it is a number. -/
def IsLeaf (j : Json) : Prop := j.Writable ∧ j.depth = 0

theorem Numeral.isLeaf_value? {n : Numeral} {j : Json} (h : n.value? = some j) : j.IsLeaf := by
  unfold Numeral.value? at h
  split at h
  · rename_i i hi
    cases h
    exact ⟨writable_int.mpr (Numeral.int?_bounds hi), rfl⟩
  · obtain ⟨d, rfl, hd⟩ := Numeral.double?_eq_some h
    exact ⟨writable_double.mpr hd, rfl⟩

theorem isLeaf_readNumber {negative : Bool} {j : Json}
    (h : Scan.keep.readNumber negative text = .ok (j, rest)) : j.IsLeaf := by
  obtain ⟨⟨n, after⟩, -, h⟩ := bind_eq_ok.mp h
  obtain ⟨j', hj, h⟩ := bind_eq_ok.mp h
  cases h
  simp only [Scan.keep] at hj
  split at hj
  · rename_i j' hvalue
    cases hj
    exact Numeral.isLeaf_value? hvalue
  · cases hj

theorem readWith_eq_ok {onList onObject : Reader Json} {j : Json}
    (h : Scan.keep.readWith onList onObject text = .ok (j, rest)) :
    j.IsLeaf ∨ (∃ text, onList text = .ok (j, rest)) ∨ ∃ text, onObject text = .ok (j, rest) := by
  unfold Scan.readWith at h
  split at h
  · cases h
  · obtain ⟨after, -, h⟩ := bind_eq_ok.mp h
    cases h
    exact .inl ⟨writable_null, rfl⟩
  · obtain ⟨after, -, h⟩ := bind_eq_ok.mp h
    cases h
    exact .inl ⟨writable_bool true, rfl⟩
  · obtain ⟨after, -, h⟩ := bind_eq_ok.mp h
    cases h
    exact .inl ⟨writable_bool false, rfl⟩
  · obtain ⟨⟨s, after⟩, -, h⟩ := bind_eq_ok.mp h
    cases h
    exact .inl ⟨writable_str s, rfl⟩
  · exact .inr (.inl ⟨_, h⟩)
  · exact .inr (.inr ⟨_, h⟩)
  · exact .inl (isLeaf_readNumber h)
  · split_ifs at h
    exact .inl (isLeaf_readNumber h)

/-- A value that was read can be written, and it nests no deeper than it was allowed to. -/
theorem read_eq_ok {depth : Nat} {j : Json} (h : Scan.keep.read depth text = .ok (j, rest)) :
    j.Writable ∧ j.depth ≤ depth := by
  induction depth generalizing text rest j with
  | zero =>
    rcases readWith_eq_ok h with hleaf | ⟨text, hlist⟩ | ⟨text, hobject⟩
    · exact ⟨hleaf.1, hleaf.2.le⟩
    · cases hlist
    · cases hobject
  | succ depth ih =>
    rcases readWith_eq_ok h with hleaf | ⟨text, hlist⟩ | ⟨text, hobject⟩
    · exact ⟨hleaf.1, hleaf.2 ▸ Nat.zero_le _⟩
    · obtain ⟨⟨xs, after⟩, hxs, h⟩ := bind_eq_ok.mp hlist
      cases h
      have hparts : ∀ x ∈ xs, x.Writable ∧ x.depth ≤ depth := by
        intro x hx
        obtain ⟨_, _, _, hread⟩ := exists_of_mem_readList hxs hx
        exact ih hread
      exact ⟨writable_arr.mpr fun x hx => (hparts x hx).1,
        depth_arr_le.mpr fun x hx => (hparts x hx).2⟩
    · obtain ⟨⟨ms, after⟩, hms, h⟩ := bind_eq_ok.mp hobject
      cases h
      have hparts : ∀ m ∈ ms, m.2.Writable ∧ m.2.depth ≤ depth := by
        intro m hm
        obtain ⟨_, _, _, hread⟩ := exists_of_mem_readObject hms hm
        obtain ⟨_, -, hread⟩ := bind_eq_ok.mp hread
        exact ih hread
      exact ⟨writable_obj.mpr fun m hm => (hparts m hm).1,
        depth_obj_le.mpr fun m hm => (hparts m hm).2⟩

end AnnotatedToC.Json
