import AnnotatedToC.Lowering.Stmt
import AnnotatedToC.Proofs.Results
import AnnotatedToC.Target.Text

/-!
# Types of annotations

The annotations that have a type are array subscripts around a leaf, to any depth. Each subscript is a
pointer in the type and a star in its text. An annotation that has no type fails as a whole, whichever
part of it has none.
-/
namespace AnnotatedToC

open Source (LineNumber)

/-! ## Pointers as stars -/

namespace Target.Ty

/-- So many pointers around a type. -/
def pointers : Nat → Ty → Ty
  | 0, ty => ty
  | n + 1, ty => .pointer (pointers n ty)

def stars (n : Nat) : String := String.ofList (List.replicate n '*')

theorem isPointer_pointers (n : Nat) (ty : Ty) : (pointers (n + 1) ty).isPointer = true := rfl

theorem stars_succ (n : Nat) : stars (n + 1) = stars n ++ "*" := by
  rw [stars, List.replicate_succ', String.ofList_append]
  rfl

variable {ty : Ty} (hty : ty.isPointer = false)

include hty

/-- Only the innermost of several pointers is set apart from the type. -/
theorem text_pointers (n : Nat) : (pointers (n + 1) ty).text = ty.text ++ " " ++ stars (n + 1) := by
  induction n with
  | zero =>
    rw [pointers, pointers, text, hty, if_neg Bool.false_ne_true, String.append_assoc]
    rfl
  | succ n ih =>
    rw [pointers, text, if_pos (isPointer_pointers n ty), ih, stars_succ (n + 1),
      String.append_assoc]

theorem declarator_pointers (n : Nat) (name : String) :
    (pointers n ty).declarator name = ty.text ++ " " ++ stars n ++ name := by
  cases n with
  | zero =>
    rw [pointers, declarator, hty, if_neg Bool.false_ne_true]
    simp [stars]
  | succ n => rw [declarator, if_pos (isPointer_pointers n ty), text_pointers hty]

end Target.Ty

namespace Source.Hint

open Target (Ty)

/-! ## The annotations that have a type -/

/-- The leaves, with their types and the texts of these in C. -/
inductive IsLeaf : Hint → Ty → String → Prop
  | int : IsLeaf (.name "int") .int "int"
  | float : IsLeaf (.name "float") .double "double"
  | null : IsLeaf .null .void "void"
  | tuple (base : String) (elements : List Hint) :
      IsLeaf (.subscript base (.tuple elements)) .tuple "TUPLE"

/-- So many array subscripts around a leaf. -/
inductive Nested (leaf : Hint) : Nat → Hint → Prop
  | leaf : Nested leaf 0 leaf
  | array {n : Nat} {a : Hint} {base : String} (hbase : base = "Array" ∨ base = "view")
      (h : Nested leaf n a) : Nested leaf (n + 1) (.subscript base a)

theorem isArrayBase_iff {base : String} :
    isArrayBase base = true ↔ base = "Array" ∨ base = "view" := by
  simp [isArrayBase]

variable {leaf a : Hint} {ty : Ty} {spelling : String} {n : Nat}

theorem IsLeaf.text_eq (h : IsLeaf leaf ty spelling) : ty.text = spelling := by
  cases h <;> rfl

theorem IsLeaf.isPointer_eq (h : IsLeaf leaf ty spelling) : ty.isPointer = false := by
  cases h <;> rfl

theorem IsLeaf.resolve_eq (h : IsLeaf leaf ty spelling) : leaf.resolve = .ok ty := by
  cases h <;> rfl

/-- A tuple is a leaf only together with the subscript around it. -/
theorem Nested.ne_tuple (h : Nested leaf n a) (hleaf : IsLeaf leaf ty spelling)
    (elements : List Hint) : a ≠ .tuple elements := by
  rintro rfl
  cases h
  cases hleaf

/-- An array has the type of its elements, one pointer around it. -/
theorem resolve_array {base : String} {index : Hint} (hbase : isArrayBase base = true)
    (htuple : ∀ elements, index ≠ .tuple elements) (h : index.resolve = .ok ty) :
    (subscript base index).resolve = .ok (.pointer ty) := by
  rw [resolve.eq_3 _ _ htuple, if_pos hbase, h]
  rfl

theorem Nested.resolve_eq (h : Nested leaf n a) (hleaf : IsLeaf leaf ty spelling) :
    a.resolve = .ok (Ty.pointers n ty) := by
  induction h with
  | leaf => exact hleaf.resolve_eq
  | array hbase h ih => exact resolve_array (isArrayBase_iff.mpr hbase) (h.ne_tuple hleaf) ih

/-- What has a type is subscripts around a leaf. -/
theorem exists_nested_of_resolve (h : a.resolve = .ok ty) :
    ∃ n leaf element spelling, Nested leaf n a ∧ IsLeaf leaf element spelling := by
  fun_induction resolve a generalizing ty with
  | case1 => exact ⟨0, _, _, _, .leaf, .null⟩
  | case2 base elements => exact ⟨0, _, _, _, .leaf, .tuple base elements⟩
  | case3 base index htuple hbase ih =>
    obtain ⟨element, helement, -⟩ := bind_eq_ok.mp h
    obtain ⟨n, leaf, element, spelling, hnested, hleaf⟩ := ih (mapError_eq_ok.mp helement)
    exact ⟨n + 1, leaf, element, spelling, .array (isArrayBase_iff.mp hbase) hnested, hleaf⟩
  | case4 => cases h
  | case5 => exact ⟨0, _, _, _, .leaf, .int⟩
  | case6 => exact ⟨0, _, _, _, .leaf, .float⟩
  | case7 => cases h
  | case8 => cases h

theorem exists_resolve_iff : (∃ ty, a.resolve = .ok ty) ↔
    ∃ n leaf ty spelling, Nested leaf n a ∧ IsLeaf leaf ty spelling := by
  constructor
  · rintro ⟨ty, hty⟩
    exact exists_nested_of_resolve hty
  · rintro ⟨n, leaf, ty, spelling, hnested, hleaf⟩
    exact ⟨Ty.pointers n ty, hnested.resolve_eq hleaf⟩

/-! ## What is told of the others -/

/-- An annotation without a type fails with its own text. -/
theorem resolve_eq_error {e : UnsupportedHint} (h : a.resolve = .error e) : e = .of a := by
  fun_induction resolve a generalizing e with
  | case1 | case2 | case5 | case6 => cases h
  | case3 base index htuple hbase ih =>
    -- the text of the element, which `ih` gives, is not the one that is told
    rcases bind_eq_error.mp h with hindex | ⟨element, -, hrest⟩
    · obtain ⟨inner, -, rfl⟩ := mapError_eq_error.mp hindex
      rfl
    · cases hrest
  | case4 | case7 | case8 =>
    cases h
    rfl

theorem resolve?_eq_some : a.resolve? = some ty ↔ a.resolve = .ok ty := toOption_eq_some

theorem resolve?_eq_none : a.resolve? = none ↔ a.resolve = .error (.of a) := by
  rw [resolve?, toOption_eq_none]
  constructor
  · rintro ⟨e, he⟩
    rw [he, resolve_eq_error he]
  · intro h
    exact ⟨_, h⟩

/-! ## Parts of annotations -/

/-- An annotation, or what stands inside it at any depth. -/
inductive PartOf (p : Hint) : Hint → Prop
  | self : PartOf p p
  | index {base : String} {a : Hint} (h : PartOf p a) : PartOf p (.subscript base a)
  | element {elements : List Hint} {a : Hint} (ha : a ∈ elements) (h : PartOf p a) :
      PartOf p (.tuple elements)

theorem displayAll_eq_map (as : List Hint) : displayAll as = as.map display := by
  induction as with
  | nil => rfl
  | cons a as ih => rw [displayAll, ih, List.map_cons]

theorem length_le_length_intercalate {s : String} {texts : List String} (h : s ∈ texts) :
    s.length ≤ (", ".intercalate texts).length := by
  induction texts with
  | nil => cases h
  | cons t texts ih =>
    cases texts with
    | nil => simp_all
    | cons u texts =>
      rw [String.intercalate_cons_cons, String.length_append, String.length_append]
      obtain rfl | h := List.mem_cons.mp h
      · omega
      · have := ih h
        omega

theorem PartOf.length_display_le {p : Hint} (h : PartOf p a) : p.display.length ≤ a.display.length := by
  induction h with
  | self => exact Nat.le_refl _
  | index h ih =>
    rw [display, String.length_append, String.length_append]
    omega
  | @element elements a ha h ih =>
    rw [display, displayAll_eq_map]
    exact Nat.le_trans ih (length_le_length_intercalate (List.mem_map_of_mem ha))

/-- The text of a subscript is not the text of anything inside it. Tuples are not like that, as a tuple of
one has the text of its element. -/
theorem PartOf.display_ne {p index : Hint} (h : PartOf p index) (base : String) :
    p.display ≠ (subscript base index).display := by
  intro heq
  have hlength := h.length_display_le
  have hbracket : "[".length = 1 := rfl
  rw [heq, display, String.length_append, String.length_append, String.length_append] at hlength
  omega

end Source.Hint

/-! ## Annotations with and without a type -/

open Source.Hint (IsLeaf Nested PartOf)
open Target (Ty)

theorem lowerHint_eq_ok {line : LineNumber} {a : Source.Hint} {ty : Ty} :
    lowerHint line a = .ok ty ↔ a.resolve? = some ty := by
  rw [lowerHint, mapError_eq_ok, Source.Hint.resolve?_eq_some]

theorem lowerHint_eq_error {line : LineNumber} {a : Source.Hint} {e : LoweringError}
    (h : lowerHint line a = .error e) :
    a.resolve? = none ∧ e = ⟨.unsupportedHint (.of a), line⟩ := by
  obtain ⟨e', he', rfl⟩ := mapError_eq_error.mp h
  obtain rfl := Source.Hint.resolve_eq_error he'
  exact ⟨Source.Hint.resolve?_eq_none.mpr he', rfl⟩

/-- An annotation has a type exactly if it is array subscripts around a leaf, and the type is as many
pointers around that of the leaf. Any other one fails with the text of the whole: the text of what stands
inside a subscript is never that of the subscript. -/
theorem lowerHint_exact (a : Source.Hint) :
    ((∃ ty, a.resolve = .ok ty) ↔
      ∃ n leaf ty spelling, Nested leaf n a ∧ IsLeaf leaf ty spelling) ∧
    (∀ n leaf ty spelling, Nested leaf n a → IsLeaf leaf ty spelling →
      a.resolve = .ok (Ty.pointers n ty) ∧
      (∀ line, lowerHint line a = .ok (Ty.pointers n ty)) ∧
      ∀ name, (Ty.pointers n ty).declarator name = spelling ++ " " ++ Ty.stars n ++ name) ∧
    ((¬ ∃ n leaf ty spelling, Nested leaf n a ∧ IsLeaf leaf ty spelling) →
      ∃ e, a.resolve = .error e ∧ e.text = a.display ∧
        ∀ line, lowerHint line a = .error ⟨.unsupportedHint e, line⟩ ∧
          LoweringError.message ⟨.unsupportedHint e, line⟩ =
            "unsupported type annotation `" ++ a.display ++ "`" ++
              (" at line " ++ String.ofList (Nat.toDigits 10 line.toNat))) ∧
    ∀ base index, a = .subscript base index → ∀ p, PartOf p index → p.display ≠ a.display := by
  refine ⟨Source.Hint.exists_resolve_iff, ?_, ?_, ?_⟩
  · intro n leaf ty spelling hnested hleaf
    have hresolve := hnested.resolve_eq hleaf
    refine ⟨hresolve, fun line => mapError_eq_ok.mpr hresolve, fun name => ?_⟩
    rw [Ty.declarator_pointers hleaf.isPointer_eq, hleaf.text_eq]
  · intro hnone
    rw [← Source.Hint.exists_resolve_iff, ← exists_eq_error_iff] at hnone
    obtain ⟨e, he⟩ := hnone
    have htext := Source.Hint.resolve_eq_error he
    refine ⟨e, he, congrArg UnsupportedHint.text htext, fun line => ⟨?_, ?_⟩⟩
    · exact mapError_eq_error.mpr ⟨e, he, rfl⟩
    · rw [htext]
      rfl
  · rintro base index rfl p hp
    exact hp.display_ne base

/-- An array of views of tuples, and an array of arrays of what has no type. -/
theorem lowerHint_exact_arrays :
    (Source.Hint.subscript "Array" (.subscript "view" (.subscript "tuple"
      (.tuple [.name "float", .name "int"])))).resolve = .ok (.pointer (.pointer .tuple)) ∧
    (Ty.pointer (.pointer .tuple)).declarator "x" = "TUPLE **x" ∧
    ∃ e, (Source.Hint.subscript "Array" (.subscript "view" (.name "complex"))).resolve = .error e ∧
      e.text = "Array[view[complex]]" := by
  obtain ⟨hresolve, -, hdeclarator⟩ := (lowerHint_exact _).2.1 2 _ _ _
    (.array (.inl rfl) (.array (.inr rfl) .leaf)) (.tuple "tuple" [.name "float", .name "int"])
  obtain ⟨hexists, -, herror, -⟩ :=
    lowerHint_exact (.subscript "Array" (.subscript "view" (.name "complex")))
  have hfails : ¬ ∃ ty,
      (Source.Hint.subscript "Array" (.subscript "view" (.name "complex"))).resolve = .ok ty := by
    rintro ⟨ty, hty⟩
    cases hty
  obtain ⟨e, he, htext, -⟩ := herror (hexists.not.mp hfails)
  exact ⟨hresolve, (hdeclarator "x").trans (by decide), e, he, htext.trans (by decide)⟩

end AnnotatedToC
