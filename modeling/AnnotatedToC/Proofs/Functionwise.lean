import AnnotatedToC.Compilation
import AnnotatedToC.Proofs.Lowered
import Mathlib.Data.List.Forall2

/-!
# Functions are compiled one by one

Going through a module and adding up what became of its functions is the same as compiling every function
alone: nothing is lost, nothing changes places, and what stands before or after a function does not
matter to it.
-/
namespace AnnotatedToC

def Source.Function.lowers (f : Source.Function) : Bool := (lowerFunction f).isOk

/-- What lowering a function alone says about it. -/
structure Diagnostic.IsOf (filename : Option String) (f : Source.Function) (d : Diagnostic) : Prop where
  function : d.function = f.name
  filename : d.filename = filename
  error : lowerFunction f = .error d.error

/-- What compiling a function alone says about it. -/
structure CompiledFunction.IsOf (style : LayoutStyle) (f : Source.Function) (c : CompiledFunction) :
    Prop where
  name : c.name = f.name
  tree : lowerFunction f = .ok c.tree
  text : compileFunction style f = .ok c.text

namespace LoweredFunction

structure IsOf (filename : Option String) (f : Source.Function) (l : LoweredFunction) : Prop where
  source : l.source = f
  tree : ∀ g, l.result = .ok g → lowerFunction f = .ok g
  diagnostic : ∀ d, l.result = .error d → d.IsOf filename f

def tree? (l : LoweredFunction) : Option Target.Function :=
  match l.result with
  | .ok g => some g
  | .error _ => none

def diagnostic? (l : LoweredFunction) : Option Diagnostic :=
  match l.result with
  | .ok _ => none
  | .error d => some d

variable {l : LoweredFunction} {g : Target.Function} {d : Diagnostic}

theorem tree?_of_ok (h : l.result = .ok g) : l.tree? = some g := by rw [tree?, h]

theorem tree?_of_error (h : l.result = .error d) : l.tree? = none := by rw [tree?, h]

theorem diagnostic?_of_ok (h : l.result = .ok g) : l.diagnostic? = none := by rw [diagnostic?, h]

theorem diagnostic?_of_error (h : l.result = .error d) : l.diagnostic? = some d := by
  rw [diagnostic?, h]

end LoweredFunction

/-! ## A function alone -/

section Function

variable {f : Source.Function} {g : Target.Function} {e : LoweringError}

theorem name_lowerFunction (h : lowerFunction f = .ok g) : g.name = f.name := by
  obtain ⟨ty, -, params, -, body, -, rfl⟩ := lowerFunction_eq_ok.mp h
  rfl

theorem Source.Function.lowers_of_ok (h : lowerFunction f = .ok g) : f.lowers = true := by
  rw [lowers, h]
  rfl

theorem Source.Function.lowers_of_error (h : lowerFunction f = .error e) : f.lowers = false := by
  rw [lowers, h]
  rfl

theorem CompiledFunction.isOf_of (style : LayoutStyle) (h : lowerFunction f = .ok g) :
    CompiledFunction.IsOf style f (.of style g) where
  name := name_lowerFunction h
  tree := h
  text := by
    rw [compileFunction, h]
    rfl

variable (filename : Option String)

theorem LoweredFunction.result_of_ok (h : lowerFunction f = .ok g) :
    (LoweredFunction.of filename f).result = .ok g := by
  rw [of, h]

theorem LoweredFunction.result_of_error (h : lowerFunction f = .error e) :
    (LoweredFunction.of filename f).result = .error ⟨f.name, filename, e⟩ := by
  rw [of, h]

theorem LoweredFunction.isOf_of (f : Source.Function) :
    LoweredFunction.IsOf filename f (.of filename f) := by
  refine ⟨rfl, ?_, ?_⟩
  · intro g hg
    cases h : lowerFunction f with
    | ok g' =>
      rw [result_of_ok filename h] at hg
      cases hg
      rfl
    | error e =>
      rw [result_of_error filename h] at hg
      cases hg
  · intro d hd
    cases h : lowerFunction f with
    | ok g =>
      rw [result_of_ok filename h] at hd
      cases hd
    | error e =>
      rw [result_of_error filename h] at hd
      cases hd
      exact ⟨rfl, rfl, h⟩

end Function

/-! ## Going through a module -/

section Module

variable (style : LayoutStyle) (filename : Option String)

theorem lowerItems_eq_map (items : List Source.Item) :
    lowerItems filename items = (items.filterMap Source.Item.function?).map (.of filename) := by
  induction items with
  | nil => rfl
  | cons item items ih =>
    cases item with
    | function f => exact congrArg (LoweredFunction.of filename f :: ·) ih
    | other construct line => exact ih

theorem lowerModule_eq_map (m : Source.Module) :
    lowerModule filename m = m.functions.map (.of (filename.or m.filename)) :=
  lowerItems_eq_map _ m.body

/-- Adding up keeps successes and failures apart, each in their order. -/
theorem foldl_add (t : Compilation) (ls : List LoweredFunction) :
    ls.foldl (.add style) t =
      ⟨t.functions ++ (ls.filterMap LoweredFunction.tree?).map (.of style),
        t.diagnostics ++ ls.filterMap LoweredFunction.diagnostic?⟩ := by
  induction ls generalizing t with
  | nil => simp
  | cons l ls ih =>
    rw [List.foldl_cons, ih]
    cases h : l.result with
    | ok g =>
      simp [Compilation.add, h, LoweredFunction.tree?_of_ok h, LoweredFunction.diagnostic?_of_ok h]
    | error d =>
      simp [Compilation.add, h, LoweredFunction.tree?_of_error h,
        LoweredFunction.diagnostic?_of_error h]

theorem functions_compileModule (m : Source.Module) :
    (compileModule style m).functions =
      ((lowerModule none m).filterMap LoweredFunction.tree?).map (.of style) := by
  rw [compileModule, foldl_add]
  exact List.nil_append _

theorem diagnostics_compileModule (m : Source.Module) : (compileModule style m).diagnostics =
    (lowerModule none m).filterMap LoweredFunction.diagnostic? := by
  rw [compileModule, foldl_add]
  exact List.nil_append _

theorem forall₂_compiled (fs : List Source.Function) :
    List.Forall₂ (CompiledFunction.IsOf style) (fs.filter Source.Function.lowers)
      (((fs.map (.of filename)).filterMap LoweredFunction.tree?).map (.of style)) := by
  induction fs with
  | nil => exact .nil
  | cons f fs ih =>
    rw [List.filter_cons, List.map_cons]
    cases h : lowerFunction f with
    | ok g =>
      have htree := LoweredFunction.tree?_of_ok (LoweredFunction.result_of_ok filename h)
      rw [if_pos (Source.Function.lowers_of_ok h), List.filterMap_cons_some htree, List.map_cons]
      exact .cons (CompiledFunction.isOf_of style h) ih
    | error e =>
      have htree := LoweredFunction.tree?_of_error (LoweredFunction.result_of_error filename h)
      rw [Source.Function.lowers_of_error h, List.filterMap_cons_none htree]
      exact ih

theorem forall₂_diagnostics (fs : List Source.Function) :
    List.Forall₂ (Diagnostic.IsOf filename) (fs.filter fun f => !f.lowers)
      ((fs.map (.of filename)).filterMap LoweredFunction.diagnostic?) := by
  induction fs with
  | nil => exact .nil
  | cons f fs ih =>
    rw [List.filter_cons, List.map_cons]
    cases h : lowerFunction f with
    | ok g =>
      have hnone := LoweredFunction.diagnostic?_of_ok (LoweredFunction.result_of_ok filename h)
      rw [Source.Function.lowers_of_ok h, List.filterMap_cons_none hnone]
      exact ih
    | error e =>
      have hsome := LoweredFunction.diagnostic?_of_error (LoweredFunction.result_of_error filename h)
      rw [Source.Function.lowers_of_error h, List.filterMap_cons_some hsome]
      exact .cons ⟨rfl, rfl, h⟩ ih

theorem forall₂_lowerModule (m : Source.Module) :
    List.Forall₂ (LoweredFunction.IsOf (filename.or m.filename)) m.functions
      (lowerModule filename m) := by
  rw [lowerModule_eq_map, List.forall₂_map_right_iff, List.forall₂_same]
  exact fun f _ => LoweredFunction.isOf_of _ f

/-- Items of a module can be cut in two. -/
theorem lowerModule_append (own : Option String) (b₁ b₂ : List Source.Item) :
    lowerModule filename ⟨own, b₁ ++ b₂⟩ =
      lowerModule filename ⟨own, b₁⟩ ++ lowerModule filename ⟨own, b₂⟩ := by
  simp only [lowerModule, lowerItems_eq_map, List.filterMap_append, List.map_append]

theorem functions_compileModule_append (own : Option String) (b₁ b₂ : List Source.Item) :
    (compileModule style ⟨own, b₁ ++ b₂⟩).functions =
      (compileModule style ⟨own, b₁⟩).functions ++ (compileModule style ⟨own, b₂⟩).functions := by
  simp only [functions_compileModule, lowerModule_append, List.filterMap_append, List.map_append]

theorem diagnostics_compileModule_append (own : Option String) (b₁ b₂ : List Source.Item) :
    (compileModule style ⟨own, b₁ ++ b₂⟩).diagnostics =
      (compileModule style ⟨own, b₁⟩).diagnostics ++ (compileModule style ⟨own, b₂⟩).diagnostics := by
  simp only [diagnostics_compileModule, lowerModule_append, List.filterMap_append]

theorem text_compileModule_append (own : Option String) (b₁ b₂ : List Source.Item) :
    (compileModule style ⟨own, b₁ ++ b₂⟩).text =
      (compileModule style ⟨own, b₁⟩).text ++ (compileModule style ⟨own, b₂⟩).text := by
  simp only [Compilation.text, functions_compileModule_append, List.map_append, String.join_append]

theorem lowerModule_congr {m m' : Source.Module} (hname : m.filename = m'.filename)
    (hfunctions : m.functions = m'.functions) : lowerModule filename m = lowerModule filename m' := by
  rw [lowerModule_eq_map, lowerModule_eq_map, hname, hfunctions]

end Module

/-- What a module is lowered and compiled to is put together, in order, from what each of its functions
is lowered and compiled to alone. -/
theorem compileModule_functionwise (style : LayoutStyle) (filename : Option String)
    (m : Source.Module) :
    List.Forall₂ (LoweredFunction.IsOf (filename.or m.filename)) m.functions
        (lowerModule filename m) ∧
      (compileModule style m).functions.map CompiledFunction.tree =
        (lowerModule none m).filterMap LoweredFunction.tree? ∧
      (compileModule style m).diagnostics =
        (lowerModule none m).filterMap LoweredFunction.diagnostic? ∧
      List.Forall₂ (CompiledFunction.IsOf style) (m.functions.filter Source.Function.lowers)
        (compileModule style m).functions ∧
      List.Forall₂ (Diagnostic.IsOf m.filename) (m.functions.filter fun f => !f.lowers)
        (compileModule style m).diagnostics ∧
      (∀ b₁ b₂, m.body = b₁ ++ b₂ →
        let t₁ := compileModule style ⟨m.filename, b₁⟩
        let t₂ := compileModule style ⟨m.filename, b₂⟩
        (compileModule style m).functions = t₁.functions ++ t₂.functions ∧
          (compileModule style m).diagnostics = t₁.diagnostics ++ t₂.diagnostics ∧
          (compileModule style m).text = t₁.text ++ t₂.text) ∧
      ∀ body, body.filterMap Source.Item.function? = m.functions →
        lowerModule filename ⟨m.filename, body⟩ = lowerModule filename m ∧
          compileModule style ⟨m.filename, body⟩ = compileModule style m := by
  refine ⟨forall₂_lowerModule filename m, ?_, diagnostics_compileModule style m, ?_, ?_, ?_, ?_⟩
  · rw [functions_compileModule, List.map_map]
    exact List.map_id _
  · rw [functions_compileModule, lowerModule_eq_map]
    exact forall₂_compiled style _ _
  · rw [diagnostics_compileModule, lowerModule_eq_map]
    exact forall₂_diagnostics _ _
  · rintro b₁ b₂ hbody
    obtain ⟨own, body⟩ := m
    obtain rfl : body = b₁ ++ b₂ := hbody
    exact ⟨functions_compileModule_append style own b₁ b₂,
      diagnostics_compileModule_append style own b₁ b₂, text_compileModule_append style own b₁ b₂⟩
  · intro body hbody
    have hlowered (filename : Option String) :
        lowerModule filename ⟨m.filename, body⟩ = lowerModule filename m :=
      lowerModule_congr filename rfl hbody
    refine ⟨hlowered filename, ?_⟩
    rw [compileModule, compileModule, hlowered]

/-- A function that cannot be lowered stands before an import and a function that can. -/
theorem compileModule_functionwise_mixed :
    let bad : Source.Function := ⟨"bad", [], none, [.unsupported 2 "While"], 1⟩
    let good : Source.Function := ⟨"good", [], none, [.ret 5 none], 4⟩
    let m : Source.Module := ⟨some "m.py", [.function bad, .other "Import" 3, .function good]⟩
    let t := compileModule .compact m
    (t.functions.map CompiledFunction.name = ["good"] ∧
        t.diagnostics.map Diagnostic.function = ["bad"]) ∧
      t.text = (compileModule .compact ⟨m.filename, [.function bad]⟩).text ++
        (compileModule .compact ⟨m.filename, [.other "Import" 3, .function good]⟩).text ∧
      compileModule .compact ⟨m.filename, [.function bad, .function good]⟩ = t := by
  intro bad good m t
  obtain ⟨-, -, -, -, -, happend, hothers⟩ := compileModule_functionwise .compact none m
  exact ⟨⟨rfl, rfl⟩, (happend [.function bad] _ rfl).2.2, (hothers _ rfl).2⟩

end AnnotatedToC
