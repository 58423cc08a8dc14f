import AnnotatedToC.Proofs.Nesting
import AnnotatedToC.Proofs.SourceCodec
import AnnotatedToC.Target.Decode
import Mathlib.Data.List.Forall2

/-!
# Target trees through JSON

The order of the members of an object means nothing, so a tree has many values that say the same. It is
read from each of them if its float literals are finite, and from none of them otherwise.
-/
namespace AnnotatedToC

namespace Json

/-! ## Values that say the same -/

/-- The same value, with the members of its objects in any order. -/
inductive Same : Json → Json → Prop
  | null : Same .null .null
  | bool (b : Bool) : Same (.bool b) (.bool b)
  | int (n : Int) : Same (.int n) (.int n)
  | double (d : Double) : Same (.double d) (.double d)
  | str (s : String) : Same (.str s) (.str s)
  | arr {xs ys : List Json} : List.Forall₂ Same xs ys → Same (.arr xs) (.arr ys)
  -- names and values are related apart, so that the recursion is only through lists of values
  | obj {ms ms' ns : List (String × Json)} : ms.map Prod.fst = ms'.map Prod.fst →
      List.Forall₂ Same (ms.map Prod.snd) (ms'.map Prod.snd) → ms'.Perm ns → Same (.obj ms) (.obj ns)

theorem Same.refl (j : Json) : Same j j := by
  induction j with
  | null => exact .null
  | bool b => exact .bool b
  | int n => exact .int n
  | double d => exact .double d
  | str s => exact .str s
  | arr elements ih => exact .arr (List.forall₂_same.mpr ih)
  | obj members ih => exact .obj rfl (List.forall₂_same.mpr (List.forall_mem_map.mpr ih)) (.refl members)

def SameMember (m n : String × Json) : Prop := m.1 = n.1 ∧ Same m.2 n.2

theorem forall₂_sameMember {ms ns : List (String × Json)} (hnames : ms.map Prod.fst = ns.map Prod.fst)
    (hvalues : List.Forall₂ Same (ms.map Prod.snd) (ns.map Prod.snd)) :
    List.Forall₂ SameMember ms ns := by
  induction ms generalizing ns with
  | nil =>
    cases ns with
    | nil => exact .nil
    | cons n ns => cases hnames
  | cons m ms ih =>
    cases ns with
    | nil => cases hnames
    | cons n ns =>
      obtain ⟨hname, hnames⟩ := List.cons.inj hnames
      obtain ⟨hvalue, hvalues⟩ := List.forall₂_cons.mp hvalues
      exact .cons ⟨hname, hvalue⟩ (ih hnames hvalues)

theorem Fields.find?_eq_some_some {α : Type} {fields : Fields α} {name : String} {x : α} :
    fields.find? name = some (some x) ↔ fields.filter (·.1 == name) = [(name, x)] := by
  have hname : ∀ m ∈ fields.filter (·.1 == name), m.1 = name := by simp
  unfold find?
  split
  · next h => simp [h]
  · next key y h =>
    rw [h] at hname
    obtain rfl : key = name := hname _ List.mem_cons_self
    simp [h]
  · next hnil hsingleton =>
    refine iff_of_false (by simp) fun h => hsingleton _ _ h

variable {ms ns : List (String × Json)} {name : String} {x j : Json}

theorem Same.exists_members (h : Same (.obj ms) j) : ∃ ns, j = .obj ns := by
  cases h with
  | obj hnames hvalues hperm => exact ⟨_, rfl⟩

theorem Same.find? (h : Same (.obj ms) (.obj ns)) (hx : Fields.find? ms name = some (some x)) :
    ∃ y, Fields.find? ns name = some (some y) ∧ Same x y := by
  cases h with
  | @obj _ ms' _ hnames hvalues hperm =>
    have hkeep (m n : String × Json) (h : SameMember m n) :
        (m.1 == name) = true ↔ (n.1 == name) = true := by
      rw [h.1]
    have hfilter := List.rel_filter hkeep (forall₂_sameMember hnames hvalues)
    rw [Fields.find?_eq_some_some.mp hx, List.forall₂_cons_left_iff] at hfilter
    obtain ⟨⟨key, y⟩, rest, ⟨hkey, hy⟩, hrest, hms'⟩ := hfilter
    obtain rfl := List.forall₂_nil_left_iff.mp hrest
    obtain rfl : name = key := hkey
    -- a permutation of one member is that member
    have hns := hperm.filter (·.1 == name)
    rw [hms', List.singleton_perm] at hns
    exact ⟨y, Fields.find?_eq_some_some.mpr hns.symm, hy⟩

/-- A case of a type is named by the only member of an object. -/
theorem Same.exists_case {tag : String} (h : Same (.obj [(tag, x)]) j) :
    ∃ y, j = .obj [(tag, y)] ∧ Same x y := by
  obtain ⟨ns, rfl⟩ := h.exists_members
  cases h with
  | @obj _ ms' _ hnames hvalues hperm =>
    have hmembers := forall₂_sameMember hnames hvalues
    obtain ⟨⟨key, y⟩, rest, ⟨hkey, hy⟩, hrest, rfl⟩ := List.forall₂_cons_left_iff.mp hmembers
    obtain rfl := List.forall₂_nil_left_iff.mp hrest
    obtain rfl : tag = key := hkey
    exact ⟨y, by rw [List.singleton_perm.mp hperm], hy⟩

/-! ## Reading -/

section Reads

variable {α : Type} {f : Json → Option α} {form : α → Json} {y z : α}

/-- A reader finds what a value says, however its members are ordered. -/
def Reads (f : Json → Option α) (x : Json) (y : α) : Prop := ∀ j, Same x j → f j = some y

theorem Reads.required (hf : Reads f x y) (h : Same (.obj ms) (.obj ns))
    (hx : Fields.find? ms name = some (some x)) : Fields.required ns name f = some y := by
  obtain ⟨j, hj, hsame⟩ := h.find? hx
  exact Fields.required_eq_some.mpr ⟨j, hj, hf j hsame⟩

theorem Reads.optional (hf : Reads f x y) (h : Same (.obj ms) (.obj ns))
    (hx : Fields.find? ms name = some (some x)) : Fields.optional ns name f z = some y := by
  obtain ⟨j, hj, hsame⟩ := h.find? hx
  exact Fields.optional_eq_some.mpr (.inr ⟨j, hj, hf j hsame⟩)

theorem Fields.apply_of_required (h : Fields.required ms name f = some y)
    (hx : Fields.find? ms name = some (some x)) : f x = some y := by
  obtain ⟨x', hx', h⟩ := Fields.required_eq_some.mp h
  rw [hx] at hx'
  cases hx'
  exact h

theorem Fields.apply_of_optional (h : Fields.optional ms name f z = some y)
    (hx : Fields.find? ms name = some (some x)) : f x = some y := by
  rcases Fields.optional_eq_some.mp h with ⟨hnone, -⟩ | ⟨x', hx', h⟩
  · rw [hx] at hnone
    cases hnone
  · rw [hx] at hx'
    cases hx'
    exact h

theorem reads_str (s : String) : Reads str? (.str s) s := by
  intro j h
  cases h
  rfl

theorem reads_list? {xs : List α} (hf : ∀ x ∈ xs, Reads f (form x) x) :
    Reads (list? f) (.arr (xs.map form)) xs := by
  intro j h
  cases h with
  | @arr _ js hsame =>
    change js.mapM f = some xs
    induction xs generalizing js with
    | nil =>
      obtain rfl := List.forall₂_nil_left_iff.mp hsame
      rfl
    | cons x xs ih =>
      obtain ⟨j, js, hj, hjs, rfl⟩ := List.forall₂_cons_left_iff.mp hsame
      rw [List.forall_mem_cons] at hf
      simp [hf.1 j hj, ih hf.2 hjs]

theorem reads_nullable? {x? : Option α} (hnull : ∀ x, ¬ Same (form x) .null)
    (hf : ∀ x ∈ x?, Reads f (form x) x) : Reads (nullable? f) (.ofOption form x?) x? := by
  intro j h
  cases x? with
  | none =>
    cases h
    rfl
  | some x =>
    have hj : j ≠ .null := by
      rintro rfl
      exact hnull x h
    rw [nullable?.eq_2 f j hj, hf x rfl j h, Option.map_some]

theorem exists_of_list? {xs ys : List α} (h : list? f (.arr (xs.map form)) = some ys) :
    ∀ x ∈ xs, ∃ y, f (form x) = some y := by
  change (xs.map form).mapM f = some ys at h
  induction xs generalizing ys with
  | nil => exact List.forall_mem_nil _
  | cons x xs ih =>
    simp only [List.map_cons, List.mapM_cons, bind, Option.bind_eq_some_iff] at h
    obtain ⟨y, hy, ys, hys, -⟩ := h
    exact List.forall_mem_cons.mpr ⟨⟨y, hy⟩, ih hys⟩

theorem exists_of_nullable? {x? y? : Option α} (h : nullable? f (.ofOption form x?) = some y?)
    (hnull : ∀ x, ¬ Same (form x) .null) : ∀ x ∈ x?, ∃ y, f (form x) = some y := by
  rintro x rfl
  have hx : form x ≠ .null := fun hx => hnull x (hx ▸ Same.refl _)
  rw [ofOption, nullable?.eq_2 f _ hx] at h
  obtain ⟨y, hy, -⟩ := Option.map_eq_some_iff.mp h
  exact ⟨y, hy⟩

end Reads

end Json

namespace Target

open Json

/-! ## Types, operators and literals -/

theorem Ty.reads_toJson (t : Ty) : Reads Ty.ofJson? t.toJson t := by
  induction t with
  | pointer element ih =>
    intro j h
    obtain ⟨j, rfl, hj⟩ := h.exists_case
    rw [Ty.ofJson?, ih j hj, Option.map_some]
  | _ =>
    intro j h
    cases h
    rfl

theorem Operator.reads_toJson (op : Operator) : Reads Operator.ofJson? op.toJson op := by
  intro j h
  cases h
  cases op <;> rfl

theorem Literal.reads_toJson {x : Literal} (hx : ∀ d ∈ (Expr.literal x).floats, d.isFinite = true) :
    Reads Literal.ofJson? x.toJson x := by
  intro j h
  cases x with
  | int value =>
    obtain ⟨j, rfl, hj⟩ := h.exists_case
    cases hj
    rw [Literal.ofJson?, Source.int64?_toInt, Option.map_some]
  | float value =>
    obtain ⟨j, rfl, hj⟩ := h.exists_case
    rw [ofDouble, if_pos (hx value List.mem_cons_self)] at hj
    cases hj
    rfl
  | bool value =>
    obtain ⟨j, rfl, hj⟩ := h.exists_case
    cases hj
    rfl
  | str value =>
    obtain ⟨j, rfl, hj⟩ := h.exists_case
    cases hj
    rfl

theorem Literal.isFinite_of_ofJson? {x y : Literal} (h : Literal.ofJson? x.toJson = some y) :
    ∀ d ∈ (Expr.literal x).floats, d.isFinite = true := by
  cases x with
  | float value =>
    intro d hd
    obtain rfl := List.mem_singleton.mp hd
    by_contra hd
    rw [Literal.toJson, ofDouble, if_neg hd] at h
    cases h
  | _ => exact List.forall_mem_nil _

/-! ## Expressions -/

theorem exprsToJson_eq_map (es : List Expr) : exprsToJson es = es.map Expr.toJson := by
  induction es with
  | nil => rfl
  | cons e es ih => rw [exprsToJson, ih, List.map_cons]

theorem exprsOfJson?_eq_mapM (js : List Json) : exprsOfJson? js = js.mapM Expr.ofJson? := by
  induction js with
  | nil => simp [exprsOfJson?]
  | cons j js ih => simp [exprsOfJson?, ih]

theorem exprListOfJson?_eq (j : Json) : exprListOfJson? j = list? Expr.ofJson? j := by
  cases j <;> simp [exprListOfJson?, list?, arr?, exprsOfJson?_eq_mapM]

/-- What a member of an expression may be. -/
def ExprField.ofJson (j : Json) : ExprField := ⟨j, Expr.ofJson? j, list? Expr.ofJson? j⟩

theorem ExprField.expr_comp : ExprField.expr ∘ ExprField.ofJson = Expr.ofJson? := rfl

theorem ExprField.exprs_comp : ExprField.exprs ∘ ExprField.ofJson = list? Expr.ofJson? := rfl

theorem exprFields_eq_map (members : List (String × Json)) :
    exprFields members = members.map (Prod.map id ExprField.ofJson) := by
  induction members with
  | nil => rfl
  | cons m members ih =>
    rw [exprFields, ih, exprListOfJson?_eq]
    rfl

theorem ExprField.raw_map (members : List (String × Json)) :
    ExprField.raw (members.map (Prod.map id ExprField.ofJson)) = members := by
  rw [ExprField.raw, List.map_map]
  exact List.map_id members

def Expr.tag : Expr → String
  | .identifier _ => "Identifier"
  | .literal _ => "Literal"
  | .binary _ _ _ => "BinaryExpr"
  | .index _ _ => "IndexExpr"
  | .call _ _ => "CallExpr"
  | .ternary _ _ _ => "TernaryExpr"
  | .compound _ _ => "CompoundLiteralExpr"

/-- The fields of an expression with named fields are among some members. -/
def Expr.FieldsIn (members : Fields Json) : Expr → Prop
  | .identifier _ | .literal _ => False
  | .binary op left right =>
    members.required "op" Operator.ofJson? = some op ∧
      members.required "left" Expr.ofJson? = some left ∧
      members.required "right" Expr.ofJson? = some right
  | .index base position =>
    members.required "base" Expr.ofJson? = some base ∧
      members.required "index" Expr.ofJson? = some position
  | .call callee args =>
    members.required "callee" str? = some callee ∧
      members.required "args" (list? Expr.ofJson?) = some args
  | .ternary cond thenExpr elseExpr =>
    members.required "cond" Expr.ofJson? = some cond ∧
      members.required "then_expr" Expr.ofJson? = some thenExpr ∧
      members.required "else_expr" Expr.ofJson? = some elseExpr
  | .compound ty elements =>
    members.required "ty" Ty.ofJson? = some ty ∧
      members.required "elements" (list? Expr.ofJson?) = some elements

theorem Expr.ofJson?_eq_some {tag : String} (hidentifier : tag ≠ "Identifier")
    (hliteral : tag ≠ "Literal") {members : List (String × Json)} {e : Expr} :
    Expr.ofJson? (.obj [(tag, .obj members)]) = some e ↔ tag = e.tag ∧ e.FieldsIn members := by
  rw [Expr.ofJson?.eq_3 tag _ hidentifier hliteral, exprOfCase?, exprFields_eq_map]
  simp only [Expr.ofFields?, ExprField.raw_map, Fields.required_map, ExprField.expr_comp,
    ExprField.exprs_comp]
  constructor
  · intro h
    split at h
    all_goals simp only [bind, Option.bind_eq_some_iff, pure, Option.some.injEq, reduceCtorEq] at h
    · obtain ⟨op, hop, left, hleft, right, hright, rfl⟩ := h
      exact ⟨rfl, hop, hleft, hright⟩
    · obtain ⟨base, hbase, index, hindex, rfl⟩ := h
      exact ⟨rfl, hbase, hindex⟩
    · obtain ⟨callee, hcallee, args, hargs, rfl⟩ := h
      exact ⟨rfl, hcallee, hargs⟩
    · obtain ⟨cond, hcond, thenExpr, hthen, elseExpr, helse, rfl⟩ := h
      exact ⟨rfl, hcond, hthen, helse⟩
    · obtain ⟨ty, hty, elements, helements, rfl⟩ := h
      exact ⟨rfl, hty, helements⟩
  · rintro ⟨rfl, hfields⟩
    cases e <;> simp_all [Expr.FieldsIn, Expr.tag]

theorem Expr.reads_of_fieldsIn {e : Expr} {fields : List (String × Json)}
    (hjson : e.toJson = .obj [(e.tag, .obj fields)])
    (hfields : ∀ members, Same (.obj fields) (.obj members) → e.FieldsIn members) :
    Reads Expr.ofJson? e.toJson e := by
  intro j h
  rw [hjson] at h
  obtain ⟨j, rfl, hj⟩ := h.exists_case
  obtain ⟨members, rfl⟩ := hj.exists_members
  have hmembers := hfields members hj
  cases e with
  | identifier name => exact hmembers.elim
  | literal value => exact hmembers.elim
  | _ => exact (Expr.ofJson?_eq_some (by simp [Expr.tag]) (by simp [Expr.tag])).mpr ⟨rfl, hmembers⟩

theorem reads_exprsToJson {es : List Expr} (hes : ∀ e ∈ es, Reads Expr.ofJson? e.toJson e) :
    Reads (list? Expr.ofJson?) (.arr (exprsToJson es)) es := by
  rw [exprsToJson_eq_map]
  exact reads_list? hes

theorem Expr.reads_toJson {e : Expr} (he : ∀ d ∈ e.floats, d.isFinite = true) :
    Reads Expr.ofJson? e.toJson e := by
  induction e with
  | identifier name =>
    intro j h
    obtain ⟨j, rfl, hj⟩ := h.exists_case
    cases hj
    rfl
  | literal value =>
    intro j h
    obtain ⟨j, rfl, hj⟩ := h.exists_case
    rw [Expr.ofJson?, Literal.reads_toJson he j hj, Option.map_some]
  | binary op left right ihleft ihright =>
    rw [Expr.floats, List.forall_mem_append] at he
    exact Expr.reads_of_fieldsIn rfl fun _ h => ⟨op.reads_toJson.required h (by simp),
      (ihleft he.1).required h (by simp), (ihright he.2).required h (by simp)⟩
  | index base index ihbase ihindex =>
    rw [Expr.floats, List.forall_mem_append] at he
    exact Expr.reads_of_fieldsIn rfl fun _ h =>
      ⟨(ihbase he.1).required h (by simp), (ihindex he.2).required h (by simp)⟩
  | call callee args ih =>
    rw [Expr.floats, forall_mem_floatsOf] at he
    have hargs := reads_exprsToJson fun e hmem => ih e hmem (he e hmem)
    exact Expr.reads_of_fieldsIn rfl fun _ h =>
      ⟨(reads_str callee).required h (by simp), hargs.required h (by simp)⟩
  | ternary cond thenExpr elseExpr ihcond ihthen ihelse =>
    rw [Expr.floats, List.forall_mem_append, List.forall_mem_append] at he
    exact Expr.reads_of_fieldsIn rfl fun _ h => ⟨(ihcond he.1).required h (by simp),
      (ihthen he.2.1).required h (by simp), (ihelse he.2.2).required h (by simp)⟩
  | compound ty elements ih =>
    rw [Expr.floats, forall_mem_floatsOf] at he
    have helements := reads_exprsToJson fun e hmem => ih e hmem (he e hmem)
    exact Expr.reads_of_fieldsIn rfl fun _ h =>
      ⟨ty.reads_toJson.required h (by simp), helements.required h (by simp)⟩

theorem isFinite_of_exprs {es es' : List Expr}
    (h : list? Expr.ofJson? (.arr (exprsToJson es)) = some es')
    (hes : ∀ e ∈ es, ∀ e', Expr.ofJson? e.toJson = some e' → ∀ d ∈ e.floats, d.isFinite = true) :
    ∀ d ∈ floatsOf es, d.isFinite = true := by
  rw [exprsToJson_eq_map] at h
  rw [forall_mem_floatsOf]
  intro e hmem
  obtain ⟨e', he'⟩ := exists_of_list? h e hmem
  exact hes e hmem e' he'

/-- An expression that can be read back at all has only finite floats. -/
theorem Expr.isFinite_of_ofJson? {e e' : Expr} (h : Expr.ofJson? e.toJson = some e') :
    ∀ d ∈ e.floats, d.isFinite = true := by
  induction e generalizing e' with
  | identifier name => exact List.forall_mem_nil _
  | literal value =>
    obtain ⟨x, hx, -⟩ := Option.map_eq_some_iff.mp h
    exact Literal.isFinite_of_ofJson? hx
  | binary op left right ihleft ihright =>
    obtain ⟨htag, hfields⟩ := (Expr.ofJson?_eq_some (by simp) (by simp)).mp h
    cases e' with
    | binary op' left' right' =>
      obtain ⟨-, hleft, hright⟩ := hfields
      rw [Expr.floats, List.forall_mem_append]
      exact ⟨ihleft (Fields.apply_of_required hleft (by simp)),
        ihright (Fields.apply_of_required hright (by simp))⟩
    | _ => simp [Expr.tag] at htag
  | index base index ihbase ihindex =>
    obtain ⟨htag, hfields⟩ := (Expr.ofJson?_eq_some (by simp) (by simp)).mp h
    cases e' with
    | index base' index' =>
      obtain ⟨hbase, hindex⟩ := hfields
      rw [Expr.floats, List.forall_mem_append]
      exact ⟨ihbase (Fields.apply_of_required hbase (by simp)),
        ihindex (Fields.apply_of_required hindex (by simp))⟩
    | _ => simp [Expr.tag] at htag
  | call callee args ih =>
    obtain ⟨htag, hfields⟩ := (Expr.ofJson?_eq_some (by simp) (by simp)).mp h
    cases e' with
    | call callee' args' =>
      exact isFinite_of_exprs (Fields.apply_of_required hfields.2 (by simp)) fun e hmem e' => ih e hmem
    | _ => simp [Expr.tag] at htag
  | ternary cond thenExpr elseExpr ihcond ihthen ihelse =>
    obtain ⟨htag, hfields⟩ := (Expr.ofJson?_eq_some (by simp) (by simp)).mp h
    cases e' with
    | ternary cond' thenExpr' elseExpr' =>
      obtain ⟨hcond, hthen, helse⟩ := hfields
      rw [Expr.floats, List.forall_mem_append, List.forall_mem_append]
      exact ⟨ihcond (Fields.apply_of_required hcond (by simp)),
        ihthen (Fields.apply_of_required hthen (by simp)),
        ihelse (Fields.apply_of_required helse (by simp))⟩
    | _ => simp [Expr.tag] at htag
  | compound ty elements ih =>
    obtain ⟨htag, hfields⟩ := (Expr.ofJson?_eq_some (by simp) (by simp)).mp h
    cases e' with
    | compound ty' elements' =>
      exact isFinite_of_exprs (Fields.apply_of_required hfields.2 (by simp)) fun e hmem e' => ih e hmem
    | _ => simp [Expr.tag] at htag

theorem Expr.not_same_null (e : Expr) : ¬ Same e.toJson .null := by
  intro h
  cases e <;> cases h

theorem reads_optionalExpr {e? : Option Expr} (he : ∀ d ∈ floatsOf e?.toList, d.isFinite = true) :
    Reads (nullable? Expr.ofJson?) (.ofOption Expr.toJson e?) e? := by
  rw [forall_mem_floatsOf] at he
  exact reads_nullable? Expr.not_same_null fun e hmem =>
    Expr.reads_toJson (he e (Option.mem_toList.mpr hmem))

theorem isFinite_of_optionalExpr {e? y? : Option Expr}
    (h : nullable? Expr.ofJson? (.ofOption Expr.toJson e?) = some y?) :
    ∀ d ∈ floatsOf e?.toList, d.isFinite = true := by
  rw [forall_mem_floatsOf]
  intro e hmem
  obtain ⟨e', he'⟩ := exists_of_nullable? h Expr.not_same_null e (Option.mem_toList.mp hmem)
  exact Expr.isFinite_of_ofJson? he'

/-! ## Declarations and updates -/

def Declaration.floats (d : Declaration) : List Double := floatsOf d.init.toList

theorem Declaration.ofJson?_eq_some {members : List (String × Json)} {d : Declaration} :
    Declaration.ofJson? (.obj members) = some d ↔
      Fields.required members "name" str? = some d.name ∧
        Fields.required members "ty" Ty.ofJson? = some d.ty ∧
        Fields.optional members "init" (nullable? Expr.ofJson?) none = some d.init := by
  simp only [Declaration.ofJson?, allFields?, bind, Option.bind_eq_some_iff, pure, Option.some.injEq,
    exists_eq_left']
  constructor
  · rintro ⟨name, hname, ty, hty, init, hinit, rfl⟩
    exact ⟨hname, hty, hinit⟩
  · rintro ⟨hname, hty, hinit⟩
    exact ⟨_, hname, _, hty, _, hinit, rfl⟩

theorem Declaration.reads_toJson {d : Declaration} (hd : ∀ x ∈ d.floats, x.isFinite = true) :
    Reads Declaration.ofJson? d.toJson d := by
  intro j h
  obtain ⟨members, rfl⟩ := h.exists_members
  exact Declaration.ofJson?_eq_some.mpr ⟨(reads_str d.name).required h (by simp),
    d.ty.reads_toJson.required h (by simp), (reads_optionalExpr hd).optional h (by simp)⟩

theorem Declaration.isFinite_of_ofJson? {d d' : Declaration} (h : Declaration.ofJson? d.toJson = some d') :
    ∀ x ∈ d.floats, x.isFinite = true := by
  obtain ⟨-, -, hinit⟩ := Declaration.ofJson?_eq_some.mp h
  exact isFinite_of_optionalExpr (Fields.apply_of_optional hinit (by simp))

def Update.floats (u : Update) : List Double := u.target.floats ++ u.value.floats

theorem Update.ofJson?_eq_some {members : List (String × Json)} {u : Update} :
    Update.ofJson? (.obj members) = some u ↔
      Fields.required members "operator" Operator.ofJson? = some u.operator ∧
        Fields.required members "target" Expr.ofJson? = some u.target ∧
        Fields.required members "value" Expr.ofJson? = some u.value := by
  simp only [Update.ofJson?, allFields?, bind, Option.bind_eq_some_iff, pure, Option.some.injEq,
    exists_eq_left']
  constructor
  · rintro ⟨operator, hoperator, target, htarget, value, hvalue, rfl⟩
    exact ⟨hoperator, htarget, hvalue⟩
  · rintro ⟨hoperator, htarget, hvalue⟩
    exact ⟨_, hoperator, _, htarget, _, hvalue, rfl⟩

theorem Update.reads_toJson {u : Update} (hu : ∀ d ∈ u.floats, d.isFinite = true) :
    Reads Update.ofJson? u.toJson u := by
  rw [Update.floats, List.forall_mem_append] at hu
  intro j h
  obtain ⟨members, rfl⟩ := h.exists_members
  exact Update.ofJson?_eq_some.mpr ⟨u.operator.reads_toJson.required h (by simp),
    (Expr.reads_toJson hu.1).required h (by simp), (Expr.reads_toJson hu.2).required h (by simp)⟩

theorem Update.isFinite_of_ofJson? {u u' : Update} (h : Update.ofJson? u.toJson = some u') :
    ∀ d ∈ u.floats, d.isFinite = true := by
  obtain ⟨-, htarget, hvalue⟩ := Update.ofJson?_eq_some.mp h
  rw [Update.floats, List.forall_mem_append]
  exact ⟨Expr.isFinite_of_ofJson? (Fields.apply_of_required htarget (by simp)),
    Expr.isFinite_of_ofJson? (Fields.apply_of_required hvalue (by simp))⟩

/-! ## Statements -/

mutual

def Stmt.floats : Stmt → List Double
  | .declaration d => d.floats
  | .update u => u.floats
  | .conditional cond thenBranch elseBranch =>
    cond.floats ++ (blockFloats thenBranch ++ elseFloats elseBranch)
  | .loop init cond next body => init.floats ++ (cond.floats ++ (next.floats ++ blockFloats body))
  | .ret value => floatsOf value.toList

def elseFloats : Option (List Stmt) → List Double
  | none => []
  | some body => blockFloats body

def blockFloats : List Stmt → List Double
  | [] => []
  | s :: ss => s.floats ++ blockFloats ss

end

theorem forall_mem_blockFloats {p : Double → Prop} {ss : List Stmt} :
    (∀ d ∈ blockFloats ss, p d) ↔ ∀ s ∈ ss, ∀ d ∈ s.floats, p d := by
  induction ss with
  | nil => simp [blockFloats]
  | cons s ss ih => rw [blockFloats, List.forall_mem_append, List.forall_mem_cons, ih]

theorem forall_mem_elseFloats {p : Double → Prop} {body? : Option (List Stmt)} :
    (∀ d ∈ elseFloats body?, p d) ↔ ∀ body ∈ body?, ∀ s ∈ body, ∀ d ∈ s.floats, p d := by
  cases body? with
  | none => simp [elseFloats]
  | some body => simp [elseFloats, forall_mem_blockFloats]

theorem stmtsToJson_eq_map (ss : List Stmt) : stmtsToJson ss = ss.map Stmt.toJson := by
  induction ss with
  | nil => rfl
  | cons s ss ih => rw [stmtsToJson, ih, List.map_cons]

theorem stmtsOfJson?_eq_mapM (js : List Json) : stmtsOfJson? js = js.mapM Stmt.ofJson? := by
  induction js with
  | nil => simp [stmtsOfJson?]
  | cons j js ih => simp [stmtsOfJson?, ih]

theorem stmtListOfJson?_eq (j : Json) : stmtListOfJson? j = list? Stmt.ofJson? j := by
  cases j <;> simp [stmtListOfJson?, list?, arr?, stmtsOfJson?_eq_mapM]

/-- What a member of a statement may be. -/
def StmtField.ofJson (j : Json) : StmtField := ⟨j, list? Stmt.ofJson? j⟩

theorem StmtField.stmts_comp : StmtField.stmts ∘ StmtField.ofJson = list? Stmt.ofJson? := rfl

theorem StmtField.branch?_comp :
    StmtField.branch? ∘ StmtField.ofJson = nullable? (list? Stmt.ofJson?) := by
  funext j
  cases j <;> rfl

theorem stmtFields_eq_map (members : List (String × Json)) :
    stmtFields members = members.map (Prod.map id StmtField.ofJson) := by
  induction members with
  | nil => rfl
  | cons m members ih =>
    rw [stmtFields, ih, stmtListOfJson?_eq]
    rfl

theorem StmtField.raw_map (members : List (String × Json)) :
    StmtField.raw (members.map (Prod.map id StmtField.ofJson)) = members := by
  rw [StmtField.raw, List.map_map]
  exact List.map_id members

theorem conditionalOfJson?_eq_some {members : List (String × Json)} {s : Stmt} :
    conditionalOfJson? (.obj members) = some s ↔
      ∃ cond, Fields.required members "cond" Expr.ofJson? = some cond ∧
      ∃ thenBranch, Fields.required members "then_branch" (list? Stmt.ofJson?) = some thenBranch ∧
      ∃ elseBranch, Fields.optional members "else_branch" (nullable? (list? Stmt.ofJson?)) none =
        some elseBranch ∧ .conditional cond thenBranch elseBranch = s := by
  rw [conditionalOfJson?, stmtFields_eq_map]
  simp only [Stmt.conditionalOfFields?, StmtField.raw_map, Fields.required_map, Fields.optional_map,
    StmtField.stmts_comp, StmtField.branch?_comp, bind, Option.bind_eq_some_iff, pure, Option.some.injEq]

theorem loopOfJson?_eq_some {members : List (String × Json)} {s : Stmt} :
    loopOfJson? (.obj members) = some s ↔
      ∃ init, Fields.required members "init" Declaration.ofJson? = some init ∧
      ∃ cond, Fields.required members "cond" Expr.ofJson? = some cond ∧
      ∃ next, Fields.required members "next" Update.ofJson? = some next ∧
      ∃ body, Fields.required members "body" (list? Stmt.ofJson?) = some body ∧
        .loop init cond next body = s := by
  rw [loopOfJson?, stmtFields_eq_map]
  simp only [Stmt.loopOfFields?, StmtField.raw_map, Fields.required_map, StmtField.stmts_comp, bind,
    Option.bind_eq_some_iff, pure, Option.some.injEq]

theorem reads_stmtsToJson {ss : List Stmt} (hss : ∀ s ∈ ss, Reads Stmt.ofJson? s.toJson s) :
    Reads (list? Stmt.ofJson?) (.arr (stmtsToJson ss)) ss := by
  rw [stmtsToJson_eq_map]
  exact reads_list? hss

theorem isFinite_of_stmts {ss ss' : List Stmt}
    (h : list? Stmt.ofJson? (.arr (stmtsToJson ss)) = some ss')
    (hss : ∀ s ∈ ss, ∀ s', Stmt.ofJson? s.toJson = some s' → ∀ d ∈ s.floats, d.isFinite = true) :
    ∀ d ∈ blockFloats ss, d.isFinite = true := by
  rw [stmtsToJson_eq_map] at h
  rw [forall_mem_blockFloats]
  intro s hmem
  obtain ⟨s', hs'⟩ := exists_of_list? h s hmem
  exact hss s hmem s' hs'

theorem elseToJson_eq (body? : Option (List Stmt)) :
    elseToJson body? = .ofOption (fun body => .arr (stmtsToJson body)) body? := by
  cases body? <;> rfl

theorem not_same_arr_null (xs : List Json) : ¬ Same (.arr xs) .null := by
  intro h
  cases h

theorem Stmt.reads_toJson {s : Stmt} (hs : ∀ d ∈ s.floats, d.isFinite = true) :
    Reads Stmt.ofJson? s.toJson s := by
  induction s with
  | declaration d =>
    intro j h
    obtain ⟨j, rfl, hj⟩ := h.exists_case
    rw [Stmt.ofJson?, Declaration.reads_toJson hs j hj, Option.map_some]
  | update u =>
    intro j h
    obtain ⟨j, rfl, hj⟩ := h.exists_case
    rw [Stmt.ofJson?, Update.reads_toJson hs j hj, Option.map_some]
  | conditional cond thenBranch elseBranch ihthen ihelse =>
    simp only [Stmt.floats, List.forall_mem_append, forall_mem_blockFloats, forall_mem_elseFloats] at hs
    obtain ⟨hcond, hthen, helse⟩ := hs
    have hthenBranch := reads_stmtsToJson fun s hmem => ihthen s hmem (hthen s hmem)
    have helseBranch : Reads (nullable? (list? Stmt.ofJson?)) (elseToJson elseBranch) elseBranch := by
      rw [elseToJson_eq]
      exact reads_nullable? (fun body => not_same_arr_null _) fun body hbody =>
        reads_stmtsToJson fun s hmem => ihelse body hbody s hmem (helse body hbody s hmem)
    intro j h
    obtain ⟨j, rfl, hj⟩ := h.exists_case
    obtain ⟨members, rfl⟩ := hj.exists_members
    rw [Stmt.ofJson?]
    exact conditionalOfJson?_eq_some.mpr ⟨cond, (Expr.reads_toJson hcond).required hj (by simp),
      thenBranch, hthenBranch.required hj (by simp), elseBranch, helseBranch.optional hj (by simp), rfl⟩
  | loop init cond next body ih =>
    simp only [Stmt.floats, List.forall_mem_append, forall_mem_blockFloats] at hs
    obtain ⟨hinit, hcond, hnext, hbody⟩ := hs
    have hbody := reads_stmtsToJson fun s hmem => ih s hmem (hbody s hmem)
    intro j h
    obtain ⟨j, rfl, hj⟩ := h.exists_case
    obtain ⟨members, rfl⟩ := hj.exists_members
    rw [Stmt.ofJson?]
    exact loopOfJson?_eq_some.mpr ⟨init, (Declaration.reads_toJson hinit).required hj (by simp),
      cond, (Expr.reads_toJson hcond).required hj (by simp),
      next, (Update.reads_toJson hnext).required hj (by simp), body, hbody.required hj (by simp), rfl⟩
  | ret value =>
    intro j h
    obtain ⟨j, rfl, hj⟩ := h.exists_case
    rw [Stmt.ofJson?, reads_optionalExpr hs j hj, Option.map_some]

/-- A statement that can be read back at all has only finite floats. -/
theorem Stmt.isFinite_of_ofJson? {s s' : Stmt} (h : Stmt.ofJson? s.toJson = some s') :
    ∀ d ∈ s.floats, d.isFinite = true := by
  induction s generalizing s' with
  | declaration d =>
    obtain ⟨d', hd', -⟩ := Option.map_eq_some_iff.mp h
    exact Declaration.isFinite_of_ofJson? hd'
  | update u =>
    obtain ⟨u', hu', -⟩ := Option.map_eq_some_iff.mp h
    exact Update.isFinite_of_ofJson? hu'
  | conditional cond thenBranch elseBranch ihthen ihelse =>
    rw [Stmt.toJson, Stmt.ofJson?] at h
    obtain ⟨cond', hcond, thenBranch', hthen, elseBranch', helse, -⟩ := conditionalOfJson?_eq_some.mp h
    rw [elseToJson_eq] at helse
    rw [Stmt.floats, List.forall_mem_append, List.forall_mem_append, forall_mem_elseFloats]
    refine ⟨Expr.isFinite_of_ofJson? (Fields.apply_of_required hcond (by simp)),
      isFinite_of_stmts (Fields.apply_of_required hthen (by simp)) fun s hmem s' => ihthen s hmem, ?_⟩
    intro body hbody
    have helse : nullable? (list? Stmt.ofJson?)
        (.ofOption (fun body => .arr (stmtsToJson body)) elseBranch) = some elseBranch' :=
      Fields.apply_of_optional helse (by simp)
    obtain ⟨body', hbody'⟩ := exists_of_nullable? helse (fun _ => not_same_arr_null _) body hbody
    exact forall_mem_blockFloats.mp (isFinite_of_stmts hbody' fun s hmem s' => ihelse body hbody s hmem)
  | loop init cond next body ih =>
    rw [Stmt.toJson, Stmt.ofJson?] at h
    obtain ⟨init', hinit, cond', hcond, next', hnext, body', hbody, -⟩ := loopOfJson?_eq_some.mp h
    simp only [Stmt.floats, List.forall_mem_append]
    exact ⟨Declaration.isFinite_of_ofJson? (Fields.apply_of_required hinit (by simp)),
      Expr.isFinite_of_ofJson? (Fields.apply_of_required hcond (by simp)),
      Update.isFinite_of_ofJson? (Fields.apply_of_required hnext (by simp)),
      isFinite_of_stmts (Fields.apply_of_required hbody (by simp)) fun s hmem s' => ih s hmem⟩
  | ret value =>
    obtain ⟨value', hvalue, -⟩ := Option.map_eq_some_iff.mp h
    exact isFinite_of_optionalExpr hvalue

/-! ## Functions and nodes -/

def Function.floats (f : Function) : List Double :=
  f.params.flatMap Declaration.floats ++ blockFloats f.body

theorem Function.ofJson?_eq_some {members : List (String × Json)} {f : Function} :
    Function.ofJson? (.obj members) = some f ↔
      Fields.required members "name" str? = some f.name ∧
        Fields.required members "return_type" Ty.ofJson? = some f.returnType ∧
        Fields.required members "params" (list? Declaration.ofJson?) = some f.params ∧
        Fields.required members "body" (list? Stmt.ofJson?) = some f.body := by
  have hbody : stmtListOfJson? = list? Stmt.ofJson? := funext stmtListOfJson?_eq
  simp only [Function.ofJson?, hbody, allFields?, bind, Option.bind_eq_some_iff, pure,
    Option.some.injEq, exists_eq_left']
  constructor
  · rintro ⟨name, hname, ty, hty, params, hparams, body, hbody, rfl⟩
    exact ⟨hname, hty, hparams, hbody⟩
  · rintro ⟨hname, hty, hparams, hbody⟩
    exact ⟨_, hname, _, hty, _, hparams, _, hbody, rfl⟩

theorem Function.reads_toJson {f : Function} (hf : ∀ d ∈ f.floats, d.isFinite = true) :
    Reads Function.ofJson? f.toJson f := by
  rw [Function.floats, List.forall_mem_append, List.forall_mem_flatMap, forall_mem_blockFloats] at hf
  have hparams := reads_list? fun d hmem => Declaration.reads_toJson (hf.1 d hmem)
  have hbody := reads_stmtsToJson fun s hmem => Stmt.reads_toJson (hf.2 s hmem)
  intro j h
  obtain ⟨members, rfl⟩ := h.exists_members
  exact Function.ofJson?_eq_some.mpr ⟨(reads_str f.name).required h (by simp),
    f.returnType.reads_toJson.required h (by simp), hparams.required h (by simp),
    hbody.required h (by simp)⟩

theorem Function.isFinite_of_ofJson? {f f' : Function} (h : Function.ofJson? f.toJson = some f') :
    ∀ d ∈ f.floats, d.isFinite = true := by
  obtain ⟨-, -, hparams, hbody⟩ := Function.ofJson?_eq_some.mp h
  have hparams : list? Declaration.ofJson? (.arr (f.params.map Declaration.toJson)) = some f'.params :=
    Fields.apply_of_required hparams (by simp)
  rw [Function.floats, List.forall_mem_append, List.forall_mem_flatMap]
  refine ⟨fun d hmem => ?_, isFinite_of_stmts (Fields.apply_of_required hbody (by simp)) fun s _ s' =>
    Stmt.isFinite_of_ofJson?⟩
  obtain ⟨d', hd'⟩ := exists_of_list? hparams d hmem
  exact Declaration.isFinite_of_ofJson? hd'

/-- The float literals of a node. -/
def Node.floats : Node → List Double
  | .function f => f.floats
  | .stmt s => s.floats
  | .expr e => e.floats

theorem Node.reads_toJson {n : Node} (hn : ∀ d ∈ n.floats, d.isFinite = true) :
    Reads Node.ofJson? n.toJson n := by
  intro j h
  cases n with
  | function f =>
    obtain ⟨j, rfl, hj⟩ := h.exists_case
    rw [Node.ofJson?, Function.reads_toJson hn j hj, Option.map_some]
  | stmt s =>
    obtain ⟨j, rfl, hj⟩ := h.exists_case
    rw [Node.ofJson?, Stmt.reads_toJson hn j hj, Option.map_some]
  | expr e =>
    obtain ⟨j, rfl, hj⟩ := h.exists_case
    rw [Node.ofJson?, Expr.reads_toJson hn j hj, Option.map_some]

theorem Node.isFinite_of_ofJson? {n n' : Node} (h : Node.ofJson? n.toJson = some n') :
    ∀ d ∈ n.floats, d.isFinite = true := by
  cases n with
  | function f =>
    obtain ⟨f', hf', -⟩ := Option.map_eq_some_iff.mp h
    exact Function.isFinite_of_ofJson? hf'
  | stmt s =>
    obtain ⟨s', hs', -⟩ := Option.map_eq_some_iff.mp h
    exact Stmt.isFinite_of_ofJson? hs'
  | expr e =>
    obtain ⟨e', he', -⟩ := Option.map_eq_some_iff.mp h
    exact Expr.isFinite_of_ofJson? he'

/-- A node with finite floats is read from every value that says what its own says, and no other node
has such a value. A node whose floats are not all finite cannot be read back. -/
theorem Node.toJson_faithful (n : Node) :
    ((∀ d ∈ n.floats, d.isFinite = true) →
      Node.ofJson? n.toJson = some n ∧
        (∀ j, Same n.toJson j → Node.ofJson? j = some n) ∧
        ∀ n' : Node, Same n.toJson n'.toJson → n' = n) ∧
      ((∃ d ∈ n.floats, d.isFinite = false) → Node.ofJson? n.toJson = none) := by
  refine ⟨fun hn => ⟨Node.reads_toJson hn _ (Same.refl _), Node.reads_toJson hn, fun n' hsame => ?_⟩, ?_⟩
  · have hread : Node.ofJson? n'.toJson = some n := Node.reads_toJson hn _ hsame
    -- nothing is assumed of the other node: that it is read at all makes its floats finite
    have hn' := Node.isFinite_of_ofJson? hread
    have hread' : Node.ofJson? n'.toJson = some n' := Node.reads_toJson hn' _ (Same.refl _)
    exact Option.some.inj (hread'.symm.trans hread)
  · rintro ⟨d, hd, hinfinite⟩
    cases h : Node.ofJson? n.toJson with
    | none => rfl
    | some n' =>
      have hfinite := Node.isFinite_of_ofJson? h d hd
      rw [hinfinite] at hfinite
      cases hfinite

/-- An empty else branch, no else branch, a result that is left out and a pointer to pointers. -/
def branchingFunction : Function where
  name := "f"
  returnType := .void
  params := [⟨"a", .pointer (.pointer .double), none⟩]
  body := [
    .conditional (.literal (.bool true)) [.ret none] (some []),
    .conditional (.literal (.float ⟨0x3FF8000000000000⟩)) [] none,
    .ret (some (.call "g" [.literal (.int (-1)), .literal (.str "1")]))]

/-- The value of a function that has its parameters and its body first, and a float that is no number. -/
theorem Node.toJson_faithful_branchingFunction :
    let n := Node.function branchingFunction
    let first := [("params", .arr (branchingFunction.params.map Declaration.toJson)),
      ("body", .arr (stmtsToJson branchingFunction.body))]
    let last := [("name", .str "f"), ("return_type", .str "Void")]
    (∀ d ∈ n.floats, d.isFinite = true) ∧
      Node.ofJson? (.obj [("Function", .obj (first ++ last))]) = some n ∧
      Node.ofJson? (.obj [("Expr", .obj [("Literal", .obj [("Float", .null)])])]) = none := by
  intro n first last
  have hfinite : ∀ d ∈ n.floats, d.isFinite = true := by decide
  have hperm : (last ++ first).Perm (first ++ last) := List.perm_append_comm
  have hfunction : Same branchingFunction.toJson (.obj (first ++ last)) :=
    .obj rfl (List.forall₂_same.mpr fun x _ => Same.refl x) hperm
  have hsame : Same n.toJson (.obj [("Function", .obj (first ++ last))]) :=
    @Same.obj _ [("Function", .obj (first ++ last))] _ rfl (.cons hfunction .nil) (.refl _)
  refine ⟨hfinite, ((Node.toJson_faithful n).1 hfinite).2.1 _ hsame, ?_⟩
  exact (Node.toJson_faithful (.expr (.literal (.float ⟨0x7FF8000000000000⟩)))).2
    ⟨_, List.mem_cons_self, by decide⟩

end Target

end AnnotatedToC
