import AnnotatedToC.Proofs.TargetCodec
import Mathlib.Data.List.Nodup
import Mathlib.Logic.Relation

/-!
# Presentation of modules

What a value of a module file stands for says which of its members are fields, what each field stands
for in turn and what it holds when it is left out. A value can be presented differently: its members in
another order, with members that are no fields, with defaults written out. None of this changes what is
read, at any depth, since a record is read from what its fields hold and from nothing else.
-/
namespace AnnotatedToC

namespace Json

theorem Fields.find?_eq_none {ms : Fields Json} {name : String} (h : name ∉ ms.map Prod.fst) :
    Fields.find? ms name = some none := by
  induction ms with
  | nil => exact Fields.find?_nil
  | cons m ms ih =>
    obtain ⟨hm, hms⟩ := not_or.mp (mt List.mem_cons.mpr h)
    rw [Fields.find?_cons_of_ne (Ne.symm hm), ih hms]

theorem Fields.find?_cons_eq_none {ms : Fields Json} {name : String} (h : name ∈ ms.map Prod.fst)
    (x : Json) : Fields.find? ((name, x) :: ms) name = none := by
  obtain ⟨m, hm, hname⟩ := List.mem_map.mp h
  have hmem : m ∈ ms.filter (·.1 == name) := List.mem_filter.mpr ⟨hm, by simp [hname]⟩
  rw [Fields.find?, List.filter_cons_of_pos (by simp)]
  obtain ⟨n, rest, hfilter⟩ := List.exists_cons_of_ne_nil (List.ne_nil_of_mem hmem)
  rw [hfilter]

theorem fields?_arr_bind {β : Type} (names : List String) (elements : List Json)
    (g : Fields Json → Option β) : ((arr elements).fields? names).bind g =
      if elements.length ≤ names.length then ((obj (names.zip elements)).fields? names).bind g
      else none := by
  simp only [fields?]
  split <;> rfl

theorem Fields.find?_perm {ms ns : Fields Json} (h : ms.Perm ns) (name : String) :
    Fields.find? ms name = Fields.find? ns name := by
  have hperm := h.filter (·.1 == name)
  rw [Fields.find?, Fields.find?]
  generalize List.filter (fun m : String × Json => m.1 == name) ms = found at hperm ⊢
  generalize List.filter (fun m : String × Json => m.1 == name) ns = found' at hperm ⊢
  rcases found with _ | ⟨m, _ | ⟨m', found⟩⟩
  · rw [List.nil_perm.mp hperm]
  · rw [List.singleton_perm.mp hperm]
  · have hlength := hperm.length_eq
    rcases found' with _ | ⟨n, _ | ⟨n', found'⟩⟩
    · simp at hlength
    · simp at hlength
    · rfl

/-- Members that say the same are found under the same names. -/
theorem rel_find? {ms ms' ns : Fields Json} (h : List.Forall₂ SameMember ms ms') (hperm : ms'.Perm ns)
    (name : String) :
    Option.Rel (Option.Rel Same) (Fields.find? ms name) (Fields.find? ns name) := by
  have hkeep (m n : String × Json) (h : SameMember m n) :
      (m.1 == name) = true ↔ (n.1 == name) = true := by
    rw [h.1]
  have hfilter := List.rel_filter hkeep h
  rw [← Fields.find?_perm hperm, Fields.find?, Fields.find?]
  generalize List.filter (fun m : String × Json => m.1 == name) ms = found at hfilter ⊢
  generalize List.filter (fun m : String × Json => m.1 == name) ms' = found' at hfilter ⊢
  cases hfilter with
  | nil => exact .some .none
  | cons hm hrest =>
    cases hrest with
    | nil => exact .some (.some hm.2)
    | cons hm' hrest => exact .none

variable {β : Type} {f : Json → β} {j k : Json}

theorem Same.apply_eq (h : Same j k) (harr : ∀ xs ys, f (.arr xs) = f (.arr ys))
    (hobj : ∀ ms ns, f (.obj ms) = f (.obj ns)) : f j = f k := by
  cases h with
  | arr => exact harr _ _
  | obj => exact hobj _ _
  | _ => rfl

/-- What looks only at objects with one member is the same if it is for them. -/
theorem Same.apply_case (h : Same j k) (harr : ∀ xs ys, f (.arr xs) = f (.arr ys))
    (hcase : ∀ key x y, j = .obj [(key, x)] → Same x y → f (.obj [(key, x)]) = f (.obj [(key, y)]))
    (hmany : ∀ m m' ms n n' ns, f (.obj (m :: m' :: ms)) = f (.obj (n :: n' :: ns))) : f j = f k := by
  cases h with
  | arr => exact harr _ _
  | @obj ms ms' ns hnames hvalues hperm =>
    cases forall₂_sameMember hnames hvalues with
    | nil => rw [List.nil_perm.mp hperm]
    | @cons m m' rest rest' hm hrest =>
      cases hrest with
      | nil =>
        obtain ⟨hkey, hsame⟩ := hm
        rw [List.singleton_perm.mp hperm |>.symm]
        obtain ⟨key, x⟩ := m
        obtain ⟨key', y⟩ := m'
        obtain rfl : key = key' := hkey
        exact hcase key x y rfl hsame
      | cons hm' hrest =>
        have hlength := hperm.length_eq
        rcases ns with _ | ⟨n, _ | ⟨n', ns⟩⟩
        · simp at hlength
        · simp at hlength
        · exact hmany _ _ _ _ _ _
  | _ => rfl

theorem Same.isUnit_eq (reading : Reading) (h : Same j k) : reading.isUnit j = reading.isUnit k :=
  h.apply_case (fun _ _ => rfl) (fun _ _ _ _ _ => rfl) (fun _ _ _ _ _ _ => rfl)

theorem Same.unitCase?_eq (reading : Reading) (h : Same j k) :
    unitCase? reading j = unitCase? reading k := by
  refine h.apply_case (fun _ _ => rfl) (fun key x y _ hxy => ?_) (fun _ _ _ _ _ _ => rfl)
  rw [unitCase?, unitCase?, hxy.isUnit_eq]

end Json

namespace Source

open Json

/-! ## What values stand for -/

/-- What a value in a module file stands for, by the type that it is read at. -/
inductive Role : Type → Type 1
  | text : Role String
  | line : Role LineNumber
  /-- The case of a node, by name or by number. -/
  | tag (cases : List String) : Role String
  | literal : Role Literal
  | operator : Role Operator
  | nullable {α : Type} (role : Role α) : Role (Option α)
  | list {α : Type} (role : Role α) : Role (List α)
  | hint : Role Hint
  /-- The base and the index of an annotation. -/
  | subscript : Role Hint
  | expr : Role Expr
  | stmt : Role Stmt
  | param : Role Param
  | item : Role Item
  | file : Role Module

def Role.read? {α : Type} : Role α → Json → Option α
  | .text => str?
  | .line => uint32?
  | .tag cases => caseOf? cases
  | .literal => Literal.ofJson? .lenient
  | .operator => Operator.ofJson? .lenient
  | .nullable role => nullable? role.read?
  | .list role => list? role.read?
  | .hint => Hint.ofJson? .lenient
  | .subscript => subscriptOfJson? .lenient
  | .expr => Expr.ofJson?
  | .stmt => Stmt.ofJson?
  | .param => Param.ofJson? .lenient
  | .item => Item.ofJson?
  | .file => Module.ofJson?

/-- A field of a record, with the value that stands for it when it is left out. -/
structure Field where
  {α : Type}
  name : String
  role : Role α
  default : Option Json

/-- What a record holds in a field. -/
def Field.read? (field : Field) (members : Fields Json) : Option field.α := do
  ((← members.find? field.name).or field.default).bind field.role.read?

abbrev Field.line : Field := ⟨"line", .line, some (.int 0)⟩

abbrev Field.kind (cases : List String) : Field := ⟨"type", .tag cases, none⟩

abbrev Field.itemKind : Field := ⟨"type", .text, none⟩

def Expr.fields : String → List Field
  | "Constant" => [⟨"value", .literal, none⟩]
  | "Name" => [⟨"id", .text, none⟩]
  | "BinOp" => [⟨"op", .operator, none⟩, ⟨"left", .expr, none⟩, ⟨"right", .expr, none⟩]
  | "Subscript" => [⟨"value", .expr, none⟩, ⟨"index", .expr, none⟩]
  | "Call" => [⟨"func", .text, none⟩, ⟨"args", .list .expr, some (.arr [])⟩]
  | "IfExp" => [⟨"test", .expr, none⟩, ⟨"body", .expr, none⟩, ⟨"orelse", .expr, none⟩]
  | "Tuple" => [⟨"elts", .list .expr, none⟩]
  | "Unsupported" => [⟨"construct", .text, none⟩]
  | _ => []

def Stmt.fields : String → List Field
  | "Return" => [⟨"value", .nullable .expr, some .null⟩]
  | "AnnAssign" =>
    [⟨"target", .text, none⟩, ⟨"annotation", .hint, none⟩, ⟨"value", .nullable .expr, some .null⟩]
  | "AugAssign" => [⟨"target", .expr, none⟩, ⟨"op", .operator, none⟩, ⟨"value", .expr, none⟩]
  | "Assign" => [⟨"targets", .list .text, none⟩, ⟨"value", .expr, none⟩]
  | "If" =>
    [⟨"test", .expr, none⟩, ⟨"body", .list .stmt, none⟩, ⟨"orelse", .list .stmt, some (.arr [])⟩]
  | "For" =>
    [⟨"target", .text, none⟩, ⟨"iter", .expr, none⟩, ⟨"body", .list .stmt, none⟩,
      ⟨"orelse", .list .stmt, some (.arr [])⟩]
  | "Unsupported" => [⟨"construct", .text, none⟩]
  | _ => []

def Item.fields : String → List Field
  | "FunctionDef" =>
    [⟨"name", .text, none⟩, ⟨"params", .list .param, some (.arr [])⟩,
      ⟨"returns", .nullable .hint, some .null⟩, ⟨"body", .list .stmt, some (.arr [])⟩, .line]
  | "Other" => [⟨"construct", .text, none⟩, .line]
  | _ => []

def Hint.subscriptFields : List Field := [⟨"base", .text, none⟩, ⟨"index", .hint, none⟩]

def Param.fields : List Field :=
  [⟨"name", .text, none⟩, ⟨"annotation", .nullable .hint, some .null⟩]

def Module.fields : List Field :=
  [⟨"filename", .nullable .text, some .null⟩, ⟨"body", .list .item, some (.arr [])⟩]

/-- The fields of a record, by the case that its members name. -/
def Role.fields? {α : Type} : Role α → Fields Json → Option (List Field)
  | .expr, members =>
    ((Field.kind exprCases).read? members).map fun tag =>
      .line :: .kind exprCases :: Expr.fields tag
  | .stmt, members =>
    ((Field.kind stmtCases).read? members).map fun tag =>
      .line :: .kind stmtCases :: Stmt.fields tag
  | .item, members => (Field.itemKind.read? members).map fun tag => .itemKind :: Item.fields tag
  | .subscript, _ => some Hint.subscriptFields
  | .param, _ => some Param.fields
  | .file, _ => some Module.fields
  | _, _ => none

/-- Roles whose values are objects with fields. -/
def Role.IsRecord {α : Type} : Role α → Prop
  | .expr | .stmt | .item | .subscript | .param | .file => True
  | _ => False

def Item.columns? : List Json → Option (List Field)
  | .str kind :: _ => some (.itemKind :: Item.fields kind)
  | _ => none

/-- The fields of a record that is a list of them. -/
def Role.columns? {α : Type} : Role α → List Json → Option (List Field)
  | .item, elements => Item.columns? elements
  | .subscript, _ => some Hint.subscriptFields
  | .param, _ => some Param.fields
  | .file, _ => some Module.fields
  | _, _ => none

/-! ## Records by their fields -/

section Records

variable {α : Type} {ms ns : Fields Json}

theorem Field.read?_none (name : String) (role : Role α) :
    Field.read? ⟨name, role, none⟩ ms = ms.required name role.read? := by
  rw [Field.read?, Fields.required]
  simp

theorem Field.read?_some (name : String) {role : Role α} {j : Json} {x : α}
    (h : role.read? j = some x) :
    Field.read? ⟨name, role, some j⟩ ms = ms.optional name role.read? x := by
  rw [Field.read?, Fields.optional]
  rcases ms.find? name with _ | _ | y
  · rfl
  · exact h
  · rfl

theorem Field.read?_list (name : String) (role : Role α) :
    Field.read? ⟨name, .list role, some (.arr [])⟩ ms = ms.optional name (list? role.read?) [] :=
  Field.read?_some name rfl

theorem Field.read?_nullable (name : String) (role : Role α) :
    Field.read? ⟨name, .nullable role, some .null⟩ ms =
      ms.optional name (nullable? role.read?) none :=
  Field.read?_some name rfl

theorem Field.read?_line : Field.line.read? ms = lineOf? ms := Field.read?_some "line" rfl

/-- Two records hold the same in each of the given fields. -/
def Agree (fields : List Field) (ms ns : Fields Json) : Prop :=
  ∀ field ∈ fields, field.read? ms = field.read? ns

theorem agree_cons {field : Field} {fields : List Field} : Agree (field :: fields) ms ns ↔
    field.read? ms = field.read? ns ∧ Agree fields ms ns :=
  List.forall_mem_cons

theorem isNode_congr {cases : List String} {fields : List Field}
    (h : Agree (.line :: .kind cases :: fields) ms ns) (line : LineNumber) (tag : String) :
    IsNode cases ms line tag ↔ IsNode cases ns line tag := by
  simp only [agree_cons, Field.read?_line, Field.read?_none, Role.read?] at h
  rw [IsNode, IsNode, h.1, h.2.1]

theorem Expr.fieldsIn_congr {e : Expr} (h : Agree (Expr.fields e.tag) ms ns) :
    e.FieldsIn ms ↔ e.FieldsIn ns := by
  cases e <;>
    simp only [Expr.tag, Expr.fields, agree_cons, Field.read?_none, Field.read?_list, Role.read?] at h <;>
    simp only [Expr.FieldsIn, h]

theorem Stmt.fieldsIn_congr {s : Stmt} (h : Agree (Stmt.fields s.tag) ms ns) :
    s.FieldsIn ms ↔ s.FieldsIn ns := by
  cases s <;>
    simp only [Stmt.tag, Stmt.fields, agree_cons, Field.read?_none, Field.read?_list,
      Field.read?_nullable, Role.read?] at h <;>
    simp only [Stmt.FieldsIn, h]

theorem Item.fieldsIn_congr {i : Item} (h : Agree (Item.fields i.tag) ms ns) :
    i.FieldsIn ms ↔ i.FieldsIn ns := by
  cases i with
  | function f =>
    simp only [Item.tag, Item.fields, agree_cons, Field.read?_none, Field.read?_list,
      Field.read?_nullable, Field.read?_line, Role.read?] at h
    obtain ⟨hname, hparams, hreturns, hbody, hline, -⟩ := h
    constructor
    · rintro ⟨hname', hparams', hreturns', hbody', hline'⟩
      exact ⟨hname ▸ hname', hparams ▸ hparams', hreturns ▸ hreturns', hbody ▸ hbody', hline ▸ hline'⟩
    · rintro ⟨hname', hparams', hreturns', hbody', hline'⟩
      exact ⟨hname ▸ hname', hparams ▸ hparams', hreturns ▸ hreturns', hbody ▸ hbody', hline ▸ hline'⟩
  | other construct line =>
    simp only [Item.tag, Item.fields, agree_cons, Field.read?_none, Field.read?_line, Role.read?] at h
    simp only [Item.FieldsIn, h]

variable {role : Role α} {fields : List Field}

theorem Role.fields?_congr (h : role.fields? ms = some fields) (hagree : Agree fields ms ns) :
    role.fields? ns = some fields := by
  cases role with
  | expr =>
    obtain ⟨tag, htag, rfl⟩ := Option.map_eq_some_iff.mp h
    rw [Role.fields?, ← hagree (.kind exprCases) (by simp), htag, Option.map_some]
  | stmt =>
    obtain ⟨tag, htag, rfl⟩ := Option.map_eq_some_iff.mp h
    rw [Role.fields?, ← hagree (.kind stmtCases) (by simp), htag, Option.map_some]
  | item =>
    obtain ⟨tag, htag, rfl⟩ := Option.map_eq_some_iff.mp h
    rw [Role.fields?, ← hagree .itemKind (by simp), htag, Option.map_some]
  | subscript => exact h
  | param => exact h
  | file => exact h
  | _ => cases h

/-- A record is read from what its fields hold. -/
theorem Role.read?_congr (h : role.fields? ms = some fields) (hagree : Agree fields ms ns) :
    role.read? (.obj ms) = role.read? (.obj ns) := by
  cases role with
  | expr =>
    obtain ⟨tag, htag, rfl⟩ := Option.map_eq_some_iff.mp h
    rw [Field.read?_none] at htag
    refine Option.ext fun e => ?_
    -- both agree on the case first, and then only the fields of that case matter
    rw [Role.read?, Expr.ofJson?_eq_some, Expr.ofJson?_eq_some, ← isNode_congr hagree]
    refine and_congr_right fun hnode => Expr.fieldsIn_congr ?_
    obtain rfl : tag = e.tag := Option.some.inj (htag.symm.trans hnode.2)
    exact (agree_cons.mp (agree_cons.mp hagree).2).2
  | stmt =>
    obtain ⟨tag, htag, rfl⟩ := Option.map_eq_some_iff.mp h
    rw [Field.read?_none] at htag
    refine Option.ext fun s => ?_
    rw [Role.read?, Stmt.ofJson?_eq_some, Stmt.ofJson?_eq_some, ← isNode_congr hagree]
    refine and_congr_right fun hnode => Stmt.fieldsIn_congr ?_
    obtain rfl : tag = s.tag := Option.some.inj (htag.symm.trans hnode.2)
    exact (agree_cons.mp (agree_cons.mp hagree).2).2
  | item =>
    obtain ⟨tag, htag, rfl⟩ := Option.map_eq_some_iff.mp h
    obtain ⟨hkind, hagree⟩ := agree_cons.mp hagree
    rw [Field.read?_none] at htag
    rw [Field.read?_none, Field.read?_none] at hkind
    refine Option.ext fun i => ?_
    rw [Role.read?, Item.ofJson?_obj_eq_some, Item.ofJson?_obj_eq_some, ← Role.read?, ← hkind]
    refine and_congr_right fun hi => Item.fieldsIn_congr ?_
    obtain rfl : tag = i.tag := Option.some.inj (htag.symm.trans hi)
    exact hagree
  | subscript =>
    cases h
    simp only [Hint.subscriptFields, agree_cons, Field.read?_none, Role.read?] at hagree
    rw [Role.read?, subscriptOfJson?_obj, subscriptOfJson?_obj, hagree.1, hagree.2.1]
  | param =>
    cases h
    simp only [Param.fields, agree_cons, Field.read?_none, Field.read?_nullable, Role.read?] at hagree
    simp only [Role.read?, Param.ofJson?, Json.fields?, bind, Option.bind_some, hagree]
  | file =>
    cases h
    simp only [Module.fields, agree_cons, Field.read?_list, Field.read?_nullable, Role.read?] at hagree
    simp only [Role.read?, Module.ofJson?, Json.fields?, bind, Option.bind_some, hagree]
  | _ => cases h

/-- Without a case there is nothing to read. -/
theorem Role.read?_eq_none (hrole : role.IsRecord) (h : role.fields? ms = none) :
    role.read? (.obj ms) = none := by
  cases role with
  | expr =>
    rw [Role.fields?, Option.map_eq_none_iff, Field.read?_none] at h
    refine Option.eq_none_iff_forall_ne_some.mpr fun e he => ?_
    cases h.symm.trans (Expr.ofJson?_eq_some.mp he).1.2
  | stmt =>
    rw [Role.fields?, Option.map_eq_none_iff, Field.read?_none] at h
    refine Option.eq_none_iff_forall_ne_some.mpr fun s hs => ?_
    cases h.symm.trans (Stmt.ofJson?_eq_some.mp hs).1.2
  | item =>
    rw [Role.fields?, Option.map_eq_none_iff, Field.read?_none] at h
    refine Option.eq_none_iff_forall_ne_some.mpr fun i hi => ?_
    cases h.symm.trans (Item.ofJson?_obj_eq_some.mp hi).1
  | subscript => cases h
  | param => cases h
  | file => cases h
  | _ => cases hrole

theorem Role.read?_congr_of_forall (hrole : role.IsRecord)
    (h : ∀ field : Field, field.read? ms = field.read? ns) :
    role.read? (.obj ms) = role.read? (.obj ns) := by
  cases hms : role.fields? ms with
  | some fields => exact Role.read?_congr hms fun field _ => h field
  | none =>
    have hns : role.fields? ns = none := by
      refine Option.eq_none_iff_forall_ne_some.mpr fun fields hfields => ?_
      cases hms.symm.trans (Role.fields?_congr hfields fun field _ => (h field).symm)
    rw [Role.read?_eq_none hrole hms, Role.read?_eq_none hrole hns]

/-- Members that are no fields are not looked at. -/
theorem agree_unknown {key : String} (h : key ∉ fields.map Field.name) (x : Json) :
    Agree fields ((key, x) :: ms) ms := by
  intro field hfield
  have hne : key ≠ field.name := fun hkey => h (hkey ▸ List.mem_map_of_mem hfield)
  rw [Field.read?, Fields.find?_cons_of_ne hne, Field.read?]

theorem Item.map_name_fields (i : Item) : (Item.fields i.tag).map Field.name = i.fieldNames := by
  cases i <;> rfl

theorem Item.type_not_mem_fields (kind : String) : "type" ∉ (Item.fields kind).map Field.name := by
  unfold Item.fields
  split <;> simp

theorem Item.find?_type (kind : String) (elements : List Json) :
    Fields.find? (((Item.fields kind).map Field.name).zip elements) "type" = some none := by
  refine Fields.find?_eq_none fun hmem => ?_
  obtain ⟨m, hm, htype⟩ := List.mem_map.mp hmem
  exact Item.type_not_mem_fields kind (htype ▸ (List.of_mem_zip hm).1)

theorem Item.ofJson?_arr (kind : String) (elements : List Json) :
    Item.ofJson? (.arr (.str kind :: elements)) =
      if elements.length ≤ (Item.fields kind).length then
        Item.ofJson? (.obj (("type", .str kind) :: ((Item.fields kind).map Field.name).zip elements))
      else none := by
  set record := ((Item.fields kind).map Field.name).zip elements with hrecord
  have hagree : Agree (Item.fields kind) (("type", .str kind) :: record) record :=
    agree_unknown (Item.type_not_mem_fields kind) _
  refine Option.ext fun i => ?_
  change Item.ofFields? kind (fun names => (Json.arr elements).fields? names) = some i ↔ _
  rw [Item.ofFields?_eq_some, Option.ite_none_right_eq_some, Item.ofJson?_obj_eq_some,
    Fields.required_cons_self (Item.find?_type kind elements), str?_str, Option.some.injEq]
  rw [and_left_comm]
  refine and_congr_right ?_
  rintro rfl
  rw [Item.fieldsIn_congr hagree, Json.fields?, hrecord, ← List.length_map Field.name,
    Item.map_name_fields]
  simp only [Option.ite_none_right_eq_some, Option.some.injEq, and_assoc, exists_and_left,
    exists_eq_left']

/-- A record that is a list stands for the object with its fields. -/
theorem Role.read?_arr {elements : List Json} (h : role.columns? elements = some fields) :
    role.read? (.arr elements) =
      if elements.length ≤ fields.length then
        role.read? (.obj ((fields.map Field.name).zip elements))
      else none := by
  cases role with
  | item =>
    rw [Role.columns?] at h
    unfold Item.columns? at h
    split at h
    · cases h
      rw [List.map_cons, List.zip_cons_cons, List.length_cons, List.length_cons, Role.read?,
        Item.ofJson?_arr]
      simp only [Nat.add_le_add_iff_right]
    · cases h
  | subscript =>
    cases h
    rcases elements with _ | ⟨base, _ | ⟨index, _ | ⟨x, rest⟩⟩⟩
    · rfl
    · change none = subscriptOfJson? .lenient (.obj [("base", base)])
      rw [subscriptOfJson?_obj]
      simp [Fields.required]
    · change subscriptOfJson? .lenient (.arr [base, index]) =
        subscriptOfJson? .lenient (.obj [("base", base), ("index", index)])
      rw [subscriptOfJson?_obj]
      simp [subscriptOfJson?]
    · rfl
  | param =>
    cases h
    exact fields?_arr_bind (Param.fields.map Field.name) elements _
  | file =>
    cases h
    exact fields?_arr_bind (Module.fields.map Field.name) elements _
  | _ => cases h

end Records

/-! ## The order of members -/

section Order

variable {α : Type} {j k : Json} {ms ns : Fields Json}

theorem Literal.ofJson?_case (reading : Reading) (key : String) (x : Json) :
    Literal.ofJson? reading (.obj [(key, x)]) =
      if key = "int" then x.int64?.map .int
      else if key = "float" then x.double?.map .float
      else if key = "bool" then x.bool?.map .bool
      else if key = "str" then x.str?.map .str
      else if reading.isUnit x ∧ key = "none" then some .null else none := by
  unfold Literal.ofJson?
  split
  all_goals simp_all [unitCase?]

theorem Hint.ofJson?_case (reading : Reading) (key : String) (x : Json) :
    Hint.ofJson? reading (.obj [(key, x)]) =
      if key = "name" then x.str?.map .name
      else if key = "subscript" then subscriptOfJson? reading x
      else if key = "tuple" then (list? (Hint.ofJson? reading) x).map .tuple
      else if reading.isUnit x ∧ key = "null" then some .null else none := by
  unfold Hint.ofJson?
  split
  all_goals simp_all [unitCase?, tupleOfJson?_eq]

theorem Literal.ofJson?_many (reading : Reading) (m m' : String × Json) (ms : Fields Json) :
    Literal.ofJson? reading (.obj (m :: m' :: ms)) = none := by
  unfold Literal.ofJson?
  split
  all_goals simp_all [unitCase?]

theorem Hint.ofJson?_many (reading : Reading) (m m' : String × Json) (ms : Fields Json) :
    Hint.ofJson? reading (.obj (m :: m' :: ms)) = none := by
  unfold Hint.ofJson?
  split
  all_goals simp_all [unitCase?]

theorem Field.read?_of_rel {field : Field}
    (hrole : ∀ m ∈ ms, ∀ j, Same m.2 j → field.role.read? m.2 = field.role.read? j)
    (h : Option.Rel (Option.Rel Same) (Fields.find? ms field.name) (Fields.find? ns field.name)) :
    field.read? ms = field.read? ns := by
  rw [Field.read?, Field.read?]
  generalize hfound : Fields.find? ns field.name = found at h ⊢
  generalize hms : Fields.find? ms field.name = found' at h ⊢
  cases h with
  | none => rfl
  | some h =>
    cases h with
    | none => rfl
    | some hsame => exact hrole _ (Fields.mem_of_find? hms) _ hsame

theorem Role.read?_record (role : Role α) (hrole : role.IsRecord) {ms' : Fields Json}
    (hsame : List.Forall₂ SameMember ms ms') (hperm : ms'.Perm ns)
    (ih : ∀ m ∈ ms, ∀ {β : Type} (r : Role β) j, Same m.2 j → r.read? m.2 = r.read? j) :
    role.read? (.obj ms) = role.read? (.obj ns) :=
  Role.read?_congr_of_forall hrole fun field =>
    Field.read?_of_rel (fun m hm => ih m hm field.role) (rel_find? hsame hperm field.name)

theorem forall₂_sameMember_zip (names : List String) {xs ys : List Json}
    (h : List.Forall₂ Same xs ys) : List.Forall₂ SameMember (names.zip xs) (names.zip ys) := by
  induction h generalizing names with
  | nil => simp
  | cons hxy _ ih =>
    cases names with
    | nil => exact .nil
    | cons name names => exact .cons ⟨rfl, hxy⟩ (ih names)

theorem Role.columns?_same (role : Role α) {xs ys : List Json} (h : List.Forall₂ Same xs ys) :
    role.columns? xs = role.columns? ys := by
  cases role with
  | item =>
    cases h with
    | nil => rfl
    | cons hxy _ => cases hxy <;> rfl
  | _ => rfl

theorem Item.ofJson?_arr_eq_none {xs : List Json} (h : Item.columns? xs = none) :
    Item.ofJson? (.arr xs) = none := by
  cases xs with
  | nil => rfl
  | cons x xs =>
    cases x with
    | str kind => cases h
    | _ => rfl

theorem Role.read?_list_record (role : Role α) (hrole : role.IsRecord) {xs ys : List Json}
    (h : List.Forall₂ Same xs ys)
    (ih : ∀ x ∈ xs, ∀ {β : Type} (r : Role β) j, Same x j → r.read? x = r.read? j) :
    role.read? (.arr xs) = role.read? (.arr ys) := by
  have hcolumns := role.columns?_same h
  cases hxs : role.columns? xs with
  | some fields =>
    have hread := role.read?_record hrole (forall₂_sameMember_zip (fields.map Field.name) h) (.refl _)
      fun m hm => ih m.2 (List.of_mem_zip hm).2
    rw [Role.read?_arr hxs, Role.read?_arr (hcolumns ▸ hxs), h.length_eq, hread]
  | none =>
    cases role with
    | item =>
      have hys : Item.columns? ys = none := hcolumns.symm.trans hxs
      rw [Role.read?, Item.ofJson?_arr_eq_none hxs, Item.ofJson?_arr_eq_none hys]
    | expr => rfl
    | stmt => rfl
    | subscript => cases hxs
    | param => cases hxs
    | file => cases hxs
    | _ => cases hrole

/-- The order of members means nothing. -/
theorem Role.read?_same (role : Role α) (h : Same j k) : role.read? j = role.read? k := by
  induction j generalizing α k with
  | arr xs ih =>
    cases h with
    | @arr _ ys hsame =>
      have hparts : ∀ x ∈ xs, ∀ {β : Type} (r : Role β) j, Same x j → r.read? x = r.read? j :=
        fun x hx β r j => ih x hx r
      induction role with
      | nullable role ihrole => exact congrArg (Option.map some) ihrole
      | list role ihrole =>
        change xs.mapM role.read? = ys.mapM role.read?
        clear ih ihrole
        induction hsame with
        | nil => rfl
        | cons hxy _ ihrest =>
          rw [List.forall_mem_cons] at hparts
          rw [List.mapM_cons, List.mapM_cons, hparts.1 role _ hxy, ihrest hparts.2]
      | item => exact Role.read?_list_record .item trivial hsame hparts
      | subscript => exact Role.read?_list_record .subscript trivial hsame hparts
      | param => exact Role.read?_list_record .param trivial hsame hparts
      | file => exact Role.read?_list_record .file trivial hsame hparts
      | _ => rfl
  | obj ms ih =>
    have hparts : ∀ m ∈ ms, ∀ {β : Type} (r : Role β) j, Same m.2 j → r.read? m.2 = r.read? j :=
      fun m hm β r j => ih m hm r
    cases h with
    | @obj _ ms' ns hnames hvalues hperm =>
      have hsame := forall₂_sameMember hnames hvalues
      have h : Same (.obj ms) (.obj ns) := .obj hnames hvalues hperm
      induction role with
      | nullable role ihrole => exact congrArg (Option.map some) ihrole
      | literal =>
        refine h.apply_case (fun _ _ => rfl) (fun key x y _ hxy => ?_)
          (fun _ _ _ _ _ _ => by rw [Role.read?, Literal.ofJson?_many, Literal.ofJson?_many])
        rw [Role.read?, Literal.ofJson?_case, Literal.ofJson?_case, hxy.isUnit_eq,
          hxy.apply_eq (f := int64?) (fun _ _ => rfl) (fun _ _ => rfl),
          hxy.apply_eq (f := double?) (fun _ _ => rfl) (fun _ _ => rfl),
          hxy.apply_eq (f := bool?) (fun _ _ => rfl) (fun _ _ => rfl),
          hxy.apply_eq (f := str?) (fun _ _ => rfl) (fun _ _ => rfl)]
      | operator => rw [Role.read?, Operator.ofJson?, Operator.ofJson?, h.unitCase?_eq]
      | hint =>
        refine h.apply_case (fun _ _ => rfl) (fun key x y hx hxy => ?_)
          (fun _ _ _ _ _ _ => by rw [Role.read?, Hint.ofJson?_many, Hint.ofJson?_many])
        cases hx
        have hlist : list? (Hint.ofJson? .lenient) x = list? (Hint.ofJson? .lenient) y :=
          hparts (key, x) List.mem_cons_self (.list .hint) y hxy
        have hsubscript : subscriptOfJson? .lenient x = subscriptOfJson? .lenient y :=
          hparts (key, x) List.mem_cons_self .subscript y hxy
        rw [Role.read?, Hint.ofJson?_case, Hint.ofJson?_case, hxy.isUnit_eq, hlist, hsubscript,
          hxy.apply_eq (f := str?) (fun _ _ => rfl) (fun _ _ => rfl)]
      | expr => exact Role.read?_record .expr trivial hsame hperm hparts
      | stmt => exact Role.read?_record .stmt trivial hsame hperm hparts
      | item => exact Role.read?_record .item trivial hsame hperm hparts
      | subscript => exact Role.read?_record .subscript trivial hsame hperm hparts
      | param => exact Role.read?_record .param trivial hsame hperm hparts
      | file => exact Role.read?_record .file trivial hsame hperm hparts
      | _ => rfl
  | _ =>
    cases h
    rfl

end Order

/-! ## Presenting a value differently -/

/-- One change to the presentation of a value that stands for a given role. Members are added in front,
from where reordering takes them anywhere. -/
inductive Edit : {α : Type} → Role α → Json → Json → Prop
  /-- The members of objects, at any depth, in another order. -/
  | reorder {α : Type} {role : Role α} {j k : Json} : Same j k → Edit role j k
  /-- A member that is no field. -/
  | unknown {α : Type} {role : Role α} {members : Fields Json} {fields : List Field} {key : String}
      (value : Json) : role.fields? members = some fields → key ∉ fields.map Field.name →
      Edit role (.obj members) (.obj ((key, value) :: members))
  /-- A field that was left out, with its default. -/
  | default {α : Type} {role : Role α} {members : Fields Json} {fields : List Field} {field : Field}
      {value : Json} : role.fields? members = some fields → field ∈ fields →
      field.default = some value → field.name ∉ members.map Prod.fst →
      Edit role (.obj members) (.obj ((field.name, value) :: members))
  /-- A change inside a field of an object. -/
  | member {α : Type} {role : Role α} {members : Fields Json} {fields : List Field} {field : Field}
      {x y : Json} : role.fields? ((field.name, x) :: members) = some fields → field ∈ fields →
      Edit field.role x y →
      Edit role (.obj ((field.name, x) :: members)) (.obj ((field.name, y) :: members))
  /-- A change inside a field of a record that is a list. -/
  | position {α : Type} {role : Role α} {before after : List Json} {first last : List Field}
      {field : Field} {x y : Json} :
      role.columns? (before ++ x :: after) = some (first ++ field :: last) →
      first.length = before.length → Edit field.role x y →
      Edit role (.arr (before ++ x :: after)) (.arr (before ++ y :: after))
  | element {α : Type} {role : Role α} {before after : List Json} {x y : Json} : Edit role x y →
      Edit (.list role) (.arr (before ++ x :: after)) (.arr (before ++ y :: after))
  | nullable {α : Type} {role : Role α} {ms ns : Fields Json} : Edit role (.obj ms) (.obj ns) →
      Edit (.nullable role) (.obj ms) (.obj ns)
  | subscript {x y : Json} : Edit .subscript x y →
      Edit .hint (.obj [("subscript", x)]) (.obj [("subscript", y)])
  | tuple {x y : Json} : Edit (.list .hint) x y →
      Edit .hint (.obj [("tuple", x)]) (.obj [("tuple", y)])

section Edits

variable {α : Type} {role : Role α} {fields : List Field} {field : Field} {ms : Fields Json} {x y : Json}

theorem Role.nodup_fields (h : role.fields? ms = some fields) : (fields.map Field.name).Nodup := by
  cases role with
  | expr =>
    obtain ⟨tag, -, rfl⟩ := Option.map_eq_some_iff.mp h
    unfold Expr.fields
    split <;> simp
  | stmt =>
    obtain ⟨tag, -, rfl⟩ := Option.map_eq_some_iff.mp h
    unfold Stmt.fields
    split <;> simp
  | item =>
    obtain ⟨tag, -, rfl⟩ := Option.map_eq_some_iff.mp h
    unfold Item.fields
    split <;> simp
  | subscript =>
    cases h
    simp [Hint.subscriptFields]
  | param =>
    cases h
    simp [Param.fields]
  | file =>
    cases h
    simp [Module.fields]
  | _ => cases h

/-- A member in front concerns the field of its name only. -/
theorem agree_cons_members {ns : Fields Json} (hnodup : (fields.map Field.name).Nodup)
    (hfield : field ∈ fields)
    (h : field.read? ((field.name, x) :: ms) = field.read? ns)
    (hns : ∀ name, name ≠ field.name → Fields.find? ns name = Fields.find? ms name) :
    Agree fields ((field.name, x) :: ms) ns := by
  intro other hother
  by_cases hname : other.name = field.name
  · obtain rfl := List.inj_on_of_nodup_map hnodup hother hfield hname
    exact h
  · rw [Field.read?, Fields.find?_cons_of_ne (Ne.symm hname), ← hns other.name hname, Field.read?]

theorem Field.read?_cons_congr (hrole : field.role.read? x = field.role.read? y) :
    field.read? ((field.name, x) :: ms) = field.read? ((field.name, y) :: ms) := by
  rw [Field.read?, Field.read?]
  by_cases hmem : field.name ∈ ms.map Prod.fst
  · rw [Fields.find?_cons_eq_none hmem, Fields.find?_cons_eq_none hmem]
  · rw [Fields.find?_cons_self (Fields.find?_eq_none hmem),
      Fields.find?_cons_self (Fields.find?_eq_none hmem)]
    exact hrole

theorem Field.read?_cons_default (hdefault : field.default = some x)
    (hmem : field.name ∉ ms.map Prod.fst) :
    field.read? ((field.name, x) :: ms) = field.read? ms := by
  rw [Field.read?, Field.read?, Fields.find?_cons_self (Fields.find?_eq_none hmem),
    Fields.find?_eq_none hmem, hdefault]
  rfl

theorem Role.read?_member (h : role.fields? ((field.name, x) :: ms) = some fields)
    (hfield : field ∈ fields) (hrole : field.role.read? x = field.role.read? y) :
    role.read? (.obj ((field.name, x) :: ms)) = role.read? (.obj ((field.name, y) :: ms)) :=
  Role.read?_congr h (agree_cons_members (Role.nodup_fields h) hfield (Field.read?_cons_congr hrole)
    fun _ hname => Fields.find?_cons_of_ne hname.symm)

theorem Role.read?_perm {ns : Fields Json} (h : role.fields? ms = some fields) (hperm : ms.Perm ns) :
    role.fields? ns = some fields ∧ role.read? (.obj ms) = role.read? (.obj ns) := by
  have hagree : Agree fields ms ns := by
    intro field _
    rw [Field.read?, Fields.find?_perm hperm, Field.read?]
  exact ⟨Role.fields?_congr h hagree, Role.read?_congr h hagree⟩

theorem Role.fields?_zip {elements : List Json} (h : role.columns? elements = some fields) :
    role.fields? ((fields.map Field.name).zip elements) = some fields := by
  cases role with
  | item =>
    rw [Role.columns?] at h
    unfold Item.columns? at h
    split at h
    · rename_i kind elements
      cases h
      rw [Role.fields?, Field.read?_none, List.map_cons, List.zip_cons_cons,
        Fields.required_cons_self (Item.find?_type kind elements)]
      rfl
    · cases h
  | subscript => exact h
  | param => exact h
  | file => exact h
  | _ => cases h

theorem Role.columns?_position {before after : List Json} {first last : List Field}
    (h : role.columns? (before ++ x :: after) = some (first ++ field :: last))
    (hlength : first.length = before.length) (hrole : field.role.read? x = field.role.read? y) :
    role.columns? (before ++ y :: after) = some (first ++ field :: last) := by
  cases role with
  | item =>
    rw [Role.columns?] at h ⊢
    cases before with
    | nil =>
      obtain rfl := List.length_eq_zero_iff.mp hlength
      unfold Item.columns? at h
      split at h
      · rename_i kind rest hx
        cases h
        cases hx
        rw [eq_str_of_str? hrole.symm]
        rfl
      · cases h
    | cons b before =>
      cases b with
      | str kind => exact h
      | _ => cases h
  | subscript => exact h
  | param => exact h
  | file => exact h
  | _ => cases h

theorem Role.read?_position {before after : List Json} {first last : List Field}
    (h : role.columns? (before ++ x :: after) = some (first ++ field :: last))
    (hlength : first.length = before.length) (hrole : field.role.read? x = field.role.read? y) :
    role.read? (.arr (before ++ x :: after)) = role.read? (.arr (before ++ y :: after)) := by
  have hzip (z : Json) : ((first ++ field :: last).map Field.name).zip (before ++ z :: after) =
      (first.map Field.name).zip before ++ (field.name, z) :: (last.map Field.name).zip after := by
    rw [List.map_append, List.zip_append (by rw [List.length_map, hlength]), List.map_cons,
      List.zip_cons_cons]
  have hy := Role.columns?_position h hlength hrole
  have hfields := Role.fields?_zip h
  have hfieldsy := Role.fields?_zip hy
  rw [hzip] at hfields hfieldsy
  -- in the object that the list stands for, the field is moved to the front and back again
  obtain ⟨hfront, hx⟩ := Role.read?_perm hfields List.perm_middle
  obtain ⟨-, hback⟩ := Role.read?_perm hfieldsy List.perm_middle
  rw [Role.read?_arr h, Role.read?_arr hy, hzip, hzip, hx, hback,
    Role.read?_member hfront (by simp) hrole]
  simp only [List.length_append, List.length_cons]

theorem Edit.read?_eq {j k : Json} (h : Edit role j k) : role.read? j = role.read? k := by
  induction h with
  | reorder h => exact Role.read?_same _ h
  | unknown value h hkey =>
    exact Role.read?_congr h fun field hfield => (agree_unknown hkey value field hfield).symm
  | default h hfield hdefault hmem =>
    have hagree := agree_cons_members (Role.nodup_fields h) hfield
      (Field.read?_cons_default hdefault hmem) fun _ _ => rfl
    exact Role.read?_congr h fun field hfield => (hagree field hfield).symm
  | member h hfield _ ih => exact Role.read?_member h hfield ih
  | position h hlength _ ih => exact Role.read?_position h hlength ih
  | @element _ role before after x y _ ih =>
    change (before ++ x :: after).mapM role.read? = (before ++ y :: after).mapM role.read?
    rw [List.mapM_append, List.mapM_append, List.mapM_cons, List.mapM_cons, ih]
  | nullable _ ih => exact congrArg (Option.map some) ih
  | subscript _ ih =>
    rw [Role.read?, Hint.ofJson?, Hint.ofJson?]
    exact ih
  | tuple _ ih =>
    rw [Role.read?, Hint.ofJson?, Hint.ofJson?, tupleOfJson?_eq, tupleOfJson?_eq]
    exact congrArg (Option.map Hint.tuple) ih

end Edits

end Source

end AnnotatedToC
