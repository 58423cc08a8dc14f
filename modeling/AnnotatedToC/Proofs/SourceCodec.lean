import AnnotatedToC.Proofs.Trees
import AnnotatedToC.Source.Decode

/-!
# Source trees through JSON

A node is read by looking its fields up among the members of an object: what an expression, a statement
or an item needs of the members is said here once, without the order of the lookups. Every tree is the
one that is read from its own value.
-/
namespace AnnotatedToC

namespace Json

variable {α β γ : Type}

namespace Fields

section Lookup

variable {fields : Fields α} {name key : String} {x : α} {f : α → Option β} {y : β}

@[simp]
theorem find?_nil : find? ([] : Fields α) name = some none := by
  rw [find?, List.filter_nil]

@[simp]
theorem find?_cons_of_ne (h : key ≠ name) : find? ((key, x) :: fields) name = find? fields name := by
  rw [find?, List.filter_cons_of_neg (by simpa using h), find?]

@[simp]
theorem find?_cons_self (h : find? fields name = some none) :
    find? ((name, x) :: fields) name = some (some x) := by
  have hnil : fields.filter (·.1 == name) = [] := by
    unfold find? at h
    split at h
    · assumption
    · cases h
    · cases h
  rw [find?, List.filter_cons_of_pos (by simp), hnil]

theorem mem_of_find? (h : find? fields name = some (some x)) : (name, x) ∈ fields := by
  unfold find? at h
  split at h
  · cases h
  · rename_i key y hfilter
    cases h
    have hmem : (key, x) ∈ fields.filter (·.1 == name) := by simp [hfilter]
    obtain ⟨hmem, hkey⟩ := List.mem_filter.mp hmem
    rwa [← eq_of_beq hkey]
  · cases h

theorem eq_of_find? (h : find? fields name = some (some x)) {y : α} (hy : (name, y) ∈ fields) :
    y = x := by
  unfold find? at h
  split at h
  · cases h
  · rename_i key z hfilter
    cases h
    have hmem : (name, y) ∈ fields.filter (·.1 == name) := List.mem_filter.mpr ⟨hy, by simp⟩
    rw [hfilter, List.mem_singleton] at hmem
    exact congrArg Prod.snd hmem
  · cases h

theorem required_eq_some :
    fields.required name f = some y ↔ ∃ x, fields.find? name = some (some x) ∧ f x = some y := by
  rw [required]
  rcases fields.find? name with _ | _ | x <;> simp

theorem optional_eq_some {z : β} : fields.optional name f z = some y ↔
    fields.find? name = some none ∧ y = z ∨ ∃ x, fields.find? name = some (some x) ∧ f x = some y := by
  rw [optional]
  rcases fields.find? name with _ | _ | x <;> simp [eq_comm]

@[simp]
theorem required_cons_of_ne (h : key ≠ name) :
    required ((key, x) :: fields) name f = required fields name f := by
  rw [required, find?_cons_of_ne h, required]

@[simp]
theorem required_cons_self (h : find? fields name = some none) :
    required ((name, x) :: fields) name f = f x := by
  rw [required, find?_cons_self h]
  rfl

@[simp]
theorem optional_nil {z : β} : optional ([] : Fields α) name f z = some z := by
  rw [optional, find?_nil]
  rfl

@[simp]
theorem optional_cons_of_ne {z : β} (h : key ≠ name) :
    optional ((key, x) :: fields) name f z = optional fields name f z := by
  rw [optional, find?_cons_of_ne h, optional]

@[simp]
theorem optional_cons_self {z : β} (h : find? fields name = some none) :
    optional ((name, x) :: fields) name f z = f x := by
  rw [optional, find?_cons_self h]
  rfl

end Lookup

variable (g : α → β) (fields : Fields α) (name : String)

theorem find?_map : find? (fields.map (Prod.map id g)) name = (find? fields name).map (.map g) := by
  have hfilter : (fields.map (Prod.map id g)).filter (·.1 == name) =
      (fields.filter (·.1 == name)).map (Prod.map id g) := by
    rw [List.filter_map]
    rfl
  rw [find?, find?, hfilter]
  generalize List.filter (fun x : String × α => x.1 == name) fields = found
  rcases found with _ | ⟨x, _ | ⟨y, found⟩⟩ <;> rfl

theorem required_map (f : β → Option γ) :
    required (fields.map (Prod.map id g)) name f = required fields name (f ∘ g) := by
  rw [required, required, find?_map]
  rcases find? fields name with _ | _ | x <;> rfl

theorem optional_map (f : β → Option γ) (y : γ) :
    optional (fields.map (Prod.map id g)) name f y = optional fields name (f ∘ g) y := by
  rw [optional, optional, find?_map]
  rcases find? fields name with _ | _ | x <;> rfl

end Fields

theorem eq_str_of_str? {j : Json} {s : String} (h : j.str? = some s) : j = .str s := by
  cases j with
  | str t =>
    cases h
    rfl
  | _ => cases h

theorem list?_map {f : Json → Option α} {form : α → Json} {xs : List α}
    (h : ∀ x ∈ xs, f (form x) = some x) : list? f (arr (xs.map form)) = some xs := by
  have hmap : (xs.map form).mapM f = some xs := by
    induction xs with
    | nil => rfl
    | cons x xs ih =>
      rw [List.forall_mem_cons] at h
      simp [h.1, ih h.2]
  exact hmap

theorem nullable?_ofOption {f : Json → Option α} {form : α → Json} {x? : Option α}
    (h : ∀ x ∈ x?, f (form x) = some x) (hnull : ∀ x, form x ≠ null) :
    nullable? f (ofOption form x?) = some x? := by
  cases x? with
  | none => rfl
  | some x =>
    rw [ofOption, nullable?.eq_2 f _ (hnull x), h x rfl]
    rfl

end Json

namespace Source

open Json

@[simp]
theorem uint32?_ofLine (l : LineNumber) : (ofLine l).uint32? = some l := by
  have h : (ofLine l).below? UInt32.size = some l.toNat := if_pos l.toNat_lt_size
  rw [uint32?, h, Option.map_some, UInt32.ofNat_toNat]

@[simp]
theorem str?_str (s : String) : (Json.str s).str? = some s := rfl

theorem list?_str (ss : List String) : list? str? (.arr (ss.map .str)) = some ss :=
  list?_map fun _ _ => rfl

/-! ## Operators and literals -/

@[simp]
theorem Operator.ofJson?_toJson (reading : Reading) (op : Operator) :
    Operator.ofJson? reading op.toJson = some op := by
  cases op <;> rfl

theorem int64?_toInt (n : Int64) : (Json.int n.toInt).int64? = some n := by
  rw [int64?, if_pos ⟨n.minValue_le_toInt, n.toInt_le⟩, Int64.ofInt_toInt]

@[simp]
theorem Literal.ofJson?_toJson (reading : Reading) (x : Literal) :
    Literal.ofJson? reading x.toJson = some x := by
  cases x with
  | int value => rw [Literal.toJson, Literal.ofJson?, int64?_toInt, Option.map_some]
  | _ => rfl

/-! ## Annotations -/

theorem hintsToJson_eq_map (as : List Hint) : hintsToJson as = as.map Hint.toJson := by
  induction as with
  | nil => rfl
  | cons a as ih => rw [hintsToJson, ih, List.map_cons]

theorem hintsOfJson?_eq_mapM (reading : Reading) (js : List Json) :
    hintsOfJson? reading js = js.mapM (Hint.ofJson? reading) := by
  induction js with
  | nil => simp [hintsOfJson?]
  | cons j js ih => simp [hintsOfJson?, ih]

theorem tupleOfJson?_eq (reading : Reading) (j : Json) :
    tupleOfJson? reading j = (list? (Hint.ofJson? reading) j).map .tuple := by
  cases j <;> simp [tupleOfJson?, list?, arr?, hintsOfJson?_eq_mapM]

theorem hintFields_eq_map (reading : Reading) (members : List (String × Json)) :
    hintFields reading members = members.map (Prod.map id fun j => (j, Hint.ofJson? reading j)) := by
  induction members with
  | nil => rfl
  | cons m members ih => rw [hintFields, ih, List.map_cons, Prod.map, id]

theorem subscriptOfJson?_obj (reading : Reading) (members : List (String × Json)) :
    subscriptOfJson? reading (.obj members) = do
      let base ← Fields.required members "base" str?
      let index ← Fields.required members "index" (Hint.ofJson? reading)
      return .subscript base index := by
  rw [subscriptOfJson?, hintFields_eq_map]
  simp only [Fields.required_map]
  rfl

@[simp]
theorem Hint.ofJson?_toJson (reading : Reading) (a : Hint) :
    Hint.ofJson? reading a.toJson = some a := by
  induction a with
  | name id => rfl
  | null => rfl
  | subscript base index ih =>
    rw [Hint.toJson, Hint.ofJson?, subscriptOfJson?_obj]
    simp [ih]
  | tuple elements ih =>
    rw [Hint.toJson, Hint.ofJson?, tupleOfJson?_eq, hintsToJson_eq_map, list?_map ih,
      Option.map_some]

theorem Hint.toJson_ne_null (a : Hint) : a.toJson ≠ .null := by
  cases a <;> simp [Hint.toJson]

theorem nullable?_hint (reading : Reading) (a? : Option Hint) :
    nullable? (Hint.ofJson? reading) (.ofOption Hint.toJson a?) = some a? :=
  nullable?_ofOption (fun a _ => a.ofJson?_toJson reading) Hint.toJson_ne_null

/-! ## Nodes -/

theorem mem_of_caseOf? {cases : List String} {j : Json} {tag : String}
    (h : caseOf? cases j = some tag) : tag ∈ cases := by
  unfold caseOf? at h
  split at h
  · obtain ⟨hmem, htag⟩ := Option.ite_none_right_eq_some.mp h
    cases htag
    exact hmem
  · exact List.mem_of_getElem? h
  · cases h

/-- The members say the line and the case of a node. -/
def IsNode (cases : List String) (members : Fields Json) (line : LineNumber) (tag : String) : Prop :=
  lineOf? members = some line ∧ members.required "type" (caseOf? cases) = some tag

theorem IsNode.mem {cases : List String} {members : Fields Json} {line : LineNumber} {tag : String}
    (h : IsNode cases members line tag) : tag ∈ cases := by
  obtain ⟨j, -, hcase⟩ := Fields.required_eq_some.mp h.2
  exact mem_of_caseOf? hcase

theorem isNode_node {cases : List String} {tag : String} (htag : tag ∈ cases) (line : LineNumber)
    {fields : List (String × Json)} (hline : Fields.find? fields "line" = some none)
    (htype : Fields.find? fields "type" = some none) :
    IsNode cases (("line", ofLine line) :: ("type", .str tag) :: fields) line tag := by
  have hcase : caseOf? cases (.str tag) = some tag := if_pos htag
  constructor
  · simp [lineOf?, hline]
  · simp [htype, hcase]

/-! ## Expressions -/

theorem exprsToJson_eq_map (es : List Expr) : exprsToJson es = es.map Expr.toJson := by
  induction es with
  | nil => rfl
  | cons e es ih => rw [exprsToJson, ih, List.map_cons]

theorem exprsOfJson?_eq_mapM (js : List Json) : exprsOfJson? js = js.mapM Expr.ofJson? := by
  induction js with
  | nil => simp [exprsOfJson?]
  | cons j js ih => simp [exprsOfJson?, ih]

theorem exprListOfJson?_eq (j : Json) : exprListOfJson? j = list? Expr.ofJson? j := by
  cases j <;> simp [exprListOfJson?, list?, arr?, exprsOfJson?_eq_mapM]

/-- What a member of an expression may be. -/
def ExprField.ofJson (j : Json) : ExprField := ⟨j, Expr.ofJson? j, list? Expr.ofJson? j⟩

theorem ExprField.expr_comp : ExprField.expr ∘ ExprField.ofJson = Expr.ofJson? := rfl

theorem ExprField.exprs_comp : ExprField.exprs ∘ ExprField.ofJson = list? Expr.ofJson? := rfl

theorem exprFields_eq_map (members : List (String × Json)) :
    exprFields members = members.map (Prod.map id ExprField.ofJson) := by
  induction members with
  | nil => rfl
  | cons m members ih =>
    rw [exprFields, ih, exprListOfJson?_eq]
    rfl

theorem ExprField.raw_map (members : List (String × Json)) :
    ExprField.raw (members.map (Prod.map id ExprField.ofJson)) = members := by
  rw [ExprField.raw, List.map_map]
  exact List.map_id members

def Expr.tag : Expr → String
  | .constant _ _ => "Constant"
  | .name _ _ => "Name"
  | .binary _ _ _ _ => "BinOp"
  | .subscript _ _ _ => "Subscript"
  | .call _ _ _ => "Call"
  | .conditional _ _ _ _ => "IfExp"
  | .tuple _ _ => "Tuple"
  | .unsupported _ _ => "Unsupported"

/-- The fields of an expression are among the members of a node. -/
def Expr.FieldsIn (members : Fields Json) : Expr → Prop
  | .constant _ value => members.required "value" (Literal.ofJson? .lenient) = some value
  | .name _ id => members.required "id" str? = some id
  | .binary _ op left right =>
    members.required "op" (Operator.ofJson? .lenient) = some op ∧
      members.required "left" Expr.ofJson? = some left ∧
      members.required "right" Expr.ofJson? = some right
  | .subscript _ value index =>
    members.required "value" Expr.ofJson? = some value ∧
      members.required "index" Expr.ofJson? = some index
  | .call _ func args =>
    members.required "func" str? = some func ∧
      members.optional "args" (list? Expr.ofJson?) [] = some args
  | .conditional _ test body orelse =>
    members.required "test" Expr.ofJson? = some test ∧
      members.required "body" Expr.ofJson? = some body ∧
      members.required "orelse" Expr.ofJson? = some orelse
  | .tuple _ elements => members.required "elts" (list? Expr.ofJson?) = some elements
  | .unsupported _ construct => members.required "construct" str? = some construct

theorem Expr.ofJson?_eq_some {members : List (String × Json)} {e : Expr} :
    Expr.ofJson? (.obj members) = some e ↔
      IsNode exprCases members e.line e.tag ∧ e.FieldsIn members := by
  rw [Expr.ofJson?, exprFields_eq_map]
  simp only [Expr.ofFields?, ExprField.raw_map, Fields.required_map, Fields.optional_map,
    ExprField.expr_comp, ExprField.exprs_comp]
  constructor
  · intro h
    obtain ⟨l, hline, h⟩ := Option.bind_eq_some_iff.mp h
    obtain ⟨tag, htag, h⟩ := Option.bind_eq_some_iff.mp h
    have hnode : IsNode exprCases members l tag := ⟨hline, htag⟩
    split at h
    all_goals simp only [bind, Option.bind_eq_some_iff, pure, Option.some.injEq] at h
    · obtain ⟨value, hvalue, rfl⟩ := h
      exact ⟨hnode, hvalue⟩
    · obtain ⟨id, hid, rfl⟩ := h
      exact ⟨hnode, hid⟩
    · obtain ⟨op, hop, left, hleft, right, hright, rfl⟩ := h
      exact ⟨hnode, hop, hleft, hright⟩
    · obtain ⟨value, hvalue, index, hindex, rfl⟩ := h
      exact ⟨hnode, hvalue, hindex⟩
    · obtain ⟨func, hfunc, args, hargs, rfl⟩ := h
      exact ⟨hnode, hfunc, hargs⟩
    · obtain ⟨test, htest, body, hbody, orelse, horelse, rfl⟩ := h
      exact ⟨hnode, htest, hbody, horelse⟩
    · obtain ⟨elements, helements, rfl⟩ := h
      exact ⟨hnode, helements⟩
    · obtain ⟨construct, hconstruct, rfl⟩ := h
      have hmem := hnode.mem
      refine ⟨?_, hconstruct⟩
      simp_all [exprCases, Expr.tag, Expr.line]
  · rintro ⟨⟨hline, htag⟩, hfields⟩
    rw [hline, htag]
    cases e <;> simp_all [Expr.FieldsIn, Expr.line, Expr.tag]

theorem Expr.ofJson?_of_fieldsIn {e : Expr} {fields : List (String × Json)}
    (hjson : e.toJson = node e.line e.tag fields)
    (hline : Fields.find? fields "line" = some none)
    (htype : Fields.find? fields "type" = some none)
    (h : e.FieldsIn (("line", ofLine e.line) :: ("type", .str e.tag) :: fields)) :
    Expr.ofJson? e.toJson = some e := by
  have htag : e.tag ∈ exprCases := by
    cases e <;> simp [Expr.tag, exprCases]
  rw [hjson]
  exact Expr.ofJson?_eq_some.mpr ⟨isNode_node htag e.line hline htype, h⟩

theorem Expr.ofJson?_toJson (e : Expr) : Expr.ofJson? e.toJson = some e := by
  induction e with
  | constant l value =>
    exact Expr.ofJson?_of_fieldsIn rfl (by simp) (by simp) (by simp [Expr.FieldsIn])
  | name l id => exact Expr.ofJson?_of_fieldsIn rfl (by simp) (by simp) (by simp [Expr.FieldsIn])
  | binary l op left right ihleft ihright =>
    exact Expr.ofJson?_of_fieldsIn rfl (by simp) (by simp)
      (by simp [Expr.FieldsIn, ihleft, ihright])
  | subscript l value index ihvalue ihindex =>
    exact Expr.ofJson?_of_fieldsIn rfl (by simp) (by simp)
      (by simp [Expr.FieldsIn, ihvalue, ihindex])
  | call l func args ih =>
    exact Expr.ofJson?_of_fieldsIn rfl (by simp) (by simp)
      (by simp [Expr.FieldsIn, exprsToJson_eq_map, list?_map ih])
  | conditional l test body orelse ihtest ihbody ihorelse =>
    exact Expr.ofJson?_of_fieldsIn rfl (by simp) (by simp)
      (by simp [Expr.FieldsIn, ihtest, ihbody, ihorelse])
  | tuple l elements ih =>
    exact Expr.ofJson?_of_fieldsIn rfl (by simp) (by simp)
      (by simp [Expr.FieldsIn, exprsToJson_eq_map, list?_map ih])
  | unsupported l construct =>
    exact Expr.ofJson?_of_fieldsIn rfl (by simp) (by simp) (by simp [Expr.FieldsIn])

theorem Expr.toJson_ne_null (e : Expr) : e.toJson ≠ .null := by
  cases e <;> simp [Expr.toJson, node]

theorem nullable?_expr (e? : Option Expr) :
    nullable? Expr.ofJson? (.ofOption Expr.toJson e?) = some e? :=
  nullable?_ofOption (fun e _ => e.ofJson?_toJson) Expr.toJson_ne_null

/-! ## Statements -/

theorem stmtsToJson_eq_map (ss : List Stmt) : stmtsToJson ss = ss.map Stmt.toJson := by
  induction ss with
  | nil => rfl
  | cons s ss ih => rw [stmtsToJson, ih, List.map_cons]

theorem stmtsOfJson?_eq_mapM (js : List Json) : stmtsOfJson? js = js.mapM Stmt.ofJson? := by
  induction js with
  | nil => simp [stmtsOfJson?]
  | cons j js ih => simp [stmtsOfJson?, ih]

theorem stmtListOfJson?_eq (j : Json) : stmtListOfJson? j = list? Stmt.ofJson? j := by
  cases j <;> simp [stmtListOfJson?, list?, arr?, stmtsOfJson?_eq_mapM]

/-- What a member of a statement may be. -/
def StmtField.ofJson (j : Json) : StmtField := ⟨j, list? Stmt.ofJson? j⟩

theorem StmtField.stmts_comp : StmtField.stmts ∘ StmtField.ofJson = list? Stmt.ofJson? := rfl

theorem stmtFields_eq_map (members : List (String × Json)) :
    stmtFields members = members.map (Prod.map id StmtField.ofJson) := by
  induction members with
  | nil => rfl
  | cons m members ih =>
    rw [stmtFields, ih, stmtListOfJson?_eq]
    rfl

theorem StmtField.raw_map (members : List (String × Json)) :
    StmtField.raw (members.map (Prod.map id StmtField.ofJson)) = members := by
  rw [StmtField.raw, List.map_map]
  exact List.map_id members

def Stmt.tag : Stmt → String
  | .ret _ _ => "Return"
  | .annotated _ _ _ _ => "AnnAssign"
  | .augmented _ _ _ _ => "AugAssign"
  | .assign _ _ _ => "Assign"
  | .branch _ _ _ _ => "If"
  | .loop _ _ _ _ _ => "For"
  | .unsupported _ _ => "Unsupported"

/-- The fields of a statement are among the members of a node. -/
def Stmt.FieldsIn (members : Fields Json) : Stmt → Prop
  | .ret _ value => members.optional "value" (nullable? Expr.ofJson?) none = some value
  | .annotated _ target hint value =>
    members.required "target" str? = some target ∧
      members.required "annotation" (Hint.ofJson? .lenient) = some hint ∧
      members.optional "value" (nullable? Expr.ofJson?) none = some value
  | .augmented _ target op value =>
    members.required "target" Expr.ofJson? = some target ∧
      members.required "op" (Operator.ofJson? .lenient) = some op ∧
      members.required "value" Expr.ofJson? = some value
  | .assign _ targets value =>
    members.required "targets" (list? str?) = some targets ∧
      members.required "value" Expr.ofJson? = some value
  | .branch _ test body orelse =>
    members.required "test" Expr.ofJson? = some test ∧
      members.required "body" (list? Stmt.ofJson?) = some body ∧
      members.optional "orelse" (list? Stmt.ofJson?) [] = some orelse
  | .loop _ target iter body orelse =>
    members.required "target" str? = some target ∧
      members.required "iter" Expr.ofJson? = some iter ∧
      members.required "body" (list? Stmt.ofJson?) = some body ∧
      members.optional "orelse" (list? Stmt.ofJson?) [] = some orelse
  | .unsupported _ construct => members.required "construct" str? = some construct

theorem Stmt.ofJson?_eq_some {members : List (String × Json)} {s : Stmt} :
    Stmt.ofJson? (.obj members) = some s ↔
      IsNode stmtCases members s.line s.tag ∧ s.FieldsIn members := by
  rw [Stmt.ofJson?, stmtFields_eq_map]
  simp only [Stmt.ofFields?, StmtField.raw_map, Fields.required_map, Fields.optional_map,
    StmtField.stmts_comp]
  constructor
  · intro h
    obtain ⟨l, hline, h⟩ := Option.bind_eq_some_iff.mp h
    obtain ⟨tag, htag, h⟩ := Option.bind_eq_some_iff.mp h
    have hnode : IsNode stmtCases members l tag := ⟨hline, htag⟩
    split at h
    all_goals simp only [bind, Option.bind_eq_some_iff, pure, Option.some.injEq] at h
    · obtain ⟨value, hvalue, rfl⟩ := h
      exact ⟨hnode, hvalue⟩
    · obtain ⟨target, htarget, hint, hhint, value, hvalue, rfl⟩ := h
      exact ⟨hnode, htarget, hhint, hvalue⟩
    · obtain ⟨target, htarget, op, hop, value, hvalue, rfl⟩ := h
      exact ⟨hnode, htarget, hop, hvalue⟩
    · obtain ⟨targets, htargets, value, hvalue, rfl⟩ := h
      exact ⟨hnode, htargets, hvalue⟩
    · obtain ⟨test, htest, body, hbody, orelse, horelse, rfl⟩ := h
      exact ⟨hnode, htest, hbody, horelse⟩
    · obtain ⟨target, htarget, iter, hiter, body, hbody, orelse, horelse, rfl⟩ := h
      exact ⟨hnode, htarget, hiter, hbody, horelse⟩
    · obtain ⟨construct, hconstruct, rfl⟩ := h
      have hmem := hnode.mem
      refine ⟨?_, hconstruct⟩
      simp_all [stmtCases, Stmt.tag, Stmt.line]
  · rintro ⟨⟨hline, htag⟩, hfields⟩
    rw [hline, htag]
    cases s <;> simp_all [Stmt.FieldsIn, Stmt.line, Stmt.tag]

theorem Stmt.ofJson?_of_fieldsIn {s : Stmt} {fields : List (String × Json)}
    (hjson : s.toJson = node s.line s.tag fields)
    (hline : Fields.find? fields "line" = some none)
    (htype : Fields.find? fields "type" = some none)
    (h : s.FieldsIn (("line", ofLine s.line) :: ("type", .str s.tag) :: fields)) :
    Stmt.ofJson? s.toJson = some s := by
  have htag : s.tag ∈ stmtCases := by
    cases s <;> simp [Stmt.tag, stmtCases]
  rw [hjson]
  exact Stmt.ofJson?_eq_some.mpr ⟨isNode_node htag s.line hline htype, h⟩

theorem Stmt.ofJson?_toJson (s : Stmt) : Stmt.ofJson? s.toJson = some s := by
  induction s with
  | ret l value =>
    exact Stmt.ofJson?_of_fieldsIn rfl (by simp) (by simp)
      (by simp [Stmt.FieldsIn, nullable?_expr])
  | annotated l target hint value =>
    exact Stmt.ofJson?_of_fieldsIn rfl (by simp) (by simp)
      (by simp [Stmt.FieldsIn, nullable?_expr])
  | augmented l target op value =>
    exact Stmt.ofJson?_of_fieldsIn rfl (by simp) (by simp)
      (by simp [Stmt.FieldsIn, Expr.ofJson?_toJson])
  | assign l targets value =>
    exact Stmt.ofJson?_of_fieldsIn rfl (by simp) (by simp)
      (by simp [Stmt.FieldsIn, Expr.ofJson?_toJson, list?_str])
  | branch l test body orelse ihbody ihorelse =>
    exact Stmt.ofJson?_of_fieldsIn rfl (by simp) (by simp)
      (by simp [Stmt.FieldsIn, Expr.ofJson?_toJson, stmtsToJson_eq_map, list?_map ihbody,
        list?_map ihorelse])
  | loop l target iter body orelse ihbody ihorelse =>
    exact Stmt.ofJson?_of_fieldsIn rfl (by simp) (by simp)
      (by simp [Stmt.FieldsIn, Expr.ofJson?_toJson, stmtsToJson_eq_map, list?_map ihbody,
        list?_map ihorelse])
  | unsupported l construct =>
    exact Stmt.ofJson?_of_fieldsIn rfl (by simp) (by simp) (by simp [Stmt.FieldsIn])

/-! ## Functions and items -/

theorem Param.ofJson?_toJson (reading : Reading) (p : Param) :
    Param.ofJson? reading p.toJson = some p := by
  simp [Param.ofJson?, Param.toJson, fields?, nullable?_hint]

/-- The fields of a function are among those of a record. -/
structure Function.FieldsIn (reading : Reading) (fields : Fields Json) (f : Function) : Prop where
  name : fields.required "name" str? = some f.name
  params : fields.optional "params" (list? (Param.ofJson? reading)) [] = some f.params
  returns : fields.optional "returns" (nullable? (Hint.ofJson? reading)) none = some f.returns
  body : fields.optional "body" (list? Stmt.ofJson?) [] = some f.body
  line : lineOf? fields = some f.line

theorem Function.ofFields?_eq_some {reading : Reading} {fields : Fields Json} {f : Function} :
    Function.ofFields? reading fields = some f ↔ f.FieldsIn reading fields := by
  have hbody : stmtListOfJson? = list? Stmt.ofJson? := funext stmtListOfJson?_eq
  simp only [Function.ofFields?, hbody, bind, Option.bind_eq_some_iff, pure, Option.some.injEq]
  constructor
  · rintro ⟨name, hname, params, hparams, returns, hreturns, body, hbody, line, hline, rfl⟩
    exact ⟨hname, hparams, hreturns, hbody, hline⟩
  · rintro ⟨hname, hparams, hreturns, hbody, hline⟩
    exact ⟨_, hname, _, hparams, _, hreturns, _, hbody, _, hline, rfl⟩

/-- The fields of an item are among those of a record. -/
def Item.FieldsIn (fields : Fields Json) : Item → Prop
  | .function f => f.FieldsIn .lenient fields
  | .other construct line =>
    fields.required "construct" str? = some construct ∧ lineOf? fields = some line

def Item.tag : Item → String
  | .function _ => "FunctionDef"
  | .other _ _ => "Other"

/-- The fields of an item that is a list, in their order. -/
def Item.fieldNames : Item → List String
  | .function _ => functionFields
  | .other _ _ => ["construct", "line"]

theorem Item.ofFields?_eq_some {tag : String} {record : List String → Option (Fields Json)}
    {i : Item} : Item.ofFields? tag record = some i ↔
      tag = i.tag ∧ ∃ fields, record i.fieldNames = some fields ∧ i.FieldsIn fields := by
  constructor
  · intro h
    unfold Item.ofFields? at h
    split at h
    · obtain ⟨fields, hfields, h⟩ := Option.bind_eq_some_iff.mp h
      obtain ⟨f, hf, h⟩ := Option.bind_eq_some_iff.mp h
      cases h
      exact ⟨rfl, fields, hfields, Function.ofFields?_eq_some.mp hf⟩
    · obtain ⟨fields, hfields, h⟩ := Option.bind_eq_some_iff.mp h
      obtain ⟨construct, hconstruct, h⟩ := Option.bind_eq_some_iff.mp h
      obtain ⟨line, hline, h⟩ := Option.bind_eq_some_iff.mp h
      cases h
      exact ⟨rfl, fields, hfields, hconstruct, hline⟩
    · cases h
  · rintro ⟨rfl, fields, hrecord, hfields⟩
    cases i with
    | function f =>
      change (record (Item.function f).fieldNames).bind _ = _
      rw [hrecord, Option.bind_some]
      change (Function.ofFields? .lenient fields).bind _ = _
      rw [Function.ofFields?_eq_some.mpr hfields]
      rfl
    | other construct line =>
      obtain ⟨hconstruct, hline⟩ := hfields
      change (record (Item.other construct line).fieldNames).bind _ = _
      rw [hrecord, Option.bind_some]
      change (fields.required "construct" str?).bind _ = _
      rw [hconstruct, Option.bind_some, hline]
      rfl

theorem Item.ofJson?_obj_eq_some {members : List (String × Json)} {i : Item} :
    Item.ofJson? (.obj members) = some i ↔
      Fields.required members "type" str? = some i.tag ∧ i.FieldsIn members := by
  refine Option.bind_eq_some_iff.trans ?_
  simp only [Item.ofFields?_eq_some, Option.some.injEq, exists_eq_left']
  constructor
  · rintro ⟨tag, htag, rfl, hfields⟩
    exact ⟨htag, hfields⟩
  · rintro ⟨htag, hfields⟩
    exact ⟨_, htag, rfl, hfields⟩

theorem Item.ofJson?_toJson (i : Item) : Item.ofJson? i.toJson = some i := by
  cases i with
  | function f =>
    have hparams : list? (Param.ofJson? .lenient) (.arr (f.params.map Param.toJson)) = some f.params :=
      list?_map fun p _ => p.ofJson?_toJson .lenient
    have hbody : list? Stmt.ofJson? (.arr (stmtsToJson f.body)) = some f.body := by
      rw [stmtsToJson_eq_map]
      exact list?_map fun s _ => s.ofJson?_toJson
    refine Item.ofJson?_obj_eq_some.mpr ⟨by simp [Function.members, Item.tag], ?_⟩
    constructor
    all_goals simp [Function.members, lineOf?, nullable?_hint, hparams, hbody]
  | other construct line =>
    refine Item.ofJson?_obj_eq_some.mpr ⟨by simp [Item.tag], ?_⟩
    simp [Item.FieldsIn, lineOf?]

end Source

end AnnotatedToC
